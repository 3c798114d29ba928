import XmlParser.DecoderProperties
import XmlParser.Library.Indexing

/-! The decoders as the source runs them, with an offset into the bytes, and
that they read no byte outside of the input. -/

set_option autoImplicit false

namespace XmlParser

open XmlParser.Computation Comp

namespace Indexed

/-- A subscript of the source, which is undefined outside of the text. -/
def subscript {σ α : Type} (text : List α) (index : Nat) : Comp σ Halt α :=
  Comp.get .undefinedBehavior text index

example : (subscript (ascii "ab") 1).run () = (.ok 0x62, ()) ∧
    (subscript (ascii "ab") 2).run () = (.error .undefinedBehavior, ()) := by decide

/-- A step that reads nothing and may throw. -/
def raise {σ α : Type} : Except XmlParseException α → Comp σ Halt α
  | .ok value => pure value
  | .error error => Comp.throw (.thrown (.xmlParse error))

/-! ## One sequence -/

/-- The body of the loop over the continuation bytes. -/
def continueUtf8 (location : SourceLocation) (value : Nat) (continuation : UInt8) :
    Except XmlParseException Nat :=
  if continuation &&& 0xC0 != 0x80 then
    throwParse .encoding location "invalid UTF-8 continuation"
  else
    .ok ((value <<< 6) ||| (continuation &&& 0x3F).toNat)

section Reading

variable {σ : Type} (xml : Bytes) (version : XmlVersion)

/-- The body of the loop of `decode_utf8` up to its `push_back`: the value of the
sequence at an offset, and its width. -/
def readUtf8 (location : SourceLocation) (offset : Nat) : Comp σ Halt (Nat × Nat) := do
  let byte ← subscript xml offset
  let (value, width) ← raise (leadUtf8 location byte)
  if offset + width > xml.length then
    failAt .encoding location "truncated UTF-8 sequence"
  else
    let value ← Comp.forRange .undefinedBehavior (fun value byte => raise (continueUtf8 location value byte))
      xml (width - 1) (offset + 1) value
    raise (checkUtf8 version location width value)
    pure (value, width)

/-- `read_unit` of `decode_utf16`. -/
def readUnit (littleEndian : Bool) (unitOffset : Nat) : Comp σ Halt Nat := do
  let first ← subscript xml unitOffset
  let second ← subscript xml (unitOffset + 1)
  pure (XmlParser.readUnit littleEndian first second)

/-- The part of the body for a leading surrogate. -/
def readTrail (littleEndian : Bool) (location : SourceLocation) (offset unit : Nat) :
    Comp σ Halt (Nat × Nat) := do
  if offset + 3 ≥ xml.length then
    failAt .encoding location "truncated UTF-16 surrogate pair"
  else
    let trail ← readUnit xml littleEndian (offset + 2)
    if trail < 0xDC00 || trail > 0xDFFF then
      failAt .encoding location "invalid UTF-16 surrogate pair"
    else
      pure (0x10000 + (((unit - 0xD800) <<< 10) ||| (trail - 0xDC00)), 4)

/-- The body of the loop of `decode_utf16` up to its `push_back`. -/
def readUtf16 (littleEndian : Bool) (location : SourceLocation) (offset : Nat) :
    Comp σ Halt (Nat × Nat) := do
  if offset + 1 ≥ xml.length then
    failAt .encoding location "truncated UTF-16 code unit"
  else
    let unit ← readUnit xml littleEndian offset
    let (value, width) ←
      if 0xD800 ≤ unit && unit ≤ 0xDBFF then readTrail xml littleEndian location offset unit
      else if 0xDC00 ≤ unit && unit ≤ 0xDFFF then
        failAt .encoding location "unexpected UTF-16 trailing surrogate"
      else pure (unit, 2)
    if !isValidXmlChar value version then
      failAt .wellFormedness location "invalid XML character"
    else
      pure (value, width)

end Reading

/-! ## The loops -/

/-- What both loops carry: `offset`, `tracker` and `document.chars`. -/
abbrev Decoding := Nat × LocationTracker × List DecodedChar

section Decoders

variable {σ : Type}

/-- One round of `while (offset < xml.size())`, which `read` is the special part of. -/
def decodeRound (xml : Bytes) (read : SourceLocation → Nat → Comp σ Halt (Nat × Nat)) :
    Decoding → Comp σ Halt (LoopStep Decoding DecodedDocument)
  | (offset, tracker, chars) => do
      if offset < xml.length then
        let location := tracker.current offset
        let (value, width) ← read location offset
        pure (.next (offset + width, tracker.advance value, chars ++ [⟨value, location⟩]))
      else
        pure (.done ⟨chars, tracker.current xml.length⟩)

def decodeFrom (xml : Bytes) (read : SourceLocation → Nat → Comp σ Halt (Nat × Nat)) (startOffset : Nat) :
    Comp σ Halt DecodedDocument :=
  Comp.loop (fun current _ => xml.length - current.1) .outOfFuel (decodeRound xml read) (startOffset, {}, [])

def decodeUtf8 (xml : Bytes) (startOffset : Nat) (options : ParserOptions) : Comp σ Halt DecodedDocument :=
  decodeFrom xml (readUtf8 xml options.version) startOffset

def decodeUtf16 (xml : Bytes) (littleEndian : Bool) (options : ParserOptions) :
    Comp σ Halt DecodedDocument :=
  decodeFrom xml (readUtf16 xml options.version littleEndian) 2

/-- `xml.size() >= mark.size()`, and the bytes at its front are those of the mark. -/
def beginsWith (xml mark : Bytes) : Comp σ Halt Bool :=
  if xml.length ≥ mark.length then Comp.matchesFrom .undefinedBehavior id xml mark 0 else pure false

def requireChars (decoded : DecodedDocument) (location : SourceLocation) : Comp σ Halt DecodedDocument :=
  raise (XmlParser.requireChars decoded location)

def decodeDocument (xml : Bytes) (options : ParserOptions) : Comp σ Halt DecodedDocument := do
  if xml.isEmpty then
    failAt .emptyInput {} "XML input is empty"
  else if xml.length > options.maxDocumentBytes then
    failAt .resourceLimit {} "XML input exceeds max_document_bytes"
  else if ← beginsWith xml [0xEF, 0xBB, 0xBF] then
    requireChars (← decodeUtf8 xml 3 options) ⟨1, 1, 3⟩
  else if ← beginsWith xml [0xFF, 0xFE] then
    requireChars (← decodeUtf16 xml true options) ⟨1, 1, 2⟩
  else if ← beginsWith xml [0xFE, 0xFF] then
    requireChars (← decodeUtf16 xml false options) ⟨1, 1, 2⟩
  else
    requireChars (← decodeUtf8 xml 0 options) {}

end Decoders

/-! ## In range -/

section Raising

variable {σ α β : Type}

theorem raise_ok (value : α) : (raise (.ok value) : Comp σ Halt α) = pure value := rfl

theorem raise_bind (source : Except XmlParseException α) (continuation : α → Except XmlParseException β) :
    (raise (source >>= continuation) : Comp σ Halt β) = raise source >>= fun value => raise (continuation value) := by
  cases source <;> rfl

theorem raise_ite {condition : Prop} [Decidable condition] (first second : Except XmlParseException α) :
    (raise (if condition then first else second) : Comp σ Halt α) =
      if condition then raise first else raise second :=
  apply_ite raise condition first second

theorem foldlM_continueUtf8 (location : SourceLocation) (value : Nat) (bytes : Bytes) :
    (bytes.foldlM (fun value byte => raise (continueUtf8 location value byte)) value : Comp σ Halt Nat) =
      raise (XmlParser.continueUtf8 location value bytes) := by
  induction bytes generalizing value with
  | nil => rfl
  | cons byte bytes ih =>
      rw [List.foldlM_cons, continueUtf8, XmlParser.continueUtf8]
      cases byte &&& 0xC0 != 0x80 with
      | true => rfl
      | false => exact ih _

end Raising

/-- Inside of the input a sequence is read from the bytes left. -/
theorem readUtf8_eq {σ : Type} {xml : Bytes} {offset : Nat} {byte : UInt8} {rest : Bytes}
    (isRest : xml.drop offset = byte :: rest) (version : XmlVersion) (location : SourceLocation) :
    (readUtf8 xml version location offset : Comp σ Halt (Nat × Nat)) = raise (utf8At version location byte rest) := by
  have length : xml.length - offset = rest.length + 1 := by
    rw [← List.length_drop, isRest, List.length_cons]
  have behind := drop_succ_of_drop isRest
  unfold readUtf8 utf8At subscript
  rw [get_of_drop isRest, pure_bind, raise_bind]
  cases lead : leadUtf8 location byte with
  | error error => rfl
  | ok decided =>
      obtain ⟨leading, width⟩ := decided
      have positive := leadUtf8_width lead
      rw [raise_ok, pure_bind, pure_bind]
      dsimp only
      rw [raise_ite]
      by_cases truncated : offset + width > xml.length
      · rw [if_pos truncated, if_pos (by omega)]
        rfl
      · have short : (rest.take (width - 1)).length + 1 = width := by
          rw [List.length_take]
          omega
        rw [if_neg truncated, if_neg (by omega), forRange_of_le (by omega), behind, foldlM_continueUtf8]
        unfold XmlParser.readUtf8
        rw [short]
        cases XmlParser.continueUtf8 location leading (rest.take (width - 1)) with
        | error error => rfl
        | ok value =>
            change (raise (checkUtf8 version location width value) >>= fun _ => pure (value, width)) =
              raise ((checkUtf8 version location width value >>= fun _ => Except.ok value) >>= fun value =>
                .ok (value, width))
            cases checkUtf8 version location width value <;> rfl

theorem readUnit_eq {σ : Type} {xml : Bytes} {offset : Nat} {first second : UInt8} {rest : Bytes}
    (isRest : xml.drop offset = first :: second :: rest) (littleEndian : Bool) :
    (readUnit xml littleEndian offset : Comp σ Halt Nat) =
      pure (XmlParser.readUnit littleEndian first second) := by
  have behind := drop_succ_of_drop isRest
  unfold readUnit subscript
  rw [get_of_drop isRest, pure_bind, get_of_drop behind, pure_bind]

/-- The test of the value behind the branches of `decode_utf16`. -/
theorem raise_checkChar {σ : Type} (version : XmlVersion) (location : SourceLocation) (value width : Nat) :
    (raise (checkChar version location value width) : Comp σ Halt (Nat × Nat)) =
      if !isValidXmlChar value version then failAt .wellFormedness location "invalid XML character"
      else pure (value, width) :=
  raise_ite _ _

theorem readUtf16_eq {σ : Type} {xml : Bytes} {offset : Nat} {first : UInt8} {rest : Bytes}
    (isRest : xml.drop offset = first :: rest) (littleEndian : Bool) (version : XmlVersion)
    (location : SourceLocation) :
    (readUtf16 xml version littleEndian location offset : Comp σ Halt (Nat × Nat)) =
      raise (utf16At littleEndian version location first rest) := by
  have length : xml.length - offset = rest.length + 1 := by
    rw [← List.length_drop, isRest, List.length_cons]
  unfold readUtf16
  cases rest with
  | nil =>
      rw [List.length_nil] at length
      rw [if_pos (by omega)]
      rfl
  | cons second rest =>
      rw [List.length_cons] at length
      rw [if_neg (by omega), readUnit_eq isRest, pure_bind]
      unfold utf16At
      dsimp only
      rw [raise_ite, raise_ite, raise_checkChar]
      cases leads : decide (0xD800 ≤ XmlParser.readUnit littleEndian first second) &&
          decide (XmlParser.readUnit littleEndian first second ≤ 0xDBFF) with
      | false =>
          rw [if_neg Bool.false_ne_true, if_neg Bool.false_ne_true]
          split
          · rfl
          · rw [pure_bind]
      | true =>
          rw [if_pos rfl, if_pos rfl]
          unfold readTrail
          rcases rest with _ | ⟨third, _ | ⟨fourth, rest⟩⟩
          · rw [if_pos (by simp only [List.length_nil] at length; omega)]
            rfl
          · rw [if_pos (by simp only [List.length_cons, List.length_nil] at length; omega)]
            rfl
          · have behind := drop_succ_of_drop (drop_succ_of_drop isRest)
            rw [if_neg (by simp only [List.length_cons] at length; omega), readUnit_eq behind, pure_bind]
            dsimp only
            rw [raise_ite, raise_checkChar]
            split
            · rfl
            · rw [pure_bind]

/-! ## The whole input -/

section Loop

variable {σ : Type} {xml : Bytes} {version : XmlVersion} {read : SourceLocation → Nat → Comp σ Halt (Nat × Nat)}
  {next : SourceLocation → UInt8 → Bytes → Except XmlParseException (Nat × Nat)}
  {whole : Bytes → Nat → LocationTracker → Except XmlParseException (List DecodedChar × LocationTracker)}

/-- The loop is at an offset with the bytes from there on left. -/
theorem iterate_decodeRound (readsBy : ReadsBy version next whole)
    (inRange : ∀ location {offset byte rest}, xml.drop offset = byte :: rest →
      read location offset = raise (next location byte rest))
    (fuel offset : Nat) (tracker : LocationTracker) (chars : List DecodedChar)
    (enough : xml.length - offset < fuel) :
    Comp.iterate .outOfFuel (decodeRound xml read) fuel (offset, tracker, chars) =
      raise (whole (xml.drop offset) offset tracker >>= fun decoded =>
        .ok ⟨chars ++ decoded.1, decoded.2.current xml.length⟩) := by
  induction fuel generalizing offset tracker chars with
  | zero => omega
  | succ fuel ih =>
      rw [Comp.iterate, decodeRound]
      by_cases inside : offset < xml.length
      · obtain ⟨byte, isRest⟩ := drop_eq_cons inside
        have behind : ∀ width, (byte :: xml.drop (offset + 1)).drop width = xml.drop (offset + width) := by
          intro width
          rw [← isRest, List.drop_drop]
        rw [if_pos inside]
        dsimp only
        rw [inRange _ isRest, isRest, readsBy.cons]
        cases decided : next (tracker.current offset) byte (xml.drop (offset + 1)) with
        | error error => rfl
        | ok step =>
            obtain ⟨value, width⟩ := step
            have wide := (readsBy.sound decided).1
            rw [raise_ok, pure_bind, pure_bind]
            dsimp only
            rw [ih _ _ _ (by omega)]
            change _ = raise (pushChar value (tracker.current offset) (whole
              ((byte :: xml.drop (offset + 1)).drop width) (offset + width) (tracker.advance value)) >>= _)
            rw [behind width]
            cases whole (xml.drop (offset + width)) (offset + width) (tracker.advance value) with
            | error error => rfl
            | ok decoded =>
                change raise (.ok _) = raise (.ok _)
                rw [List.append_assoc]
                rfl
      · rw [if_neg inside, List.drop_eq_nil_of_le (Nat.le_of_not_lt inside), readsBy.nil, pure_bind]
        change pure (DecodedDocument.mk chars _) = pure (DecodedDocument.mk (chars ++ []) _)
        rw [List.append_nil]

theorem decodeFrom_eq (readsBy : ReadsBy version next whole)
    (inRange : ∀ location {offset byte rest}, xml.drop offset = byte :: rest →
      read location offset = raise (next location byte rest)) (startOffset : Nat) :
    decodeFrom xml read startOffset =
      raise (whole (xml.drop startOffset) startOffset {} >>= fun decoded =>
        .ok ⟨decoded.1, decoded.2.current xml.length⟩) := by
  unfold decodeFrom Comp.loop
  exact iterate_decodeRound readsBy inRange (xml.length - startOffset + 1) startOffset {} [] (Nat.lt_succ_self _)

end Loop

section Decoders

variable {σ : Type} (xml : Bytes) (options : ParserOptions)

theorem decodeUtf8_eq (startOffset : Nat) :
    (decodeUtf8 xml startOffset options : Comp σ Halt DecodedDocument) =
      raise (XmlParser.decodeUtf8 xml startOffset options) :=
  decodeFrom_eq (utf8Loop_readsBy options.version) (fun location {_ _ _} isRest => readUtf8_eq isRest _ location)
    startOffset

theorem decodeUtf16_eq (littleEndian : Bool) :
    (decodeUtf16 xml littleEndian options : Comp σ Halt DecodedDocument) =
      raise (XmlParser.decodeUtf16 xml littleEndian options) :=
  decodeFrom_eq (utf16Loop_readsBy littleEndian options.version)
    (fun location {_ _ _} isRest => readUtf16_eq isRest littleEndian _ location) 2

theorem beginsWith_eq (mark : Bytes) :
    (beginsWith xml mark : Comp σ Halt Bool) = pure (mark.isPrefixOf xml) := by
  unfold beginsWith
  by_cases long : xml.length ≥ mark.length
  · rw [if_pos long, matchesFrom_of_le (by omega), List.drop_zero, List.map_id]
  · have short : mark.isPrefixOf xml = false := by
      rw [← Bool.not_eq_true, List.isPrefixOf_iff_prefix]
      exact fun isPrefix => long isPrefix.length_le
    rw [if_neg long, short]

/-- No byte outside of the input is read, whatever the input is. -/
theorem decodeDocument_eq :
    (decodeDocument xml options : Comp σ Halt DecodedDocument) = raise (XmlParser.decodeDocument xml options) := by
  unfold decodeDocument XmlParser.decodeDocument requireChars
  simp only [beginsWith_eq, pure_bind, decodeUtf8_eq, decodeUtf16_eq, raise_ite, raise_bind]
  rfl

end Decoders

end Indexed

end XmlParser
