import XmlParser.CursorProperties

/-! What the decoders deliver: legal characters only, and a text from its own
encoding. -/

set_option autoImplicit false

namespace XmlParser

theorem pushChar_eq_ok {value : Nat} {location : SourceLocation}
    {rest : Except XmlParseException (List DecodedChar × LocationTracker)}
    {chars : List DecodedChar} {final : LocationTracker} :
    pushChar value location rest = .ok (chars, final) ↔
      ∃ others, rest = .ok (others, final) ∧ chars = ⟨value, location⟩ :: others := by
  unfold pushChar
  cases rest with
  | error error => simp [Except.map]
  | ok decoded =>
      obtain ⟨others, tracker⟩ := decoded
      simp [Except.map, eq_comm, and_comm]

theorem except_bind_eq_ok {ε α β : Type} {source : Except ε α} {continuation : α → Except ε β}
    {result : β} : (source >>= continuation) = .ok result ↔
      ∃ value, source = .ok value ∧ continuation value = .ok result := by
  cases source with
  | error error => simp [bind, Except.bind]
  | ok value => simp [bind, Except.bind]

theorem readUtf8_valid {version : XmlVersion} {location : SourceLocation} {leading value : Nat}
    {continuations : Bytes} (read : readUtf8 version location leading continuations = .ok value) :
    isValidXmlChar value version = true := by
  unfold readUtf8 at read
  obtain ⟨number, _, checked⟩ := except_bind_eq_ok.mp read
  obtain ⟨_, passed, returned⟩ := except_bind_eq_ok.mp checked
  cases returned
  unfold checkUtf8 at passed
  split at passed
  · cases passed
  split at passed
  · cases passed
  · rename_i valid
    simpa using valid

/-! ## Sequences -/

/-- The branches on the first byte of a UTF-8 sequence: its bits and the width. -/
def leadUtf8 (location : SourceLocation) (byte : UInt8) : Except XmlParseException (Nat × Nat) :=
  if byte < 0x80 then .ok (byte.toNat, 1)
  else if byte &&& 0xE0 == 0xC0 then
    if byte &&& 0x1F == 0 then throwParse .encoding location "invalid UTF-8 sequence"
    else .ok ((byte &&& 0x1F).toNat, 2)
  else if byte &&& 0xF0 == 0xE0 then .ok ((byte &&& 0x0F).toNat, 3)
  else if byte &&& 0xF8 == 0xF0 then .ok ((byte &&& 0x07).toNat, 4)
  else throwParse .encoding location "invalid UTF-8 sequence"

/-- The sequence at the front of the bytes left. -/
def utf8At (version : XmlVersion) (location : SourceLocation) (byte : UInt8) (rest : Bytes) :
    Except XmlParseException (Nat × Nat) := do
  let (leading, width) ← leadUtf8 location byte
  if width - 1 > rest.length then
    throwParse .encoding location "truncated UTF-8 sequence"
  else
    let value ← readUtf8 version location leading (rest.take (width - 1))
    return (value, width)

/-- The test at the end of each sequence of `decode_utf16`. -/
def checkChar (version : XmlVersion) (location : SourceLocation) (value width : Nat) :
    Except XmlParseException (Nat × Nat) :=
  if !isValidXmlChar value version then throwParse .wellFormedness location "invalid XML character"
  else .ok (value, width)

/-- The code unit or surrogate pair at the front of the bytes left. -/
def utf16At (littleEndian : Bool) (version : XmlVersion) (location : SourceLocation) (first : UInt8) :
    Bytes → Except XmlParseException (Nat × Nat)
  | [] => throwParse .encoding location "truncated UTF-16 code unit"
  | second :: rest =>
      let unit := readUnit littleEndian first second
      if 0xD800 ≤ unit && unit ≤ 0xDBFF then
        match rest with
        | third :: fourth :: _ =>
            let trail := readUnit littleEndian third fourth
            if trail < 0xDC00 || trail > 0xDFFF then
              throwParse .encoding location "invalid UTF-16 surrogate pair"
            else
              checkChar version location (0x10000 + (((unit - 0xD800) <<< 10) ||| (trail - 0xDC00))) 4
        | _ => throwParse .encoding location "truncated UTF-16 surrogate pair"
      else if 0xDC00 ≤ unit && unit ≤ 0xDFFF then
        throwParse .encoding location "unexpected UTF-16 trailing surrogate"
      else checkChar version location unit 2

theorem leadUtf8_width {location : SourceLocation} {byte : UInt8} {leading width : Nat}
    (lead : leadUtf8 location byte = .ok (leading, width)) : 1 ≤ width := by
  unfold leadUtf8 throwParse at lead
  split_ifs at lead <;> cases lead <;> decide

/-- A loop over the bytes left reads them sequence by sequence, each of a legal
character and at least one byte. -/
structure ReadsBy (version : XmlVersion)
    (next : SourceLocation → UInt8 → Bytes → Except XmlParseException (Nat × Nat))
    (whole : Bytes → Nat → LocationTracker → Except XmlParseException (List DecodedChar × LocationTracker)) :
    Prop where
  nil : ∀ offset tracker, whole [] offset tracker = .ok ([], tracker)
  cons : ∀ byte rest offset tracker, whole (byte :: rest) offset tracker =
    next (tracker.current offset) byte rest >>= fun decided =>
      pushChar decided.1 (tracker.current offset)
        (whole ((byte :: rest).drop decided.2) (offset + decided.2) (tracker.advance decided.1))
  sound : ∀ {location byte rest value width}, next location byte rest = .ok (value, width) →
    1 ≤ width ∧ isValidXmlChar value version = true

/-- A sequence of this width, of which `rest` holds the continuation bytes. -/
theorem utf8At_of_lead {version : XmlVersion} {location : SourceLocation} {byte : UInt8} {rest : Bytes}
    {leading width : Nat} (lead : leadUtf8 location byte = .ok (leading, width))
    (whole : width - 1 ≤ rest.length) :
    utf8At version location byte rest =
      readUtf8 version location leading (rest.take (width - 1)) >>= fun value => .ok (value, width) := by
  unfold utf8At
  rw [lead]
  exact if_neg (Nat.not_lt.mpr whole)

theorem utf8At_truncated {version : XmlVersion} {location : SourceLocation} {byte : UInt8} {rest : Bytes}
    {leading width : Nat} (lead : leadUtf8 location byte = .ok (leading, width))
    (short : rest.length < width - 1) :
    utf8At version location byte rest = throwParse .encoding location "truncated UTF-8 sequence" := by
  unfold utf8At
  rw [lead]
  exact if_pos short

theorem utf8Loop_readsBy (version : XmlVersion) : ReadsBy version (utf8At version) (decodeUtf8Loop version) where
  nil _ _ := by rw [decodeUtf8Loop]
  cons byte rest offset tracker := by
    have whole : ∀ {leading width : Nat}, leadUtf8 (tracker.current offset) byte = .ok (leading, width) →
        width - 1 ≤ rest.length → utf8At version (tracker.current offset) byte rest >>= (fun decided =>
          pushChar decided.1 (tracker.current offset) (decodeUtf8Loop version ((byte :: rest).drop decided.2)
            (offset + decided.2) (tracker.advance decided.1))) =
          readUtf8 version (tracker.current offset) leading (rest.take (width - 1)) >>= fun value =>
            pushChar value (tracker.current offset) (decodeUtf8Loop version ((byte :: rest).drop width)
              (offset + width) (tracker.advance value)) := by
      intro leading width lead long
      rw [utf8At_of_lead lead long, bind_assoc]
      rfl
    rw [decodeUtf8Loop.eq_def]
    dsimp only
    by_cases isAscii : byte < 0x80
    · have lead : leadUtf8 (tracker.current offset) byte = .ok (byte.toNat, 1) := if_pos isAscii
      rw [if_pos isAscii, whole lead (Nat.zero_le _)]
      rfl
    by_cases isTwo : (byte &&& 0xE0 == 0xC0) = true
    · by_cases zero : (byte &&& 0x1F == 0) = true
      · have lead : leadUtf8 (tracker.current offset) byte =
            throwParse .encoding (tracker.current offset) "invalid UTF-8 sequence" := by
          unfold leadUtf8
          rw [if_neg isAscii, if_pos isTwo, if_pos zero]
        rw [if_neg isAscii, if_pos isTwo, if_pos zero, utf8At, lead]
        rfl
      · have lead : leadUtf8 (tracker.current offset) byte = .ok ((byte &&& 0x1F).toNat, 2) := by
          unfold leadUtf8
          rw [if_neg isAscii, if_pos isTwo, if_neg zero]
        rw [if_neg isAscii, if_pos isTwo, if_neg zero]
        rcases rest with _ | ⟨second, rest⟩
        · rw [utf8At_truncated lead (by simp)]
          rfl
        · rw [whole lead (Nat.le_add_left 1 _)]
          rfl
    by_cases isThree : (byte &&& 0xF0 == 0xE0) = true
    · have lead : leadUtf8 (tracker.current offset) byte = .ok ((byte &&& 0x0F).toNat, 3) := by
        unfold leadUtf8
        rw [if_neg isAscii, if_neg isTwo, if_pos isThree]
      rw [if_neg isAscii, if_neg isTwo, if_pos isThree]
      rcases rest with _ | ⟨second, _ | ⟨third, rest⟩⟩
      · rw [utf8At_truncated lead (by simp)]
        rfl
      · rw [utf8At_truncated lead (by simp)]
        rfl
      · rw [whole lead (Nat.le_add_left 2 _)]
        rfl
    by_cases isFour : (byte &&& 0xF8 == 0xF0) = true
    · have lead : leadUtf8 (tracker.current offset) byte = .ok ((byte &&& 0x07).toNat, 4) := by
        unfold leadUtf8
        rw [if_neg isAscii, if_neg isTwo, if_neg isThree, if_pos isFour]
      rw [if_neg isAscii, if_neg isTwo, if_neg isThree, if_pos isFour]
      rcases rest with _ | ⟨second, _ | ⟨third, _ | ⟨fourth, rest⟩⟩⟩
      · rw [utf8At_truncated lead (by simp)]
        rfl
      · rw [utf8At_truncated lead (by simp)]
        rfl
      · rw [utf8At_truncated lead (by simp)]
        rfl
      · rw [whole lead (Nat.le_add_left 3 _)]
        rfl
    · have lead : leadUtf8 (tracker.current offset) byte =
          throwParse .encoding (tracker.current offset) "invalid UTF-8 sequence" := by
        unfold leadUtf8
        rw [if_neg isAscii, if_neg isTwo, if_neg isThree, if_neg isFour]
      rw [if_neg isAscii, if_neg isTwo, if_neg isThree, if_neg isFour, utf8At, lead]
      rfl
  sound {location byte rest value width} read := by
    unfold utf8At at read
    obtain ⟨⟨leading, wide⟩, lead, read⟩ := except_bind_eq_ok.mp read
    dsimp only at read
    split at read
    · cases read
    · obtain ⟨number, valued, returned⟩ := except_bind_eq_ok.mp read
      cases returned
      exact ⟨leadUtf8_width lead, readUtf8_valid valued⟩

theorem checkChar_bind {β : Type} (version : XmlVersion) (location : SourceLocation) (value width : Nat)
    (continuation : Nat × Nat → Except XmlParseException β) :
    checkChar version location value width >>= continuation =
      if !isValidXmlChar value version then
        throwParse .wellFormedness location "invalid XML character"
      else
        continuation (value, width) := by
  unfold checkChar
  split <;> rfl

theorem checkChar_eq_ok {version : XmlVersion} {location : SourceLocation} {value width other wide : Nat}
    (checked : checkChar version location value width = .ok (other, wide)) :
    wide = width ∧ isValidXmlChar other version = true := by
  unfold checkChar at checked
  split at checked
  · cases checked
  · rename_i valid
    cases checked
    exact ⟨rfl, by simpa using valid⟩

theorem utf16Loop_readsBy (littleEndian : Bool) (version : XmlVersion) :
    ReadsBy version (utf16At littleEndian version) (decodeUtf16Loop littleEndian version) where
  nil _ _ := by rw [decodeUtf16Loop]
  cons first rest offset tracker := by
    rw [decodeUtf16Loop.eq_def]
    rcases rest with _ | ⟨second, rest⟩
    · rfl
    · unfold utf16At
      dsimp only
      split
      · rcases rest with _ | ⟨third, _ | ⟨fourth, rest⟩⟩
        · rfl
        · rfl
        · dsimp only
          split
          · rfl
          · rw [checkChar_bind]
            rfl
      · split
        · rfl
        · rw [checkChar_bind]
          rfl
  sound {location first rest value width} read := by
    have wide : ∀ {number size : Nat}, checkChar version location number size = .ok (value, width) →
        1 ≤ size → 1 ≤ width ∧ isValidXmlChar value version = true := by
      intro number size checked positive
      obtain ⟨rfl, valid⟩ := checkChar_eq_ok checked
      exact ⟨positive, valid⟩
    unfold utf16At at read
    rcases rest with _ | ⟨second, rest⟩
    · cases read
    · dsimp only at read
      split at read
      · rcases rest with _ | ⟨third, _ | ⟨fourth, rest⟩⟩
        · cases read
        · cases read
        · dsimp only at read
          split at read
          · cases read
          · exact wide read (by decide)
      · split at read
        · cases read
        · exact wide read (by decide)

/-! ## Legal characters -/

/-- A character is legal, and so are those behind it. -/
theorem legal_of_pushChar {version : XmlVersion} {value : Nat} {location : SourceLocation}
    {rest : Except XmlParseException (List DecodedChar × LocationTracker)}
    {chars : List DecodedChar} {final : LocationTracker}
    (valid : isValidXmlChar value version = true)
    (legal : ∀ others final, rest = .ok (others, final) → Legal version (values others))
    (pushed : pushChar value location rest = .ok (chars, final)) : Legal version (values chars) := by
  obtain ⟨others, decoded, rfl⟩ := pushChar_eq_ok.mp pushed
  exact legal_cons.mpr ⟨valid, legal others final decoded⟩

/-- Sequences of legal characters make up a legal text. -/
theorem ReadsBy.legal {version : XmlVersion}
    {next : SourceLocation → UInt8 → Bytes → Except XmlParseException (Nat × Nat)}
    {whole : Bytes → Nat → LocationTracker → Except XmlParseException (List DecodedChar × LocationTracker)}
    (readsBy : ReadsBy version next whole) {bytes : Bytes} {offset : Nat} {tracker final : LocationTracker}
    {chars : List DecodedChar} (decoded : whole bytes offset tracker = .ok (chars, final)) :
    Legal version (values chars) := by
  generalize size : bytes.length = length
  induction length using Nat.strongRecOn generalizing bytes offset tracker final chars with
  | ind length ih =>
      cases bytes with
      | nil =>
          rw [readsBy.nil] at decoded
          cases decoded
          exact Legal.nil version
      | cons byte rest =>
          rw [readsBy.cons] at decoded
          obtain ⟨⟨value, width⟩, read, pushed⟩ := except_bind_eq_ok.mp decoded
          obtain ⟨wide, valid⟩ := readsBy.sound read
          refine legal_of_pushChar valid (fun others final behind => ih _ ?_ behind rfl) pushed
          rw [List.length_drop, ← size, List.length_cons]
          omega

theorem requireChars_eq_ok {decoded document : DecodedDocument} {location : SourceLocation} :
    requireChars decoded location = .ok document ↔ decoded = document ∧ decoded.chars ≠ [] := by
  unfold requireChars
  cases chars : decoded.chars with
  | nil => simp [throwParse]
  | cons c rest => simp

/-- The characters of a decoded document are legal in its version. -/
theorem decodeDocument_legal {xml : Bytes} {options : ParserOptions} {document : DecodedDocument}
    (decoded : decodeDocument xml options = .ok document) :
    Legal options.version (values document.chars) := by
  have fromUtf8 : ∀ {offset : Nat} {location : SourceLocation},
      (decodeUtf8 xml offset options >>= fun read => requireChars read location) = .ok document →
      Legal options.version (values document.chars) := by
    intro offset location read
    obtain ⟨whole, ran, required⟩ := except_bind_eq_ok.mp read
    obtain ⟨rfl, _⟩ := requireChars_eq_ok.mp required
    unfold decodeUtf8 at ran
    obtain ⟨⟨chars, final⟩, looped, returned⟩ := except_bind_eq_ok.mp ran
    cases returned
    exact (utf8Loop_readsBy options.version).legal looped
  have fromUtf16 : ∀ {littleEndian : Bool} {location : SourceLocation},
      (decodeUtf16 xml littleEndian options >>= fun read => requireChars read location) =
        .ok document → Legal options.version (values document.chars) := by
    intro littleEndian location read
    obtain ⟨whole, ran, required⟩ := except_bind_eq_ok.mp read
    obtain ⟨rfl, _⟩ := requireChars_eq_ok.mp required
    unfold decodeUtf16 at ran
    obtain ⟨⟨chars, final⟩, looped, returned⟩ := except_bind_eq_ok.mp ran
    cases returned
    exact (utf16Loop_readsBy littleEndian options.version).legal looped
  unfold decodeDocument at decoded
  split at decoded
  · cases decoded
  split at decoded
  · cases decoded
  split at decoded
  · exact fromUtf8 decoded
  split at decoded
  · exact fromUtf16 decoded
  split at decoded
  · exact fromUtf16 decoded
  · exact fromUtf8 decoded

/-- A byte order mark of UTF-8, which may be missing. -/
def IsUtf8Mark (mark : Bytes) : Prop := mark = [] ∨ mark = [0xEF, 0xBB, 0xBF]

/-- The encoding of a text that begins with an ASCII character is decoded to it. -/
theorem decodeDocument_utf8 {mark : Bytes} (isMark : IsUtf8Mark mark) {text : List Nat}
    {options : ParserOptions} (legal : Legal options.version text)
    (front : ∃ c rest, text = c :: rest ∧ c < 0x80)
    (short : (mark ++ utf8 text).length ≤ options.maxDocumentBytes) :
    ∃ document, decodeDocument (mark ++ utf8 text) options = .ok document ∧
      values document.chars = text := by
  obtain ⟨c, rest, rfl, small⟩ := front
  have bytes : utf8 (c :: rest) = UInt8.ofNat c :: utf8 rest := by
    rw [utf8_cons, utf8Unit_one (by omega)]
    rfl
  have isAscii : ∀ lead : UInt8, 0x80 ≤ lead.toNat → (lead == UInt8.ofNat c) = false := by
    intro lead high
    rw [beq_eq_false_iff_ne]
    intro same
    have number := congrArg UInt8.toNat same
    rw [(ascii_tests c small).2] at number
    omega
  have reads : ∀ (skipped : Bytes) (location : SourceLocation), ∃ document,
      (decodeUtf8 (skipped ++ utf8 (c :: rest)) skipped.length options >>= fun read =>
        requireChars read location) = .ok document ∧ values document.chars = c :: rest := by
    intro skipped location
    obtain ⟨chars, final, decoded, same⟩ := decodeUtf8Loop_utf8 legal skipped.length {}
    refine ⟨⟨chars, final.current (skipped ++ utf8 (c :: rest)).length⟩, ?_, same⟩
    unfold decodeUtf8
    rw [List.drop_left, decoded]
    refine requireChars_eq_ok.mpr ⟨rfl, ?_⟩
    intro empty
    have none : chars = [] := empty
    rw [none] at same
    cases same
  have long : ¬ (mark ++ utf8 (c :: rest)).length > options.maxDocumentBytes := Nat.not_lt.mpr short
  unfold decodeDocument
  cases isMark with
  | inl none =>
      subst none
      rw [if_neg (by simp [bytes]), if_neg long]
      have first : [0xEF, 0xBB, 0xBF].isPrefixOf ([] ++ utf8 (c :: rest)) = false := by
        rw [List.nil_append, bytes, List.isPrefixOf, isAscii _ (by decide), Bool.false_and]
      have second : [0xFF, 0xFE].isPrefixOf ([] ++ utf8 (c :: rest)) = false := by
        rw [List.nil_append, bytes, List.isPrefixOf, isAscii _ (by decide), Bool.false_and]
      have third : [0xFE, 0xFF].isPrefixOf ([] ++ utf8 (c :: rest)) = false := by
        rw [List.nil_append, bytes, List.isPrefixOf, isAscii _ (by decide), Bool.false_and]
      rw [first, second, third, if_neg Bool.false_ne_true, if_neg Bool.false_ne_true,
        if_neg Bool.false_ne_true]
      exact reads [] {}
  | inr marked =>
      subst marked
      rw [if_neg (by simp), if_neg long, if_pos (by rfl)]
      exact reads [0xEF, 0xBB, 0xBF] ⟨1, 1, 3⟩

end XmlParser
