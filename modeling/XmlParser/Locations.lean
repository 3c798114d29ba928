import XmlParser.Encodings
import XmlParser.LockstepMembers

/-! Every location that is reported is a position between two characters of the
decoded text, or the end of it. -/

set_option autoImplicit false

namespace XmlParser

open XmlParser.Computation Comp PrefixCode

/-! ## The encoding of a document -/

/-- The byte order mark of a document, and the code words behind it. -/
def encodingOf (xml : Bytes) : Bytes × (Nat → Bytes) :=
  if [0xEF, 0xBB, 0xBF].isPrefixOf xml then ([0xEF, 0xBB, 0xBF], utf8Unit)
  else if [0xFF, 0xFE].isPrefixOf xml then ([0xFF, 0xFE], utf16Unit true)
  else if [0xFE, 0xFF].isPrefixOf xml then ([0xFE, 0xFF], utf16Unit false)
  else ([], utf8Unit)

/-- The branches of `decode_document` differ in the mark and the decoder only. -/
theorem decodeDocument_eq (xml : Bytes) (options : ParserOptions) :
    ∃ loop, Decodes options.version (encodingOf xml).2 loop ∧
      decodeDocument xml options =
        if xml.isEmpty then throwParse .emptyInput {} "XML input is empty"
        else if xml.length > options.maxDocumentBytes then
          throwParse .resourceLimit {} "XML input exceeds max_document_bytes"
        else
          loop (xml.drop (encodingOf xml).1.length) (encodingOf xml).1.length {} >>= fun decoded =>
            requireChars ⟨decoded.1, decoded.2.current xml.length⟩ ⟨1, 1, (encodingOf xml).1.length⟩ := by
  have bind_bind : ∀ (decoded : Except XmlParseException (List DecodedChar × LocationTracker))
      (location : SourceLocation),
      ((decoded >>= fun read => .ok ⟨read.1, read.2.current xml.length⟩) >>= fun document =>
        requireChars document location) =
        (decoded >>= fun read => requireChars ⟨read.1, read.2.current xml.length⟩ location) := by
    intro decoded location
    cases decoded with
    | error error => rfl
    | ok read => rfl
  have fromUtf8 : ∀ skipped, (decodeUtf8 xml skipped options >>= fun document =>
      requireChars document ⟨1, 1, skipped⟩) =
        (decodeUtf8Loop options.version (xml.drop skipped) skipped {} >>= fun read =>
          requireChars ⟨read.1, read.2.current xml.length⟩ ⟨1, 1, skipped⟩) :=
    fun skipped => bind_bind _ _
  have fromUtf16 : ∀ littleEndian, (decodeUtf16 xml littleEndian options >>= fun document =>
      requireChars document ⟨1, 1, 2⟩) =
        (decodeUtf16Loop littleEndian options.version (xml.drop 2) 2 {} >>= fun read =>
          requireChars ⟨read.1, read.2.current xml.length⟩ ⟨1, 1, 2⟩) :=
    fun littleEndian => bind_bind _ _
  unfold encodingOf decodeDocument
  by_cases first : [0xEF, 0xBB, 0xBF].isPrefixOf xml = true
  · simp only [if_pos first]
    exact ⟨_, decodes_utf8 options.version, by rw [fromUtf8]; rfl⟩
  by_cases second : [0xFF, 0xFE].isPrefixOf xml = true
  · simp only [if_neg first, if_pos second]
    exact ⟨_, decodes_utf16 true options.version, by rw [fromUtf16]; rfl⟩
  by_cases third : [0xFE, 0xFF].isPrefixOf xml = true
  · simp only [if_neg first, if_neg second, if_pos third]
    exact ⟨_, decodes_utf16 false options.version, by rw [fromUtf16]; rfl⟩
  · simp only [if_neg first, if_neg second, if_neg third]
    exact ⟨_, decodes_utf8 options.version, by rw [fromUtf8]; rfl⟩

/-! ## Positions -/

/-- The line and the column behind a text. -/
structure Behind (text : List Nat) (location : SourceLocation) : Prop where
  line : location.line = 1 + text.count 0x0A
  column : location.column = 1 + (text.reverse.takeWhile (· != 0x0A)).length

theorem behind_after (text : List Nat) (byteOffset : Nat) :
    Behind text ((({} : LocationTracker).after text).current byteOffset) := by
  suffices holds : (({} : LocationTracker).after text).line = 1 + text.count 0x0A ∧
      (({} : LocationTracker).after text).column =
        1 + (text.reverse.takeWhile (· != 0x0A)).length from ⟨holds.1, holds.2⟩
  induction text using List.reverseRecOn with
  | nil => exact ⟨rfl, rfl⟩
  | append_singleton text value ih =>
      obtain ⟨line, column⟩ := ih
      unfold LocationTracker.after at line column ⊢
      rw [List.foldl_concat, List.count_append, List.reverse_concat]
      by_cases lineFeed : value = 0x0A
      · subst lineFeed
        refine ⟨?_, rfl⟩
        change _ + 1 = _
        rw [line]
        rfl
      · have advanced : ∀ tracker : LocationTracker,
            tracker.advance value = { tracker with column := tracker.column + 1 } :=
          fun _ => if_neg lineFeed
        have different : (value != 0x0A) = true := bne_iff_ne.mpr lineFeed
        rw [advanced, List.takeWhile_cons, if_pos different, List.count_singleton,
          if_neg (by simpa using lineFeed)]
        refine ⟨line, ?_⟩
        rw [List.length_cons]
        change _ + 1 = _
        rw [column, Nat.add_assoc]

/-- A location between two characters of the longest legal text that the bytes of
a document begin with: where the text behind it starts, or ends, or is not legal
any more. The beginning may also be given by the offset zero, in front of the
byte order mark. -/
def TruePosition (version : XmlVersion) (xml : Bytes) (location : SourceLocation) : Prop :=
  ∃ before after rest,
    xml.drop (encodingOf xml).1.length = encode (encodingOf xml).2 (before ++ after) ++ rest ∧
    Legal version (before ++ after) ∧
    (∀ value, isValidXmlChar value version = true → ¬ (encodingOf xml).2 value <+: rest) ∧
    Behind before location ∧
    (location.byteOffset =
        (encodingOf xml).1.length + (encode (encodingOf xml).2 before).length ∨
      before = [] ∧ location.byteOffset = 0)

theorem mem_located {unit : Nat → Bytes} {c : DecodedChar} {offset : Nat} {tracker : LocationTracker}
    {text : List Nat} (member : c ∈ located unit offset tracker text) :
    ∃ before after, text = before ++ after ∧
      c.location = (tracker.after before).current (offset + (encode unit before).length) := by
  induction text generalizing offset tracker with
  | nil => cases member
  | cons value text ih =>
      cases List.mem_cons.mp member with
      | inl here =>
          subst here
          exact ⟨[], value :: text, rfl, rfl⟩
      | inr later =>
          obtain ⟨before, after, rfl, located⟩ := ih later
          refine ⟨value :: before, after, rfl, ?_⟩
          rw [located, encode_cons, List.length_append, Nat.add_assoc]
          rfl

/-- The offsets of the characters of a text increase. -/
theorem located_increasing {unit : Nat → Bytes} (free : PrefixFree Scalar unit) {text : List Nat}
    (scalars : ∀ value ∈ text, Scalar value) (offset : Nat) (tracker : LocationTracker) :
    (located unit offset tracker text).Pairwise fun first second =>
      first.location.byteOffset < second.location.byteOffset := by
  induction text generalizing offset tracker with
  | nil => exact .nil
  | cons value text ih =>
      refine .cons ?_ (ih (fun c member => scalars c (List.mem_cons_of_mem _ member)) _ _)
      intro c member
      obtain ⟨before, after, _, here⟩ := mem_located member
      have positive := List.length_pos_of_ne_nil
        (free.nonempty value (scalars value List.mem_cons_self))
      rw [here]
      change offset < offset + (unit value).length + (encode unit before).length
      omega

theorem encodingOf_isPrefix (xml : Bytes) : (encodingOf xml).1 <+: xml := by
  unfold encodingOf
  split
  · rename_i marked
    exact List.isPrefixOf_iff_prefix.mp marked
  split
  · rename_i marked
    exact List.isPrefixOf_iff_prefix.mp marked
  split
  · rename_i marked
    exact List.isPrefixOf_iff_prefix.mp marked
  · exact List.nil_prefix

/-- The beginning of a document is a position, with either offset. -/
theorem truePosition_start (version : XmlVersion) (xml : Bytes) {byteOffset : Nat}
    (front : byteOffset = (encodingOf xml).1.length ∨ byteOffset = 0) :
    TruePosition version xml ⟨1, 1, byteOffset⟩ := by
  have free : PrefixFree Scalar (encodingOf xml).2 := by
    obtain ⟨loop, decodes, _⟩ := decodeDocument_eq xml {}
    exact decodes.free
  obtain ⟨text, rest, split, legal, stuck⟩ := free.exists_split
    (fun value (valid : isValidXmlChar value version = true) => scalar_of_valid valid)
    (xml.drop (encodingOf xml).1.length)
  refine ⟨[], text, rest, split, legal, stuck, ⟨rfl, rfl⟩, ?_⟩
  cases front with
  | inl mark => exact .inl (mark.trans (Nat.add_zero _).symm)
  | inr zero => exact .inr ⟨rfl, zero⟩

/-- What the decoder says about the places in a document. -/
structure Placed (version : XmlVersion) (xml : Bytes) (document : DecodedDocument) : Prop where
  chars : ∀ c ∈ document.chars, TruePosition version xml c.location
  endLocation : TruePosition version xml document.endLocation
  increasing : document.chars.Pairwise fun first second =>
    first.location.byteOffset < second.location.byteOffset

theorem decodeDocument_placed (xml : Bytes) (options : ParserOptions) :
    (∀ document, decodeDocument xml options = .ok document → Placed options.version xml document) ∧
      ∀ error, decodeDocument xml options = .error error →
        TruePosition options.version xml error.location := by
  obtain ⟨loop, decodes, decoded⟩ := decodeDocument_eq xml options
  rw [decoded]
  split
  · refine ⟨nofun, fun error threw => ?_⟩
    cases threw
    exact truePosition_start _ _ (.inr rfl)
  split
  · refine ⟨nofun, fun error threw => ?_⟩
    cases threw
    exact truePosition_start _ _ (.inr rfl)
  obtain ⟨text, rest, split, legal, stuck, ended⟩ :=
    decodes.exact (xml.drop (encodingOf xml).1.length) (encodingOf xml).1.length {}
  cases ended with
  | inl whole =>
      obtain ⟨rfl, returned⟩ := whole
      rw [returned]
      have size : xml.length =
          (encodingOf xml).1.length + (encode (encodingOf xml).2 text).length := by
        have halves := congrArg List.length split
        have bound := (encodingOf_isPrefix xml).length_le
        rw [List.length_drop, List.append_nil] at halves
        omega
      constructor
      · intro document required
        obtain ⟨rfl, _⟩ := requireChars_eq_ok.mp required
        refine ⟨?_, ?_, ?_⟩
        · intro c member
          obtain ⟨before, after, same, location⟩ := mem_located member
          subst same
          refine ⟨before, after, [], split, legal, stuck, ?_, .inl ?_⟩
          · rw [location]
            exact behind_after before _
          · rw [location]
            rfl
        · refine ⟨text, [], [], ?_, ?_, stuck, behind_after text _, .inl size⟩
          · rw [List.append_nil text]
            exact split
          · rw [List.append_nil]
            exact legal
        · exact located_increasing decodes.free (fun value member => scalar_of_valid (legal value member)) _ _
      · intro error threw
        have refused : requireChars ⟨located (encodingOf xml).2 (encodingOf xml).1.length {} text,
            (LocationTracker.after {} text).current xml.length⟩ ⟨1, 1, (encodingOf xml).1.length⟩ =
              .error error := threw
        unfold requireChars at refused
        split at refused
        · cases refused
          exact truePosition_start _ _ (.inl rfl)
        · cases refused
  | inr failed =>
      obtain ⟨kind, message, _, _, threw⟩ := failed
      rw [threw]
      refine ⟨nofun, fun error same => ?_⟩
      cases same
      refine ⟨text, [], rest, ?_, ?_, stuck, behind_after text _, .inl rfl⟩
      · rw [List.append_nil]
        exact split
      · rw [List.append_nil]
        exact legal

/-! ## Runs -/

/-- One run is compared with itself: its locations are among some places. -/
def placing (places : SourceLocation → Prop) (passes : Exception → ParserState → Prop) : Setting where
  same left right := left = right ∧ places left
  stops _ _ := False
  validates := True
  passes := passes
  refl lax := by
    cases lax with
    | inl hidden => exact absurd trivial hidden
    | inr early =>
        obtain ⟨_, _, stops⟩ := early
        exact stops.elim

section Placing

variable {places : SourceLocation → Prop} {passes : Exception → ParserState → Prop}

theorem exact_placing : (placing places passes).Exact := fun _ _ same => same.1

theorem alike_placing (p : Parser) (ends : places p.endLocation)
    (callbacks : ∀ exception s, ThrownByCallback p.handler p.options exception s → passes exception s) :
    (placing places passes).Alike p p where
  version := rfl
  namespaces := rfl
  allowExternalDtd := rfl
  externalDtdResolver := rfl
  passes := callbacks
  maxDepth := .inl rfl
  maxTokenBytes := .inl rfl
  maxAttributesPerElement := .inl rfl
  maxEntityExpansions := .inl rfl
  maxDtdDeclarations := .inl rfl
  maxEntityReplacementBytes := .inl rfl
  maxExternalSubsetBytes := .inl rfl
  endLocation := ⟨rfl, ends⟩
  handler left right same := by
    rw [exact_placing.events same]
    exact .inl rfl
  reports := by
    refine .inl ⟨trivial, rfl, ?_⟩
    cases configured : p.options.recoverableErrorHandler with
    | none => exact .inl ⟨rfl, rfl⟩
    | some handle =>
        refine .inr ⟨handle, handle, rfl, rfl, fun left right same => ?_⟩
        rw [Setting.eq_of_forall₂ (fun _ _ => exact_placing.error) same]

end Placing

/-- The places of what a run throws, reports and delivers. -/
structure ReportsAt (places : SourceLocation → Prop) (passes : Exception → ParserState → Prop) (ran : Outcome) :
    Prop where
  thrown : ∀ error, ran.1 = .error (.thrown (.xmlParse error)) →
    passes (.xmlParse error) ran.2 ∨ places error.location
  reported : ∀ error ∈ ran.2.reported, places error.location
  delivered : ∀ name attributes, .startElement name attributes ∈ ran.2.events →
    ∀ view ∈ attributes, places view.location

theorem forall₂_self {α : Type} {same : α → α → Prop} {values : List α}
    (sames : List.Forall₂ same values values) : ∀ value ∈ values, same value value := by
  intro value member
  obtain ⟨index, bound, here⟩ := List.getElem_of_mem member
  have pair := sames.get bound bound
  rw [← here]
  exact pair

theorem Setting.Paired.reportsAt {places : SourceLocation → Prop} {passes : Exception → ParserState → Prop}
    {s : ParserState} (paired : (placing places passes).Paired s s) {outcome : Except Halt Unit}
    (thrown : ∀ error, outcome = .error (.thrown (.xmlParse error)) →
      passes (.xmlParse error) s ∨ places error.location) :
    ReportsAt places passes (outcome, s) where
  thrown := thrown
  reported error member := (forall₂_self (paired.reported trivial) error member).location.2
  delivered name attributes member view viewed := by
    cases forall₂_self paired.events _ member with
    | startElement name views => exact (forall₂_self views view viewed).location.2
    | plain event notOpening => cases notOpening

theorem Parser.parse_reportsAt (p : Parser) {places : SourceLocation → Prop} {chars : List DecodedChar}
    (placed : ∀ c ∈ chars, places c.location) (ends : places p.endLocation) :
    ReportsAt places (ThrownByCallback p.handler p.options) (p.parse.run { rest := chars }) := by
  have alike := @alike_placing places (ThrownByCallback p.handler p.options) p ends fun _ _ => id
  have start : (placing places (ThrownByCallback p.handler p.options)).Paired { rest := chars }
      { rest := chars } :=
    ⟨List.forall₂_same.mpr fun c member => ⟨rfl, rfl, placed c member⟩, rfl, rfl, rfl, rfl, rfl, rfl,
      .nil, fun _ => .nil⟩
  have ended := alike.parse.ends _ _ start
  cases ran : p.parse.run { rest := chars } with
  | mk outcome final =>
      rw [ran] at ended
      cases ended with
      | returned values states => exact Setting.Paired.reportsAt states nofun
      | threw errors states =>
          refine Setting.Paired.reportsAt states fun error same => ?_
          cases same
          cases errors with
          | raised errors => exact .inr errors.location.2
          | broken notThrown => exact absurd ⟨_, rfl⟩ notThrown
      | passed passes states =>
          refine Setting.Paired.reportsAt states fun error same => ?_
          cases same
          obtain ⟨exception, same, thrown⟩ := passes
          cases same
          exact .inl thrown
      | stopped early => exact early.1.elim
      | parted gone => exact absurd trivial gone.1

/-- Whatever the bytes, the options and the handler, every location that is thrown
by the parser, reported to the error handler or delivered with an attribute is a
true position, and the characters are located one behind the other. -/
theorem locations_true (xml : Bytes) (handler : SaxHandler) (options : ParserOptions) :
    ReportsAt (TruePosition options.version xml) (ThrownByCallback handler options)
        (parseXmlDocument xml handler options) ∧
      ∀ document, decodeDocument xml options = .ok document →
        document.chars.Pairwise fun first second =>
          first.location.byteOffset < second.location.byteOffset := by
  obtain ⟨decodes, refuses⟩ := decodeDocument_placed xml options
  refine ⟨?_, fun document decoded => (decodes document decoded).increasing⟩
  unfold parseXmlDocument
  cases decoded : decodeDocument xml options with
  | error error =>
      refine ⟨fun other same => ?_, fun _ member => (nomatch member), fun _ _ member => (nomatch member)⟩
      cases same
      exact .inr (refuses error decoded)
  | ok document =>
      have placed := decodes document decoded
      exact Parser.parse_reportsAt ⟨handler, options, document.endLocation⟩ placed.chars placed.endLocation

/-- A handler may throw an exception with a location of its own making. -/
theorem not_locations_true :
    ¬ ∀ (xml : Bytes) (handler : SaxHandler) (options : ParserOptions) (error : XmlParseException),
      (parseXmlDocument xml handler options).1 = .error (.thrown (.xmlParse error)) →
        TruePosition options.version xml error.location := by
  intro always
  let error : XmlParseException := ⟨.io, ⟨7, 7, 7⟩, ""⟩
  have holds := always (ascii "<a/>") ⟨fun _ => some (.xmlParse error)⟩ {} error (by decide +kernel)
  obtain ⟨before, after, rest, split, _, _, _, place⟩ := holds
  have mark : (encodingOf (ascii "<a/>")).1 = [] := by decide +kernel
  have size := congrArg List.length split
  rw [mark, encode_append, List.length_append, List.length_append] at size
  rw [mark] at place
  have whole : ((ascii "<a/>").drop (List.length ([] : Bytes))).length = 4 := by decide
  rw [whole] at size
  cases place with
  | inl reached =>
      have far : 7 = List.length ([] : Bytes) + (encode (encodingOf (ascii "<a/>")).2 before).length :=
        reached
      rw [List.length_nil] at far
      omega
  | inr zero => cases zero.2

end XmlParser
