import XmlParser.Locations

/-! A document is parsed in the same way in UTF-8 and in both byte orders of
UTF-16: only the byte offsets differ. -/

set_option autoImplicit false

namespace XmlParser

open XmlParser.Computation Comp PrefixCode

/-! ## Without byte offsets -/

def SourceLocation.withoutOffset (location : SourceLocation) : SourceLocation :=
  { location with byteOffset := 0 }

def AttributeView.withoutOffset (view : AttributeView) : AttributeView :=
  { view with location := view.location.withoutOffset }

def Event.withoutOffsets : Event → Event
  | .startElement name attributes =>
      .startElement name (attributes.map AttributeView.withoutOffset)
  | event => event

def XmlParseException.withoutOffset (error : XmlParseException) : XmlParseException :=
  { error with location := error.location.withoutOffset }

def Halt.withoutOffset : Halt → Halt
  | .thrown (.xmlParse error) => .thrown (.xmlParse error.withoutOffset)
  | halt => halt

/-- The handler does not look at byte offsets. -/
def SaxHandler.IgnoresOffsets (handler : SaxHandler) : Prop :=
  ∀ left right : List Event, left.map Event.withoutOffsets = right.map Event.withoutOffsets →
    handler.respond left = handler.respond right

/-- The error handler, if there is one, does not look at byte offsets. -/
def ParserOptions.IgnoresOffsets (options : ParserOptions) : Prop :=
  ∀ handle, options.recoverableErrorHandler = some handle →
    ∀ left right : List XmlParseException,
      left.map XmlParseException.withoutOffset = right.map XmlParseException.withoutOffset →
        handle left = handle right

/-- Two runs make the same calls and end in the same way, up to byte offsets. -/
structure SameRun (left right : Outcome) : Prop where
  events : left.2.events.map Event.withoutOffsets = right.2.events.map Event.withoutOffsets
  reported : left.2.reported.map XmlParseException.withoutOffset =
    right.2.reported.map XmlParseException.withoutOffset
  outcome : left.1.mapError Halt.withoutOffset = right.1.mapError Halt.withoutOffset

/-! ## Documents with a byte order mark -/

inductive Form where
  | utf8
  | utf16 (littleEndian : Bool)

namespace Form

def mark : Form → Bytes
  | utf8 => [0xEF, 0xBB, 0xBF]
  | utf16 true => [0xFF, 0xFE]
  | utf16 false => [0xFE, 0xFF]

def unit : Form → Nat → Bytes
  | utf8 => utf8Unit
  | utf16 littleEndian => utf16Unit littleEndian

/-- The document of a text in this encoding, with its byte order mark. -/
def document (form : Form) (text : List Nat) : Bytes := form.mark ++ encode form.unit text

theorem encodingOf_document (form : Form) (text : List Nat) :
    encodingOf (form.document text) = (form.mark, form.unit) := by
  have starts : form.mark.isPrefixOf (form.document text) = true :=
    List.isPrefixOf_iff_prefix.mpr (List.prefix_append _ _)
  unfold encodingOf
  cases form with
  | utf8 => exact if_pos starts
  | utf16 littleEndian =>
      cases littleEndian with
      | true => exact (if_neg Bool.false_ne_true).trans (if_pos starts)
      | false =>
          exact (if_neg Bool.false_ne_true).trans ((if_neg Bool.false_ne_true).trans (if_pos starts))

theorem document_nonempty (form : Form) (text : List Nat) : (form.document text).isEmpty = false := by
  cases form with
  | utf8 => rfl
  | utf16 littleEndian =>
      cases littleEndian with
      | true => rfl
      | false => rfl

/-- Decoding a document whose size is admitted. -/
theorem decodeDocument_document (form : Form) (text : List Nat) (options : ParserOptions)
    (admits : (form.document text).length ≤ options.maxDocumentBytes) :
    ∃ loop, Decodes options.version form.unit loop ∧
      decodeDocument (form.document text) options =
        (loop (encode form.unit text) form.mark.length {} >>= fun decoded =>
          requireChars ⟨decoded.1, decoded.2.current (form.document text).length⟩
            ⟨1, 1, form.mark.length⟩) := by
  obtain ⟨loop, decodes, decoded⟩ := decodeDocument_eq (form.document text) options
  rw [document_nonempty, if_neg Bool.false_ne_true, if_neg (Nat.not_lt.mpr admits),
    encodingOf_document] at decoded
  rw [encodingOf_document] at decodes
  refine ⟨loop, decodes, ?_⟩
  rw [decoded]
  dsimp only
  rw [document, List.drop_left]

end Form

/-- A sequence of scalar values is legal up to its end or to the first illegal one. -/
theorem legal_split (version : XmlVersion) (text : List Nat) :
    ∃ front rest, text = front ++ rest ∧ Legal version front ∧
      (rest = [] ∨ ∃ value more, rest = value :: more ∧ isValidXmlChar value version = false) := by
  induction text with
  | nil => exact ⟨[], [], rfl, Legal.nil version, .inl rfl⟩
  | cons value text ih =>
      cases valid : isValidXmlChar value version with
      | false => exact ⟨[], value :: text, rfl, Legal.nil version, .inr ⟨value, text, rfl, valid⟩⟩
      | true =>
          obtain ⟨front, rest, rfl, legal, ended⟩ := ih
          exact ⟨value :: front, rest, rfl, legal_cons.mpr ⟨valid, legal⟩, ended⟩

/-- Locations are the same when they agree on the line and the column. -/
def regardless : Setting where
  same left right := left.withoutOffset = right.withoutOffset
  stops _ _ := False
  validates := True
  passes _ _ := True
  refl _ _ := rfl

/-- Two results of decoding agree up to byte offsets. -/
inductive SameDecoding : Except XmlParseException DecodedDocument →
    Except XmlParseException DecodedDocument → Prop where
  | decoded {left right : DecodedDocument} (chars : regardless.SameText left.chars right.chars)
      (ends : regardless.same left.endLocation right.endLocation) :
      SameDecoding (.ok left) (.ok right)
  | refused {left right : XmlParseException} (errors : left.withoutOffset = right.withoutOffset) :
      SameDecoding (.error left) (.error right)

theorem sameText_located (first second : Nat → Bytes) (text : List Nat) (offset other : Nat)
    (tracker : LocationTracker) :
    regardless.SameText (located first offset tracker text) (located second other tracker text) := by
  induction text generalizing offset other tracker with
  | nil => exact .nil
  | cons value text ih => exact .cons ⟨rfl, rfl⟩ (ih _ _ _)

theorem decodeDocument_same (text : List Nat) (scalars : ∀ value ∈ text, Scalar value)
    (options : ParserOptions) (first second : Form)
    (admitsFirst : (first.document text).length ≤ options.maxDocumentBytes)
    (admitsSecond : (second.document text).length ≤ options.maxDocumentBytes) :
    SameDecoding (decodeDocument (first.document text) options)
      (decodeDocument (second.document text) options) := by
  obtain ⟨loop, decodes, decoded⟩ := first.decodeDocument_document text options admitsFirst
  obtain ⟨other, decodesOther, decodedOther⟩ := second.decodeDocument_document text options admitsSecond
  obtain ⟨front, rest, rfl, legal, ended⟩ := legal_split options.version text
  rw [encode_append, decodes.encoded legal] at decoded
  rw [encode_append, decodesOther.encoded legal] at decodedOther
  rw [decoded, decodedOther]
  cases ended with
  | inl whole =>
      subst whole
      rw [encode_nil, encode_nil, decodes.ended, decodesOther.ended]
      have chars := sameText_located first.unit second.unit front first.mark.length second.mark.length {}
      rw [← List.append_nil (located first.unit _ _ _), ← List.append_nil (located second.unit _ _ _)] at chars
      cases front with
      | nil => exact .refused rfl
      | cons value front => exact .decoded chars rfl
  | inr illegal =>
      obtain ⟨value, more, rfl, invalid⟩ := illegal
      have scalar := scalars value (List.mem_append_right _ List.mem_cons_self)
      have isInvalid : ¬ isValidXmlChar value options.version = true := by
        rw [invalid]
        exact Bool.false_ne_true
      rw [encode_cons, encode_cons, decodes.step value scalar, decodesOther.step value scalar,
        decodedValue, decodedValue, if_neg isInvalid, if_neg isInvalid]
      exact .refused rfl

/-! ## Runs -/

theorem map_eq_of_forall₂ {α β : Type} {same : α → α → Prop} {view : α → β} {left right : List α}
    (views : ∀ first second, same first second → view first = view second)
    (sames : List.Forall₂ same left right) : left.map view = right.map view := by
  induction sames with
  | nil => rfl
  | cons first _ ih => rw [List.map_cons, List.map_cons, views _ _ first, ih]

theorem sameEvent_regardless {left right : Event} (same : regardless.SameEvent left right) :
    left.withoutOffsets = right.withoutOffsets := by
  cases same with
  | startElement name views =>
      refine congrArg (Event.startElement name) (map_eq_of_forall₂ ?_ views)
      intro first second same
      unfold AttributeView.withoutOffset
      rw [same.name, same.value, same.location]
  | plain event _ => rfl

theorem sameError_regardless {left right : XmlParseException}
    (same : regardless.SameError left right) : left.withoutOffset = right.withoutOffset := by
  unfold XmlParseException.withoutOffset
  rw [same.kind, same.message, same.location]

theorem Setting.Paired.sameRun {s t : ParserState} (paired : regardless.Paired s t)
    {left right : Except Halt Unit} (outcome : left.mapError Halt.withoutOffset = right.mapError Halt.withoutOffset) :
    SameRun (left, s) (right, t) :=
  ⟨map_eq_of_forall₂ (fun _ _ => sameEvent_regardless) paired.events,
    map_eq_of_forall₂ (fun _ _ => sameError_regardless) (paired.reported trivial), outcome⟩

theorem sameRun_of_ends {left right : Outcome}
    (ended : Ends (Setting.compareStates regardless) (· = ·) left right) : SameRun left right := by
  cases ended with
  | returned values states => exact states.sameRun rfl
  | threw errors states =>
      refine states.sameRun ?_
      cases errors with
      | raised errors =>
          have same := sameError_regardless errors
          exact congrArg (fun error => Except.error (Halt.thrown (.xmlParse error))) same
      | broken notThrown => rfl
      | excused hidden _ => exact absurd trivial hidden
  | passed _ states => exact states.sameRun rfl
  | stopped early => exact early.1.elim
  | parted gone => exact absurd trivial gone.1

theorem alike_regardless {handler : SaxHandler} {options : ParserOptions}
    (blind : handler.IgnoresOffsets) (blindOptions : options.IgnoresOffsets)
    {here there : SourceLocation} (ends : regardless.same here there) :
    regardless.Alike ⟨handler, options, here⟩ ⟨handler, options, there⟩ where
  version := rfl
  namespaces := rfl
  allowExternalDtd := rfl
  externalDtdResolver := rfl
  passes _ _ _ := trivial
  maxDepth := .inl rfl
  maxTokenBytes := .inl rfl
  maxAttributesPerElement := .inl rfl
  maxEntityExpansions := .inl rfl
  maxDtdDeclarations := .inl rfl
  maxEntityReplacementBytes := .inl rfl
  maxExternalSubsetBytes := .inl rfl
  endLocation := ends
  handler left right same := by
    have responds := blind left right (map_eq_of_forall₂ (fun _ _ => sameEvent_regardless) same)
    exact .inl responds
  reports := by
    refine .inl ⟨trivial, rfl, ?_⟩
    cases configured : options.recoverableErrorHandler with
    | none => exact .inl ⟨rfl, rfl⟩
    | some handle =>
        refine .inr ⟨handle, handle, rfl, rfl, fun left right same => ?_⟩
        exact blindOptions handle configured left right
          (map_eq_of_forall₂ (fun _ _ => sameError_regardless) same)

/-- A text is parsed in the same way in each of the three encodings, up to byte
offsets, by callbacks that do not look at these. -/
theorem parse_encodingIndependent (text : List Nat) (scalars : ∀ value ∈ text, Scalar value)
    (options : ParserOptions) (handler : SaxHandler) (blind : handler.IgnoresOffsets)
    (blindOptions : options.IgnoresOffsets)
    (admits : ∀ form : Form, (form.document text).length ≤ options.maxDocumentBytes)
    (first second : Form) :
    SameRun (parseXmlDocument (first.document text) handler options)
      (parseXmlDocument (second.document text) handler options) := by
  have decoded := decodeDocument_same text scalars options first second (admits first) (admits second)
  unfold parseXmlDocument
  cases decodedFirst : decodeDocument (first.document text) options with
  | error error =>
      rw [decodedFirst] at decoded
      cases decodedSecond : decodeDocument (second.document text) options with
      | error other =>
          rw [decodedSecond] at decoded
          cases decoded with
          | refused errors =>
              refine ⟨rfl, rfl, ?_⟩
              exact congrArg (fun error => Except.error (Halt.thrown (.xmlParse error))) errors
      | ok document =>
          rw [decodedSecond] at decoded
          cases decoded
  | ok document =>
      rw [decodedFirst] at decoded
      cases decodedSecond : decodeDocument (second.document text) options with
      | error other =>
          rw [decodedSecond] at decoded
          cases decoded
      | ok other =>
          rw [decodedSecond] at decoded
          cases decoded with
          | decoded chars ends =>
              have alike := alike_regardless blind blindOptions ends
              have start : regardless.Paired { rest := document.chars } { rest := other.chars } :=
                ⟨chars, rfl, rfl, rfl, rfl, rfl, rfl, .nil, fun _ => .nil⟩
              exact sameRun_of_ends (alike.parse.ends _ _ start)

theorem recording_ignoresOffsets : SaxHandler.recording.IgnoresOffsets := fun _ _ _ => rfl

theorem parse_encodingIndependent_sample :
    SameRun (parseXmlDocument (Form.utf8.document [0x3C, 0x61, 0x3E, 0x1F600, 0x3C, 0x62]) .recording {})
      (parseXmlDocument ((Form.utf16 true).document [0x3C, 0x61, 0x3E, 0x1F600, 0x3C, 0x62])
        .recording {}) := by
  refine parse_encodingIndependent _ (by decide) {} .recording recording_ignoresOffsets nofun ?_ _ _
  intro form
  cases form with
  | utf8 => decide
  | utf16 littleEndian =>
      cases littleEndian with
      | true => decide
      | false => decide

/-- An error handler that gives up far behind the beginning of the document. -/
def givesUpFarBehind : ParserOptions where
  validation := .dtd
  recoverableErrorHandler := some fun reported =>
    if reported.any (fun error => 20 < error.location.byteOffset) then some (.foreign 0) else none

/-- An error handler may decide by the byte offset. -/
theorem not_parse_encodingIndependent :
    ¬ ∀ (text : List Nat) (options : ParserOptions) (handler : SaxHandler) (first second : Form),
      (∀ value ∈ text, Scalar value) →
      (∀ form : Form, (form.document text).length ≤ options.maxDocumentBytes) →
      SameRun (parseXmlDocument (first.document text) handler options)
        (parseXmlDocument (second.document text) handler options) := by
  intro always
  have same := always (u32 "<!DOCTYPE b><a/>") givesUpFarBehind .recording .utf8 (.utf16 true)
    (by decide) ?_
  · have narrow : (parseXmlDocument (Form.utf8.document (u32 "<!DOCTYPE b><a/>")) .recording
        givesUpFarBehind).1 = .ok () := by decide +kernel
    have wide : (parseXmlDocument ((Form.utf16 true).document (u32 "<!DOCTYPE b><a/>")) .recording
        givesUpFarBehind).1 = .error (.thrown (.foreign 0)) := by decide +kernel
    have outcome := same.outcome
    rw [narrow, wide] at outcome
    cases outcome
  · intro form
    cases form with
    | utf8 => decide
    | utf16 littleEndian =>
        cases littleEndian with
        | true => decide
        | false => decide

end XmlParser
