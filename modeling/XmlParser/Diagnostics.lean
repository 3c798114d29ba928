import XmlParser.DecoderProperties
import XmlParser.Endings
import XmlParser.ExternalOptions
import XmlParser.Library.Throwing

/-! The errors that the library itself raises: every kind comes with texts that the
source spells out, none of which quotes the document. -/

set_option autoImplicit false

namespace XmlParser

open XmlParser.Computation Comp

abbrev Diagnosis := ErrorKind × String

def XmlParseException.diagnosis (error : XmlParseException) : Diagnosis := (error.kind, error.message)

/-! ## The texts of the source -/

/-- The errors of `decode_utf8`. -/
def utf8Diagnoses : List Diagnosis :=
  [(.encoding, "invalid UTF-8 sequence"),
    (.encoding, "truncated UTF-8 sequence"),
    (.encoding, "invalid UTF-8 continuation"),
    (.encoding, "invalid UTF-8 scalar value"),
    (.wellFormedness, "invalid XML character")]

/-- The errors of `decode_utf16`. -/
def utf16Diagnoses : List Diagnosis :=
  [(.encoding, "truncated UTF-16 code unit"),
    (.encoding, "truncated UTF-16 surrogate pair"),
    (.encoding, "invalid UTF-16 surrogate pair"),
    (.encoding, "unexpected UTF-16 trailing surrogate"),
    (.wellFormedness, "invalid XML character")]

/-- The descriptions that `expect` and `expect_sequence` are called with. -/
def expectations : List String :=
  ["XML declaration", "XML declaration close", "comment start", "comment close", "CDATA start", "CDATA close",
    "processing instruction start", "processing instruction close", "literal quote", "'&'",
    "';' after entity reference", "ELEMENT declaration", "ELEMENT declaration close", "ENTITY declaration",
    "ENTITY declaration close", "DOCTYPE declaration", "DOCTYPE internal subset close", "DOCTYPE close",
    "attribute quote", "'=' after attribute name", "end tag", "'<'", "'>'", "empty element close"]

def scannerDiagnoses : List Diagnosis :=
  [(.wellFormedness, "unexpected end of XML input"),
    (.resourceLimit, "XML token exceeds max_token_bytes"),
    (.wellFormedness, "expected XML name"),
    (.wellFormedness, "expected quoted literal"),
    (.wellFormedness, "invalid XML declaration"),
    (.wellFormedness, "XML declaration must declare version 1.0 or 1.1"),
    (.wellFormedness, "XML declaration version does not match ParserOptions"),
    (.wellFormedness, "truncated XML comment"),
    (.wellFormedness, "comment text cannot contain '--'"),
    (.wellFormedness, "truncated CDATA section"),
    (.wellFormedness, "XML declaration is only allowed at document start")]

def referenceDiagnoses : List Diagnosis :=
  [(.wellFormedness, "empty character reference"),
    (.wellFormedness, "invalid character reference"),
    (.wellFormedness, "character reference overflow"),
    (.wellFormedness, "character reference is not an XML character"),
    (.resourceLimit, "entity expansion count exceeds max_entity_expansions"),
    (.resourceLimit, "entity replacement exceeds max_entity_replacement_bytes"),
    (.validity, "undeclared entity reference"),
    (.validity, "truncated entity replacement")]

def declarationDiagnoses : List Diagnosis :=
  [(.resourceLimit, "DTD declaration count exceeds max_dtd_declarations"),
    (.resourceLimit, "entity replacement exceeds max_entity_replacement_bytes"),
    (.validity, "unsupported element declaration model"),
    (.validity, "duplicate element declaration"),
    (.validity, "duplicate entity declaration"),
    (.wellFormedness, "ELEMENT declaration requires whitespace"),
    (.wellFormedness, "ENTITY declaration requires whitespace"),
    (.wellFormedness, "parameter entities are not supported"),
    (.wellFormedness, "truncated DOCTYPE internal subset"),
    (.wellFormedness, "unsupported DTD declaration"),
    (.wellFormedness, "DOCTYPE requires whitespace after keyword")]

def elementDiagnoses : List Diagnosis :=
  [(.wellFormedness, "'<' is not allowed in attribute values"),
    (.wellFormedness, "expected quoted attribute value"),
    (.wellFormedness, "duplicate attribute name"),
    (.resourceLimit, "attribute count exceeds max_attributes_per_element"),
    (.wellFormedness, "mismatched end tag"),
    (.wellFormedness, "truncated XML element content"),
    (.wellFormedness, "expected element start tag"),
    (.resourceLimit, "XML element depth limit exceeded"),
    (.wellFormedness, "extra content after document element")]

def namespaceDiagnoses : List Diagnosis :=
  [(.wellFormedness, "invalid namespace-qualified name"),
    (.wellFormedness, "undeclared namespace prefix"),
    (.wellFormedness, "duplicate expanded attribute name")]

/-- The errors of an external subset that the resolver has returned. -/
def externalDiagnoses : List Diagnosis :=
  [(.resourceLimit, "external DTD subset exceeds max_external_subset_bytes"),
    (.validity, "truncated external element declaration"),
    (.validity, "invalid external element declaration"),
    (.validity, "unsupported external DTD declaration")]

/-- The errors that go to the recoverable error handler if there is one. -/
def recoverableDiagnoses : List Diagnosis :=
  [(.validity, "document element does not match DOCTYPE"),
    (.validity, "element has no DTD declaration"),
    (.validity, "EMPTY element has content"),
    (.validity, "PCDATA element has child elements"),
    (.validity, "element children do not match DTD model")]

/-- What `decode_document` can raise for these bytes. -/
inductive Undecodable (xml : Bytes) (options : ParserOptions) (diagnosis : Diagnosis) : Prop where
  | empty (blank : xml ∈ [[], [0xEF, 0xBB, 0xBF], [0xFF, 0xFE], [0xFE, 0xFF]])
      (spelled : diagnosis = (.emptyInput, "XML input is empty"))
  | tooLong (long : options.maxDocumentBytes < xml.length)
      (spelled : diagnosis = (.resourceLimit, "XML input exceeds max_document_bytes"))
  | utf8 (unmarked : ¬ ([0xFF, 0xFE] <+: xml ∨ [0xFE, 0xFF] <+: xml)) (listed : diagnosis ∈ utf8Diagnoses)
  | utf16 (marked : [0xFF, 0xFE] <+: xml ∨ [0xFE, 0xFF] <+: xml) (listed : diagnosis ∈ utf16Diagnoses)

/-- The parse may call its resolver. -/
def ParserOptions.Resolves (options : ParserOptions) : Prop :=
  options.allowExternalDtd = true ∧ options.externalDtdResolver.isSome = true

theorem resolves_iff {options : ParserOptions} (systemId : Bytes) :
    options.Resolves ↔ options.resolution systemId ≠ .disabled := by
  unfold ParserOptions.Resolves ParserOptions.resolution
  cases options.allowExternalDtd with
  | false => simp
  | true =>
      cases options.externalDtdResolver with
      | none => simp
      | some resolve =>
          cases answered : resolve systemId with
          | error exception => simp [answered]
          | ok subset =>
              by_cases long : subset.length > options.maxExternalSubsetBytes
              · simp [answered, long]
              · simp [answered, long]

/-- What a parse with these options can raise behind the decoder. -/
inductive Diagnosed (options : ParserOptions) (diagnosis : Diagnosis) : Prop where
  | expected {description : String} (listed : description ∈ expectations)
      (spelled : diagnosis = (.wellFormedness, "expected " ++ description))
  | scanner (listed : diagnosis ∈ scannerDiagnoses)
  | reference (listed : diagnosis ∈ referenceDiagnoses)
  | declaration (listed : diagnosis ∈ declarationDiagnoses)
  | element (listed : diagnosis ∈ elementDiagnoses)
  | namespaces (enabled : options.namespaces = .enabled) (listed : diagnosis ∈ namespaceDiagnoses)
  | unknownEntity (lax : options.validation ≠ .dtd)
      (spelled : diagnosis = (.wellFormedness, "unknown entity reference"))
  | unresolved (validates : options.validation = .dtd) (disabled : ¬ options.Resolves)
      (spelled : diagnosis = (.validity, "external DTD resolution is disabled"))
  | external (validates : options.validation = .dtd) (resolves : options.Resolves)
      (listed : diagnosis ∈ externalDiagnoses)
  | recoverable (validates : options.validation = .dtd) (unhandled : options.recoverableErrorHandler = none)
      (listed : diagnosis ∈ recoverableDiagnoses)

/-- Neither kind is raised by a parse. -/
theorem Diagnosed.kind {options : ParserOptions} {diagnosis : Diagnosis} (diagnosed : Diagnosed options diagnosis) :
    diagnosis.1 ≠ .unsupported ∧ diagnosis.1 ≠ .io := by
  have all : ∀ group ∈ [scannerDiagnoses, referenceDiagnoses, declarationDiagnoses, elementDiagnoses,
      namespaceDiagnoses, externalDiagnoses, recoverableDiagnoses], ∀ listed ∈ group,
      listed.1 ≠ .unsupported ∧ listed.1 ≠ .io := by decide
  cases diagnosed with
  | expected _ spelled => simp [spelled]
  | unknownEntity _ spelled => simp [spelled]
  | unresolved _ _ spelled => simp [spelled]
  | scanner listed => exact all _ (by simp) _ listed
  | reference listed => exact all _ (by simp) _ listed
  | declaration listed => exact all _ (by simp) _ listed
  | element listed => exact all _ (by simp) _ listed
  | namespaces _ listed => exact all _ (by simp) _ listed
  | external _ _ listed => exact all _ (by simp) _ listed
  | recoverable _ _ listed => exact all _ (by simp) _ listed

/-! ## The decoders -/

/-- An error of a loop over the bytes is one of the sequence that it has come to. -/
theorem ReadsBy.error {version : XmlVersion}
    {next : SourceLocation → UInt8 → Bytes → Except XmlParseException (Nat × Nat)}
    {whole : Bytes → Nat → LocationTracker → Except XmlParseException (List DecodedChar × LocationTracker)}
    (readsBy : ReadsBy version next whole) {bytes : Bytes} {offset : Nat} {tracker : LocationTracker}
    {error : XmlParseException} (refused : whole bytes offset tracker = .error error) :
    ∃ location byte rest, next location byte rest = .error error := by
  generalize size : bytes.length = length
  induction length using Nat.strongRecOn generalizing bytes offset tracker with
  | ind length ih =>
      cases bytes with
      | nil =>
          rw [readsBy.nil] at refused
          cases refused
      | cons byte rest =>
          rw [readsBy.cons] at refused
          cases read : next (tracker.current offset) byte rest with
          | error other =>
              rw [read] at refused
              cases refused
              exact ⟨_, _, _, read⟩
          | ok decided =>
              have wide := (readsBy.sound read).1
              rw [read] at refused
              change pushChar _ _ (whole _ _ _) = _ at refused
              cases behind : whole ((byte :: rest).drop decided.2) (offset + decided.2)
                  (tracker.advance decided.1) with
              | ok others =>
                  rw [behind] at refused
                  cases refused
              | error other =>
                  rw [behind] at refused
                  cases refused
                  refine ih _ ?_ behind rfl
                  rw [List.length_drop, ← size, List.length_cons]
                  omega

/-- Only the end of the bytes is read as no characters. -/
theorem ReadsBy.nil_of_chars {version : XmlVersion}
    {next : SourceLocation → UInt8 → Bytes → Except XmlParseException (Nat × Nat)}
    {whole : Bytes → Nat → LocationTracker → Except XmlParseException (List DecodedChar × LocationTracker)}
    (readsBy : ReadsBy version next whole) {bytes : Bytes} {offset : Nat} {tracker final : LocationTracker}
    (read : whole bytes offset tracker = .ok ([], final)) : bytes = [] := by
  cases bytes with
  | nil => rfl
  | cons byte rest =>
      rw [readsBy.cons] at read
      obtain ⟨decided, _, pushed⟩ := except_bind_eq_ok.mp read
      obtain ⟨_, _, filled⟩ := pushChar_eq_ok.mp pushed
      cases filled

theorem except_bind_eq_error {ε α β : Type} {source : Except ε α} {continuation : α → Except ε β} {error : ε} :
    (source >>= continuation) = .error error ↔
      source = .error error ∨ ∃ value, source = .ok value ∧ continuation value = .error error := by
  cases source with
  | error other => simp [bind, Except.bind]
  | ok value => simp [bind, Except.bind]

/-- The errors that a decoder raises are listed. -/
def Lists (diagnoses : List Diagnosis) {α : Type} (source : Except XmlParseException α) : Prop :=
  ∀ error, source = .error error → error.diagnosis ∈ diagnoses

section Lists

variable {diagnoses : List Diagnosis} {α β : Type}

@[simp] theorem lists_ok (value : α) : Lists diagnoses (.ok value) := by
  intro error refused
  cases refused

theorem lists_throwParse {kind : ErrorKind} {message : String} (location : SourceLocation)
    (listed : (kind, message) ∈ diagnoses) : Lists diagnoses (throwParse kind location message : Except _ α) := by
  intro error refused
  cases refused
  exact listed

theorem lists_bind {source : Except XmlParseException α} {continuation : α → Except XmlParseException β}
    (first : Lists diagnoses source) (second : ∀ value, Lists diagnoses (continuation value)) :
    Lists diagnoses (source >>= continuation) := by
  intro error refused
  rcases except_bind_eq_error.mp refused with early | ⟨value, _, late⟩
  · exact first error early
  · exact second value error late

theorem lists_ite {condition : Prop} [Decidable condition] {first second : Except XmlParseException α}
    (holds : Lists diagnoses first) (fails : Lists diagnoses second) :
    Lists diagnoses (if condition then first else second) := by
  split
  · exact holds
  · exact fails

end Lists

theorem lists_continueUtf8 (location : SourceLocation) (value : Nat) (bytes : Bytes) :
    Lists utf8Diagnoses (continueUtf8 location value bytes) := by
  induction bytes generalizing value with
  | nil => exact lists_ok value
  | cons byte bytes ih => exact lists_ite (lists_throwParse _ (by simp [utf8Diagnoses])) (ih _)

theorem lists_readUtf8 (version : XmlVersion) (location : SourceLocation) (leading : Nat) (continuations : Bytes) :
    Lists utf8Diagnoses (readUtf8 version location leading continuations) := by
  refine lists_bind (lists_continueUtf8 _ _ _) fun value => lists_bind ?_ fun _ => lists_ok value
  refine lists_ite (lists_throwParse _ (by simp [utf8Diagnoses])) ?_
  exact lists_ite (lists_throwParse _ (by simp [utf8Diagnoses])) (lists_ok ())

theorem lists_utf8At (version : XmlVersion) (location : SourceLocation) (byte : UInt8) (rest : Bytes) :
    Lists utf8Diagnoses (utf8At version location byte rest) := by
  have lead : Lists utf8Diagnoses (leadUtf8 location byte) := by
    have invalid : Lists utf8Diagnoses
        (throwParse .encoding location "invalid UTF-8 sequence" : Except _ (Nat × Nat)) :=
      lists_throwParse _ (by simp [utf8Diagnoses])
    refine lists_ite (lists_ok _) (lists_ite (lists_ite invalid (lists_ok _)) ?_)
    exact lists_ite (lists_ok _) (lists_ite (lists_ok _) invalid)
  refine lists_bind lead fun decided => ?_
  refine lists_ite (lists_throwParse _ (by simp [utf8Diagnoses])) ?_
  exact lists_bind (lists_readUtf8 _ _ _ _) fun _ => lists_ok _

theorem lists_utf16At (littleEndian : Bool) (version : XmlVersion) (location : SourceLocation) (first : UInt8)
    (rest : Bytes) : Lists utf16Diagnoses (utf16At littleEndian version location first rest) := by
  have checked : ∀ value width, Lists utf16Diagnoses (checkChar version location value width) := fun value width =>
    lists_ite (lists_throwParse _ (by simp [utf16Diagnoses])) (lists_ok _)
  rcases rest with _ | ⟨second, rest⟩
  · exact lists_throwParse _ (by simp [utf16Diagnoses])
  · refine lists_ite ?_ (lists_ite (lists_throwParse _ (by simp [utf16Diagnoses])) (checked _ _))
    rcases rest with _ | ⟨third, _ | ⟨fourth, rest⟩⟩
    · exact lists_throwParse _ (by simp [utf16Diagnoses])
    · exact lists_throwParse _ (by simp [utf16Diagnoses])
    · exact lists_ite (lists_throwParse _ (by simp [utf16Diagnoses])) (checked _ _)

/-- A branch of `decode_document`: an error of the decoder, or nothing to decode. -/
theorem ReadsBy.error_of_required {version : XmlVersion}
    {next : SourceLocation → UInt8 → Bytes → Except XmlParseException (Nat × Nat)}
    {whole : Bytes → Nat → LocationTracker → Except XmlParseException (List DecodedChar × LocationTracker)}
    (readsBy : ReadsBy version next whole) {diagnoses : List Diagnosis}
    (lists : ∀ location byte rest, Lists diagnoses (next location byte rest)) {bytes : Bytes} {offset : Nat}
    {tracker : LocationTracker} {size : Nat} {start : SourceLocation} {error : XmlParseException}
    (refused : ((whole bytes offset tracker >>= fun decoded => pure ⟨decoded.1, decoded.2.current size⟩) >>=
      fun document => requireChars document start) = .error error) :
    error.diagnosis ∈ diagnoses ∨ bytes = [] ∧ error.diagnosis = (.emptyInput, "XML input is empty") := by
  rcases except_bind_eq_error.mp refused with threw | ⟨document, decoded, required⟩
  · rcases except_bind_eq_error.mp threw with threw | ⟨_, _, impossible⟩
    · obtain ⟨location, byte, rest, read⟩ := readsBy.error threw
      exact .inl (lists location byte rest error read)
    · cases impossible
  · obtain ⟨⟨chars, final⟩, read, same⟩ := except_bind_eq_ok.mp decoded
    cases same
    unfold requireChars at required
    split at required
    · rename_i blank
      cases required
      obtain rfl : chars = [] := List.isEmpty_iff.mp blank
      exact .inr ⟨readsBy.nil_of_chars read, rfl⟩
    · cases required

/-- Nothing follows the mark. -/
theorem undecodable_bare {xml mark : Bytes} {options : ParserOptions} {diagnosis : Diagnosis}
    (listed : mark ∈ [[], [0xEF, 0xBB, 0xBF], [0xFF, 0xFE], [0xFE, 0xFF]]) (isMark : mark.isPrefixOf xml = true)
    (nothing : xml.drop mark.length = []) (spelled : diagnosis = (.emptyInput, "XML input is empty")) :
    Undecodable xml options diagnosis := by
  obtain ⟨rest, rfl⟩ := List.isPrefixOf_iff_prefix.mp isMark
  rw [List.drop_left] at nothing
  rw [nothing, List.append_nil]
  exact .empty listed spelled

theorem decodeUtf8_error {xml : Bytes} {skipped : Nat} {options : ParserOptions} {start : SourceLocation}
    {error : XmlParseException}
    (refused : (decodeUtf8 xml skipped options >>= fun document => requireChars document start) = .error error) :
    error.diagnosis ∈ utf8Diagnoses ∨
      xml.drop skipped = [] ∧ error.diagnosis = (.emptyInput, "XML input is empty") :=
  @ReadsBy.error_of_required _ _ _ (utf8Loop_readsBy options.version) _ (lists_utf8At options.version)
    (xml.drop skipped) skipped {} xml.length _ error refused

theorem decodeUtf16_error {xml : Bytes} {littleEndian : Bool} {options : ParserOptions} {start : SourceLocation}
    {error : XmlParseException}
    (refused : (decodeUtf16 xml littleEndian options >>= fun document => requireChars document start) =
      .error error) :
    error.diagnosis ∈ utf16Diagnoses ∨
      xml.drop 2 = [] ∧ error.diagnosis = (.emptyInput, "XML input is empty") :=
  @ReadsBy.error_of_required _ _ _ (utf16Loop_readsBy littleEndian options.version) _
    (lists_utf16At littleEndian options.version) (xml.drop 2) 2 {} xml.length _ error refused

theorem undecodable_of_error {xml : Bytes} {options : ParserOptions} {error : XmlParseException}
    (refused : decodeDocument xml options = .error error) : Undecodable xml options error.diagnosis := by
  unfold decodeDocument at refused
  split at refused
  · rename_i blank
    cases refused
    exact .empty (by simp [List.isEmpty_iff.mp blank]) rfl
  split at refused
  · rename_i long
    cases refused
    exact .tooLong long rfl
  split at refused
  · rename_i isMark
    rcases decodeUtf8_error refused with listed | ⟨nothing, spelled⟩
    · refine .utf8 ?_ listed
      obtain ⟨rest, rfl⟩ := List.isPrefixOf_iff_prefix.mp isMark
      simp
    · exact undecodable_bare (by simp) isMark nothing spelled
  split at refused
  · rename_i isMark
    rcases decodeUtf16_error refused with listed | ⟨nothing, spelled⟩
    · exact .utf16 (.inl (List.isPrefixOf_iff_prefix.mp isMark)) listed
    · exact undecodable_bare (by simp) isMark nothing spelled
  split at refused
  · rename_i isMark
    rcases decodeUtf16_error refused with listed | ⟨nothing, spelled⟩
    · exact .utf16 (.inr (List.isPrefixOf_iff_prefix.mp isMark)) listed
    · exact undecodable_bare (by simp) isMark nothing spelled
  · rename_i little big
    rcases decodeUtf8_error refused with listed | ⟨nothing, spelled⟩
    · refine .utf8 ?_ listed
      rw [← List.isPrefixOf_iff_prefix, ← List.isPrefixOf_iff_prefix, not_or]
      exact ⟨little, big⟩
    · exact @undecodable_bare xml [] _ _ (by simp) rfl nothing spelled

/-! ## Below the elements -/

/-- What the members throw, callbacks apart. The two bounds of the model are excluded later. -/
inductive Parser.Faults (p : Parser) : Halt → Prop where
  | diagnosed {kind : ErrorKind} (location : SourceLocation) {message : String}
      (diagnosed : Diagnosed p.options (kind, message)) : Faults p (.thrown (.xmlParse ⟨kind, location, message⟩))
  | outOfFuel : Faults p .outOfFuel
  | undefinedBehavior : Faults p .undefinedBehavior

namespace Parser

variable {p : Parser}

theorem faults_failAt {σ α : Type} {kind : ErrorKind} {message : String}
    (diagnosed : Diagnosed p.options (kind, message)) (location : SourceLocation) :
    Throws p.Faults (failAt kind location message : Comp σ Halt α) :=
  throws_throw (.diagnosed location diagnosed)

theorem faults_fail {α : Type} {kind : ErrorKind} {message : String}
    (diagnosed : Diagnosed p.options (kind, message)) : Throws p.Faults (p.fail kind message : Cursor α) :=
  throws_read_bind fun location => faults_failAt diagnosed location

theorem faults_failHere {α : Type} {kind : ErrorKind} {message : String}
    (diagnosed : Diagnosed p.options (kind, message)) : Throws p.Faults (p.failHere kind message : ParserM α) :=
  throws_read_bind fun location => faults_failAt diagnosed location

theorem faults_advance : Throws p.Faults p.advance :=
  throws_read_bind fun _ =>
    throws_ite (fun _ => faults_fail (.scanner (by simp [scannerDiagnoses]))) fun _ => throws_modify _

theorem faults_expect {description : String} (listed : description ∈ expectations) (value : Nat) :
    Throws p.Faults (p.expect value description) :=
  throws_read_bind fun _ => throws_ite (fun _ => faults_fail (.expected listed rfl)) fun _ => faults_advance

theorem faults_expectSequence {description : String} (listed : description ∈ expectations) (text : List Nat) :
    Throws p.Faults (p.expectSequence text description) :=
  throws_read_bind fun _ => throws_ite (fun _ => faults_fail (.expected listed rfl)) fun _ => throws_modify _

theorem faults_enforceTokenSize {σ : Type} (size : Nat) (start : SourceLocation) :
    Throws p.Faults (p.enforceTokenSize size start : Comp σ Halt Unit) :=
  throws_ite (fun _ => faults_failAt (.scanner (by simp [scannerDiagnoses])) _) fun _ => throws_pure ()

theorem faults_appendPeek (start : SourceLocation) (text : Bytes) : Throws p.Faults (p.appendPeek start text) :=
  throws_read_bind fun _ => throws_bind (faults_enforceTokenSize _ _) fun _ =>
    throws_bind faults_advance fun _ => throws_pure _

theorem faults_pushPeek (start : SourceLocation) (buffer : List Nat) :
    Throws p.Faults (p.pushPeek start buffer) :=
  throws_read_bind fun _ => throws_bind (faults_enforceTokenSize _ _) fun _ =>
    throws_bind faults_advance fun _ => throws_pure _

theorem faults_takePeek (text : Bytes) : Throws p.Faults (p.takePeek text) :=
  throws_read_bind fun _ => throws_bind faults_advance fun _ => throws_pure _

theorem faults_while {β : Type} {condition : List DecodedChar → Bool} {body : β → Cursor β}
    (round : ∀ current, Throws p.Faults (body current)) (start : β) :
    Throws p.Faults (whileLoop List.length .outOfFuel condition body start) :=
  throws_whileLoop .outOfFuel round start

theorem faults_skipWhitespace : Throws p.Faults p.skipWhitespace := faults_while (fun _ => faults_advance) ()

theorem faults_parseName : Throws p.Faults p.parseName := by
  refine throws_read_bind fun start => throws_read_bind fun next => throws_ite (fun _ => ?_) fun _ => ?_
  · exact faults_fail (.scanner (by simp [scannerDiagnoses]))
  · exact throws_bind (faults_while (faults_pushPeek start) []) fun _ => throws_pure _

theorem faults_parseQuotedLiteral : Throws p.Faults p.parseQuotedLiteral := by
  refine throws_read_bind fun quote => throws_ite (fun _ => ?_) fun _ => ?_
  · exact faults_fail (.scanner (by simp [scannerDiagnoses]))
  · refine throws_bind faults_advance fun _ => throws_bind (faults_while faults_takePeek []) fun _ => ?_
    exact throws_bind (faults_expect (by simp [expectations]) _) fun _ => throws_pure _

theorem faults_parseXmlDeclarationIfPresent : Throws p.Faults p.parseXmlDeclarationIfPresent := by
  have listed : ∀ message : String, (ErrorKind.wellFormedness, message) ∈ scannerDiagnoses → ∀ start,
      Throws p.Faults (failAt .wellFormedness start message : Cursor Unit) :=
    fun _ listed start => faults_failAt (.scanner listed) start
  refine throws_read_bind fun _ => throws_read_bind fun _ => throws_ite (fun _ => throws_pure ()) fun _ => ?_
  refine throws_read_bind fun start => ?_
  refine throws_bind (faults_expectSequence (by simp [expectations]) _) fun _ => throws_read_bind fun _ => ?_
  refine throws_ite (fun _ => faults_fail (.scanner (by simp [scannerDiagnoses]))) fun _ => ?_
  refine throws_bind (faults_while (faults_appendPeek start) []) fun _ => ?_
  refine throws_bind (faults_expectSequence (by simp [expectations]) _) fun _ => ?_
  refine throws_ite (fun _ => listed _ (by simp [scannerDiagnoses]) _) fun _ => ?_
  exact throws_ite (fun _ => listed _ (by simp [scannerDiagnoses]) _) fun _ => throws_pure ()

theorem faults_scanComment : Throws p.Faults p.scanComment := by
  refine throws_read_bind fun start => ?_
  refine throws_bind (faults_expectSequence (by simp [expectations]) _) fun _ => ?_
  refine throws_loop .outOfFuel (fun text => ?_) []
  refine throws_read_bind fun _ => throws_ite (fun _ => ?_) fun _ => ?_
  · exact faults_failAt (.scanner (by simp [scannerDiagnoses])) _
  refine throws_read_bind fun _ => throws_ite (fun _ => ?_) fun _ => ?_
  · exact throws_bind (faults_expectSequence (by simp [expectations]) _) fun _ => throws_pure _
  refine throws_read_bind fun _ => throws_ite (fun _ => ?_) fun _ => ?_
  · exact faults_fail (.scanner (by simp [scannerDiagnoses]))
  · exact throws_bind (faults_appendPeek start text) fun _ => throws_pure _

theorem faults_scanCdata : Throws p.Faults p.scanCdata := by
  refine throws_read_bind fun start => ?_
  refine throws_bind (faults_expectSequence (by simp [expectations]) _) fun _ => ?_
  refine throws_loop .outOfFuel (fun text => ?_) []
  refine throws_read_bind fun _ => throws_ite (fun _ => ?_) fun _ => ?_
  · exact faults_failAt (.scanner (by simp [scannerDiagnoses])) _
  refine throws_read_bind fun _ => throws_ite (fun _ => ?_) fun _ => ?_
  · exact throws_bind (faults_expectSequence (by simp [expectations]) _) fun _ => throws_pure _
  · exact throws_bind (faults_appendPeek start text) fun _ => throws_pure _

theorem faults_scanProcessingInstruction : Throws p.Faults p.scanProcessingInstruction := by
  refine throws_read_bind fun start => ?_
  refine throws_bind (faults_expectSequence (by simp [expectations]) _) fun _ => ?_
  refine throws_bind faults_parseName fun target => throws_ite (fun _ => ?_) fun _ => ?_
  · exact faults_failAt (.scanner (by simp [scannerDiagnoses])) _
  · refine throws_bind faults_skipWhitespace fun _ => ?_
    refine throws_bind (faults_while (faults_appendPeek start) []) fun _ => ?_
    exact throws_bind (faults_expectSequence (by simp [expectations]) _) fun _ => throws_pure _

/-! ### References -/

theorem accumulateDigits_message {base : Nat} {digits : Bytes} {value : Nat} {message : String}
    (refused : accumulateDigits base digits value = .error message) :
    message = "invalid character reference" ∨ message = "character reference overflow" := by
  induction digits generalizing value with
  | nil => cases refused
  | cons ch rest ih =>
      unfold accumulateDigits at refused
      split at refused
      · cases refused
        exact .inl rfl
      split at refused
      · cases refused
        exact .inl rfl
      split at refused
      · cases refused
        exact .inr rfl
      · exact ih refused

theorem faults_parseCharacterReference {σ : Type} (text : Bytes) (start : SourceLocation) :
    Throws p.Faults (p.parseCharacterReference text start : Comp σ Halt Bytes) := by
  refine throws_ite (fun _ => faults_failAt (.reference (by simp [referenceDiagnoses])) _) fun _ => ?_
  cases digits : accumulateDigits (if isHexadecimal text then 16 else 10)
      (text.drop (if isHexadecimal text then 2 else 1)) 0 with
  | error message =>
      rcases accumulateDigits_message digits with rfl | rfl
      · exact faults_failAt (.reference (by simp [referenceDiagnoses])) _
      · exact faults_failAt (.reference (by simp [referenceDiagnoses])) _
  | ok value =>
      refine throws_ite (fun _ => ?_) fun _ => throws_pure _
      exact faults_failAt (.reference (by simp [referenceDiagnoses])) _

theorem faults_countExpansion (start : SourceLocation) : Throws p.Faults (p.countExpansion start) :=
  throws_bind (throws_modify _) fun _ => throws_read_bind fun _ =>
    throws_ite (fun _ => faults_failAt (.reference (by simp [referenceDiagnoses])) _) fun _ => throws_pure ()

theorem faults_expandRound {entities : List (Bytes × Bytes)} {start : SourceLocation}
    {nested : Bytes → Comp Nat Halt Bytes} (faults : ∀ text, Throws p.Faults (nested text))
    (current : Bytes × Bytes) : Throws p.Faults (p.expandRound entities start nested current) := by
  have reference : ∀ name, Throws p.Faults (p.expandReference entities start nested name) := by
    intro name
    unfold expandReference
    split
    · exact throws_pure _
    · refine throws_ite (fun _ => faults_parseCharacterReference _ _) fun _ => ?_
      split
      · exact faults_failAt (.reference (by simp [referenceDiagnoses])) _
      · exact faults _
  obtain ⟨text, expanded⟩ := current
  cases text with
  | nil => exact throws_pure _
  | cons ch rest =>
      refine throws_ite (fun _ => throws_pure _) fun _ => throws_ite (fun _ => ?_) fun _ => ?_
      · exact faults_failAt (.reference (by simp [referenceDiagnoses])) _
      · refine throws_bind (faults_countExpansion start) fun _ => throws_bind (reference _) fun value => ?_
        refine throws_ite (fun _ => ?_) fun _ => throws_pure _
        exact faults_failAt (.reference (by simp [referenceDiagnoses])) _

theorem faults_expandEntityText (entities : List (Bytes × Bytes)) (start : SourceLocation) (fuel depth : Nat)
    (text : Bytes) : Throws p.Faults (p.expandEntityText entities start fuel depth text) := by
  induction fuel generalizing depth text with
  | zero => exact throws_throw .outOfFuel
  | succ fuel ih =>
      refine throws_ite (fun _ => faults_failAt (.reference (by simp [referenceDiagnoses])) _) fun _ => ?_
      exact throws_loop .outOfFuel (faults_expandRound (ih (depth + 1))) _

theorem faults_resolveReference (entities : List (Bytes × Bytes)) (name : Bytes) (start : SourceLocation) :
    Throws p.Faults (p.resolveReference entities name start) := by
  unfold resolveReference
  split
  · exact throws_pure _
  · refine throws_ite (fun _ => faults_parseCharacterReference _ _) fun _ => ?_
    split
    · exact faults_expandEntityText _ _ _ _ _
    · refine throws_ite (fun _ => ?_) fun lax => ?_
      · exact faults_failAt (.reference (by simp [referenceDiagnoses])) _
      · exact faults_failAt (.unknownEntity lax rfl) _

theorem faults_parseReference : Throws p.Faults p.parseReference := by
  refine throws_read_bind fun start => ?_
  refine throws_bind (throws_onPart (faults_expect (by simp [expectations]) _)) fun _ => ?_
  refine throws_bind (throws_onPart (faults_countExpansion start)) fun _ => ?_
  refine throws_bind (throws_onPart (faults_while (faults_pushPeek start) [])) fun name => ?_
  refine throws_bind (throws_onPart (faults_expect (by simp [expectations]) _)) fun _ => ?_
  exact throws_read_bind fun entities => throws_onPart (faults_resolveReference entities (toAscii name) start)

theorem faults_takePiece (text : Bytes) : Throws p.Faults (p.takePiece text) := by
  refine throws_read_bind fun next => throws_ite (fun _ => ?_) fun _ => throws_onPart (faults_takePeek text)
  exact throws_bind faults_parseReference fun _ => throws_pure _

/-! ### Declarations -/

theorem faults_modifyDtd (update : DtdState → DtdState) : Throws p.Faults (modifyDtd update) := throws_modify _

theorem faults_enforceDtdDeclarationLimit : Throws p.Faults p.enforceDtdDeclarationLimit := by
  refine throws_bind (faults_modifyDtd _) fun _ => throws_read_bind fun _ => throws_ite (fun _ => ?_) fun _ => ?_
  · exact faults_failHere (.declaration (by simp [declarationDiagnoses]))
  · exact throws_pure ()

theorem faults_declareElement (name model : Bytes) (location : SourceLocation) :
    Throws p.Faults (declareElement name model location) := by
  refine throws_read_bind fun _ => throws_ite (fun _ => ?_) fun _ => throws_bind ?_ fun _ => faults_modifyDtd _
  · exact faults_failAt (.declaration (by simp [declarationDiagnoses])) _
  · refine throws_ite (fun _ => throws_pure _) fun _ => throws_ite (fun _ => throws_pure _) fun _ => ?_
    refine throws_ite (fun _ => throws_pure _) fun _ => throws_ite (fun _ => throws_pure _) fun _ => ?_
    exact faults_failAt (.declaration (by simp [declarationDiagnoses])) _

theorem faults_skip : Throws p.Faults (scan p.skipWhitespace) := throws_onPart faults_skipWhitespace

theorem faults_parseElementDeclaration : Throws p.Faults p.parseElementDeclaration := by
  refine throws_read_bind fun start => throws_bind faults_enforceDtdDeclarationLimit fun _ => ?_
  refine throws_bind (throws_onPart (faults_expectSequence (by simp [expectations]) _)) fun _ => ?_
  refine throws_read_bind fun _ => throws_ite (fun _ => ?_) fun _ => ?_
  · exact faults_failHere (.declaration (by simp [declarationDiagnoses]))
  · refine throws_bind faults_skip fun _ => throws_bind (throws_onPart faults_parseName) fun name => ?_
    refine throws_bind faults_skip fun _ => ?_
    refine throws_bind (throws_onPart (faults_while faults_takePeek [])) fun model => ?_
    refine throws_bind (throws_onPart (faults_expect (by simp [expectations]) _)) fun _ => ?_
    exact faults_declareElement name model start

theorem faults_enterEntity (name replacement : Bytes) (start : SourceLocation) :
    Throws p.Faults (p.enterEntity name replacement start) := by
  refine throws_ite (fun _ => faults_failAt (.declaration (by simp [declarationDiagnoses])) _) fun _ => ?_
  refine throws_bind faults_skip fun _ => ?_
  refine throws_bind (throws_onPart (faults_expect (by simp [expectations]) _)) fun _ => ?_
  refine throws_read_bind fun _ => throws_ite (fun _ => ?_) fun _ => faults_modifyDtd _
  exact faults_failAt (.declaration (by simp [declarationDiagnoses])) _

theorem faults_parseEntityDeclaration : Throws p.Faults p.parseEntityDeclaration := by
  refine throws_read_bind fun start => throws_bind faults_enforceDtdDeclarationLimit fun _ => ?_
  refine throws_bind (throws_onPart (faults_expectSequence (by simp [expectations]) _)) fun _ => ?_
  refine throws_read_bind fun _ => throws_ite (fun _ => ?_) fun _ => throws_bind faults_skip fun _ => ?_
  · exact faults_failHere (.declaration (by simp [declarationDiagnoses]))
  refine throws_read_bind fun _ => throws_ite (fun _ => ?_) fun _ => ?_
  · exact faults_failHere (.declaration (by simp [declarationDiagnoses]))
  · refine throws_bind (throws_onPart faults_parseName) fun name => throws_bind faults_skip fun _ => ?_
    exact throws_bind (throws_onPart faults_parseQuotedLiteral) fun _ => faults_enterEntity _ _ _

theorem faults_parseInternalSubset : Throws p.Faults p.parseInternalSubset := by
  have again : ∀ source : ParserM Unit, Throws p.Faults source →
      Throws p.Faults (source >>= fun _ => pure (.next ()) : ParserM (LoopStep Unit Unit)) :=
    fun _ faults => throws_bind faults fun _ => throws_pure _
  refine throws_loop .outOfFuel (fun _ => ?_) ()
  refine throws_read_bind fun _ => throws_ite (fun _ => ?_) fun _ => throws_bind faults_skip fun _ => ?_
  · exact faults_failHere (.declaration (by simp [declarationDiagnoses]))
  refine throws_read_bind fun _ => throws_ite (fun _ => throws_pure _) fun _ => ?_
  refine throws_read_bind fun _ => throws_ite (fun _ => ?_) fun _ => ?_
  · exact throws_bind (throws_onPart faults_scanComment) fun _ => throws_pure _
  refine throws_read_bind fun _ => throws_ite (fun _ => again _ faults_parseElementDeclaration) fun _ => ?_
  refine throws_read_bind fun _ => throws_ite (fun _ => again _ faults_parseEntityDeclaration) fun _ => ?_
  exact faults_failHere (.declaration (by simp [declarationDiagnoses]))

theorem faults_parseExternalSubsetText (validates : p.options.validation = .dtd) (resolves : p.options.Resolves)
    (subset : Bytes) :
    Throws p.Faults (p.parseExternalSubsetText subset) := by
  have listed : ∀ {α : Type} {message : String}, (ErrorKind.validity, message) ∈ externalDiagnoses →
      Throws p.Faults (p.failHere .validity message : ParserM α) :=
    fun listed => faults_failHere (.external validates resolves listed)
  have declaration : ∀ text, Throws p.Faults (p.parseExternalElementDeclaration text) := by
    intro text
    refine throws_bind faults_enforceDtdDeclarationLimit fun _ => throws_ite (fun _ => ?_) fun _ => ?_
    · exact listed (by simp [externalDiagnoses])
    · exact throws_read_bind fun location => faults_declareElement _ _ location
  refine throws_loop .outOfFuel (fun rest => ?_) subset
  refine throws_ite (fun _ => throws_pure _) fun _ => throws_ite (fun _ => throws_ite (fun _ => ?_) fun _ => ?_) fun _ => ?_
  · exact listed (by simp [externalDiagnoses])
  · exact throws_bind (declaration _) fun _ => throws_pure _
  · exact listed (by simp [externalDiagnoses])

/-- The part of a run in front of the external subset: whether there is a document type
declaration. -/
def readDoctypeIfPresent (p : Parser) : ParserM Bool := do
  if !(← look (startsWith (u32 "<!DOCTYPE"))) then
    pure false
  else
    modifyDtd fun dtd => { dtd with hasDoctype := true }
    scan (p.expectSequence (u32 "<!DOCTYPE") "DOCTYPE declaration")
    if !isSpace (← look peek) then
      p.failHere .wellFormedness "DOCTYPE requires whitespace after keyword"
    else
      scan p.skipWhitespace
      let rootName ← scan p.parseName
      modifyDtd fun dtd => { dtd with rootName }
      scan p.skipWhitespace
      p.parseExternalId
      p.parseBracketedSubset
      scan (p.expect 0x3E "DOCTYPE close")
      pure true

theorem parseDoctypeIfPresent_eq (p : Parser) : p.parseDoctypeIfPresent = p.readDoctypeIfPresent >>= fun present =>
    if present then p.resolveExternalSubsetIfNeeded else pure () := by
  unfold parseDoctypeIfPresent readDoctypeIfPresent
  rw [bind_assoc]
  refine congrArg _ (funext fun starts => ?_)
  cases starts with
  | false => rfl
  | true =>
      simp only [Bool.not_true, Bool.false_eq_true, if_false, bind_assoc]
      refine congrArg _ (funext fun _ => congrArg _ (funext fun _ => congrArg _ (funext fun next => ?_)))
      cases isSpace next with
      | false => rfl
      | true => simp

theorem faults_readDoctypeIfPresent : Throws p.Faults p.readDoctypeIfPresent := by
  have literal : Throws p.Faults (scan p.parseQuotedLiteral) := throws_onPart faults_parseQuotedLiteral
  have externalId : Throws p.Faults p.parseExternalId := by
    have entered : ∀ update, Throws p.Faults (modifyDtd update >>= fun _ => scan p.skipWhitespace) :=
      fun update => throws_bind (faults_modifyDtd update) fun _ => faults_skip
    refine throws_read_bind fun _ => throws_ite (fun _ => ?_) fun _ => ?_
    · refine throws_bind (throws_onPart (throws_modify _)) fun _ => throws_bind faults_skip fun _ => ?_
      exact throws_bind literal fun _ => entered _
    refine throws_read_bind fun _ => throws_ite (fun _ => ?_) fun _ => throws_pure ()
    refine throws_bind (throws_onPart (throws_modify _)) fun _ => throws_bind faults_skip fun _ => ?_
    refine throws_bind literal fun _ => throws_bind faults_skip fun _ => ?_
    exact throws_bind literal fun _ => entered _
  have bracketed : Throws p.Faults p.parseBracketedSubset := by
    refine throws_read_bind fun _ => throws_ite (fun _ => ?_) fun _ => throws_pure ()
    refine throws_bind (throws_onPart faults_advance) fun _ => throws_bind faults_parseInternalSubset fun _ => ?_
    exact throws_bind (throws_onPart (faults_expect (by simp [expectations]) _)) fun _ => faults_skip
  refine throws_read_bind fun _ => throws_ite (fun _ => throws_pure _) fun _ => ?_
  refine throws_bind (faults_modifyDtd _) fun _ => ?_
  refine throws_bind (throws_onPart (faults_expectSequence (by simp [expectations]) _)) fun _ => ?_
  refine throws_read_bind fun _ => throws_ite (fun _ => ?_) fun _ => throws_bind faults_skip fun _ => ?_
  · exact faults_failHere (.declaration (by simp [declarationDiagnoses]))
  refine throws_bind (throws_onPart faults_parseName) fun rootName => throws_bind (faults_modifyDtd _) fun _ => ?_
  refine throws_bind faults_skip fun _ => throws_bind externalId fun _ => throws_bind bracketed fun _ => ?_
  exact throws_bind (throws_onPart (faults_expect (by simp [expectations]) _)) fun _ => throws_pure _

/-- An error of the external subset is a listed one, or the resolver has thrown it when
it was asked for the identifier of the document. -/
theorem resolveExternalSubsetIfNeeded_error {s t : ParserState} {halt : Halt}
    (ran : p.resolveExternalSubsetIfNeeded.run s = (.error halt, t)) :
    p.Faults halt ∨ t = s ∧ Consults p.options s.dtd ∧ ∃ exception, halt = .thrown exception ∧
      p.options.resolution s.dtd.externalSystemId = .threw exception := by
  rw [resolveExternalSubsetIfNeeded_eq, run_read_bind] at ran
  split at ran
  · cases ran
  rename_i needed
  simp only [Bool.or_eq_true, not_or, bne_iff_ne, ne_eq, not_not, Bool.not_eq_true', Bool.not_eq_false] at needed
  have answered := @resolves_iff p.options s.dtd.externalSystemId
  cases resolution : p.options.resolution s.dtd.externalSystemId with
  | disabled =>
      rw [resolution] at ran answered
      have unresolved : ¬ p.options.Resolves := fun resolves => answered.mp resolves rfl
      have faults : Throws p.Faults (p.useResolution .disabled) := faults_failHere (.unresolved needed.2 unresolved rfl)
      exact .inl (faults _ _ _ ran)
  | threw exception =>
      rw [resolution] at ran
      cases ran
      exact .inr ⟨rfl, ⟨needed.2, needed.1⟩, exception, rfl, rfl⟩
  | tooLong =>
      rw [resolution] at ran answered
      have faults : Throws p.Faults (p.useResolution .tooLong) :=
        faults_failHere (.external needed.2 (answered.mpr nofun) (by simp [externalDiagnoses]))
      exact .inl (faults _ _ _ ran)
  | text subset =>
      rw [resolution] at ran answered
      exact .inl (faults_parseExternalSubsetText needed.2 (answered.mpr nofun) subset _ _ _ ran)

/-! ### Tags -/

theorem faults_parseAttributeValue : Throws p.Faults p.parseAttributeValue := by
  refine throws_read_bind fun start => throws_read_bind fun quote => throws_ite (fun _ => ?_) fun _ => ?_
  · exact faults_failHere (.element (by simp [elementDiagnoses]))
  refine throws_bind (throws_onPart faults_advance) fun _ => throws_loop .outOfFuel (fun value => ?_) []
  refine throws_read_bind fun _ => throws_read_bind fun _ => throws_ite (fun _ => ?_) fun _ => ?_
  · exact throws_bind (throws_onPart (faults_expect (by simp [expectations]) _)) fun _ => throws_pure _
  refine throws_read_bind fun _ => throws_ite (fun _ => ?_) fun _ => ?_
  · exact faults_failHere (.element (by simp [elementDiagnoses]))
  · exact throws_bind (faults_takePiece value) fun _ =>
      throws_bind (faults_enforceTokenSize _ _) fun _ => throws_pure _

theorem faults_parseAttributes : Throws p.Faults p.parseAttributes := by
  refine throws_loop .outOfFuel (fun attributes => throws_bind faults_skip fun _ => ?_) []
  refine throws_read_bind fun _ => throws_read_bind fun _ => throws_ite (fun _ => throws_pure _) fun _ => ?_
  refine throws_read_bind fun location => throws_bind (throws_onPart faults_parseName) fun name => ?_
  refine throws_ite (fun _ => faults_failHere (.element (by simp [elementDiagnoses]))) fun _ => ?_
  refine throws_ite (fun _ => faults_failHere (.element (by simp [elementDiagnoses]))) fun _ => ?_
  refine throws_bind faults_skip fun _ => ?_
  refine throws_bind (throws_onPart (faults_expect (by simp [expectations]) _)) fun _ => ?_
  refine throws_bind faults_skip fun _ => throws_bind faults_parseAttributeValue fun _ => throws_pure _

theorem faults_resolveName {σ : Type} (scopes : List NamespaceScope) (qname : Bytes) (isElement : Bool)
    (location : SourceLocation) :
    Throws p.Faults (p.resolveName scopes qname isElement location : Comp σ Halt QualifiedName) := by
  refine throws_ite (fun _ => throws_pure _) fun enabled => ?_
  have enabled : p.options.namespaces = .enabled := by
    cases mode : p.options.namespaces with
    | enabled => rfl
    | disabled => exact absurd mode enabled
  split
  · exact throws_pure _
  · refine throws_ite (fun _ => ?_) fun _ => throws_ite (fun _ => ?_) fun _ => throws_pure _
    · exact faults_failAt (.namespaces enabled (by simp [namespaceDiagnoses])) _
    · exact faults_failAt (.namespaces enabled (by simp [namespaceDiagnoses])) _

/-- Attributes of distinct names have distinct expanded names without namespaces. -/
theorem faults_attributeViews {σ : Type} (scopes : List NamespaceScope) {attributes : List RawAttribute}
    {seen : List (Bytes × Bytes)} (distinct : (attributes.map RawAttribute.name).Nodup)
    (unseen : p.options.namespaces = .disabled → ∀ raw ∈ attributes, ([], raw.name) ∉ seen) :
    Throws p.Faults (p.attributeViews scopes attributes seen : Comp σ Halt (List AttributeView)) := by
  induction attributes generalizing seen with
  | nil => exact throws_pure _
  | cons raw rest ih =>
      obtain ⟨new, distinctRest⟩ := List.nodup_cons.mp distinct
      have later : p.options.namespaces = .disabled → ∀ other ∈ rest, ([], other.name) ∉ seen :=
        fun disabled other member => unseen disabled other (List.mem_cons_of_mem _ member)
      refine throws_ite (fun _ => ih distinctRest later) fun _ => ?_
      cases mode : p.options.namespaces with
      | enabled =>
          refine throws_bind (faults_resolveName _ _ _ _) fun name => throws_ite (fun _ => ?_) fun _ => ?_
          · exact faults_failAt (.namespaces mode (by simp [namespaceDiagnoses])) _
          · refine throws_bind (ih distinctRest fun disabled => ?_) fun _ => throws_pure _
            rw [mode] at disabled
            cases disabled
      | disabled =>
          have plain : p.resolveName scopes raw.name false raw.location =
              (pure ⟨[], raw.name, raw.name⟩ : Comp σ Halt QualifiedName) := if_pos mode
          have fresh : ¬ seen.contains (([], raw.name) : Bytes × Bytes) = true := by
            rw [List.contains_iff_mem]
            exact unseen mode raw List.mem_cons_self
          rw [plain, pure_bind, if_neg fresh]
          refine throws_bind (ih distinctRest fun disabled other member isSeen => ?_) fun _ => throws_pure _
          rcases List.mem_cons.mp isSeen with same | before
          · have sameName : other.name = raw.name := (Prod.mk.inj same).2
            exact new (sameName ▸ List.mem_map_of_mem member)
          · exact later disabled other member before

theorem faults_parseTagName (start : SourceLocation) : Throws p.Faults (p.parseTagName start) := by
  refine throws_bind (throws_onPart (faults_expect (by simp [expectations]) _)) fun _ => ?_
  refine throws_read_bind fun next => throws_ite (fun _ => ?_) fun _ => ?_
  · exact faults_failAt (.element (by simp [elementDiagnoses])) _
  refine throws_bind (throws_onPart faults_parseName) fun name => ?_
  refine throws_read_bind fun depth => throws_ite (fun _ => ?_) fun _ => throws_pure _
  exact faults_failAt (.element (by simp [elementDiagnoses])) _

theorem faults_textLoop (start : SourceLocation) : Throws p.Faults
    (loop (fun _ s => s.rest.length) .outOfFuel (p.textRound start) [] : ParserM Bytes) := by
  refine throws_loop .outOfFuel (fun text => ?_) []
  refine throws_read_bind fun _ => throws_read_bind fun _ => throws_ite (fun _ => throws_pure _) fun _ => ?_
  exact throws_bind (faults_takePiece text) fun _ => throws_bind (faults_enforceTokenSize _ _) fun _ => throws_pure _

end Parser

end XmlParser
