import XmlParser.Endings
import XmlParser.Locations
import XmlParser.LooserLimits
import XmlParser.TruncatedElements

/-! A document that is accepted is accepted no more when it is cut off in front of
the end of its document element. -/

set_option autoImplicit false

namespace XmlParser

open XmlParser.Computation Comp PrefixCode

/-! ## Decoding the front of a document -/

theorem located_append (unit : Nat → Bytes) (offset : Nat) (tracker : LocationTracker) (front back : List Nat) :
    located unit offset tracker (front ++ back) =
      located unit offset tracker front ++
        located unit (offset + (encode unit front).length) (tracker.after front) back := by
  induction front generalizing offset tracker with
  | nil => rfl
  | cons value front ih =>
      rw [List.cons_append, located, located, ih, encode_cons, List.length_append, Nat.add_assoc]
      rfl

/-- The location of a parser behind the front of a text. -/
theorem location_located {p : Parser} {unit : Nat → Bytes} {offset : Nat} {front back : List Nat}
    (ends : p.endLocation = (LocationTracker.after {} (front ++ back)).current
      (offset + (encode unit (front ++ back)).length)) :
    p.location (located unit (offset + (encode unit front).length) (LocationTracker.after {} front) back) =
      (LocationTracker.after {} front).current (offset + (encode unit front).length) := by
  cases back with
  | nil =>
      rw [List.append_nil] at ends
      exact ends
  | cons value back => rfl

/-- What has been decoded, in terms of the text. -/
structure DecodesTo (xml : Bytes) (text : List Nat) (document : DecodedDocument) : Prop where
  bytes : xml = (encodingOf xml).1 ++ encode (encodingOf xml).2 text
  chars : document.chars = located (encodingOf xml).2 (encodingOf xml).1.length {} text
  ends : document.endLocation = (LocationTracker.after {} text).current
    ((encodingOf xml).1.length + (encode (encodingOf xml).2 text).length)

theorem DecodesTo.length {xml : Bytes} {text : List Nat} {document : DecodedDocument}
    (spells : DecodesTo xml text document) :
    xml.length = (encodingOf xml).1.length + (encode (encodingOf xml).2 text).length := by
  have halves := congrArg List.length spells.bytes
  rwa [List.length_append] at halves

theorem decodesTo_of_decodeDocument {xml : Bytes} {options : ParserOptions} {document : DecodedDocument}
    (decoded : decodeDocument xml options = .ok document) :
    ∃ text, Legal options.version text ∧ DecodesTo xml text document := by
  obtain ⟨loop, decodes, branches⟩ := decodeDocument_eq xml options
  rw [branches] at decoded
  split at decoded
  · cases decoded
  split at decoded
  · cases decoded
  obtain ⟨text, rest, split, legal, _, ended⟩ :=
    decodes.exact (xml.drop (encodingOf xml).1.length) (encodingOf xml).1.length {}
  cases ended with
  | inl whole =>
      obtain ⟨rfl, returned⟩ := whole
      rw [returned] at decoded
      obtain ⟨rfl, _⟩ := requireChars_eq_ok.mp decoded
      have bytes : xml = (encodingOf xml).1 ++ encode (encodingOf xml).2 text := by
        rw [List.append_nil] at split
        rw [← split]
        exact (List.prefix_iff_eq_append.mp (encodingOf_isPrefix xml)).symm
      refine ⟨text, legal, bytes, rfl, ?_⟩
      have halves := congrArg List.length bytes
      rw [List.length_append] at halves
      rw [← halves]
  | inr failed =>
      obtain ⟨kind, message, _, _, threw⟩ := failed
      rw [threw] at decoded
      cases decoded

/-- What can be wrong with a document that has been cut off. -/
def ErrorKind.OfTruncated (kind : ErrorKind) : Prop :=
  kind = .emptyInput ∨ kind = .encoding ∨ kind = .wellFormedness ∨ kind = .resourceLimit

instance (kind : ErrorKind) : Decidable kind.OfTruncated :=
  inferInstanceAs (Decidable (_ ∨ _ ∨ _ ∨ _))

theorem decodeDocument_kind {xml : Bytes} {options : ParserOptions} {error : XmlParseException}
    (refused : decodeDocument xml options = .error error) : error.kind.OfTruncated := by
  obtain ⟨loop, decodes, branches⟩ := decodeDocument_eq xml options
  rw [branches] at refused
  split at refused
  · cases refused
    exact .inl rfl
  split at refused
  · cases refused
    exact .inr (.inr (.inr rfl))
  obtain ⟨text, rest, _, _, _, ended⟩ :=
    decodes.exact (xml.drop (encodingOf xml).1.length) (encodingOf xml).1.length {}
  cases ended with
  | inl whole =>
      obtain ⟨_, returned⟩ := whole
      rw [returned] at refused
      change requireChars _ _ = _ at refused
      unfold requireChars at refused
      split at refused
      · cases refused
        exact .inl rfl
      · cases refused
  | inr failed =>
      obtain ⟨kind, message, _, reason, threw⟩ := failed
      rw [threw] at refused
      cases refused
      cases reason with
      | inl stuck => exact .inr (.inl stuck.1)
      | inr invalid => exact .inr (.inr (.inl invalid.1))

/-- Within a byte order mark there is nothing to decode. -/
theorem decodeDocument_within_mark (options : ParserOptions) {xml : Bytes}
    (within : xml ∈ [[], [0xEF], [0xEF, 0xBB], [0xFF], [0xFE]]) :
    ∃ error, decodeDocument xml options = .error error := by
  by_cases large : xml.length > options.maxDocumentBytes
  · unfold decodeDocument
    rw [if_pos large]
    split
    · exact ⟨_, rfl⟩
    · exact ⟨_, rfl⟩
  · simp only [List.mem_cons, List.not_mem_nil, or_false] at within
    obtain rfl | rfl | rfl | rfl | rfl := within
    all_goals
      unfold decodeDocument
      rw [if_neg large]
      exact ⟨_, rfl⟩

theorem isPrefixOf_take (mark xml : Bytes) (count : Nat) :
    mark.isPrefixOf (xml.take count) = mark.isPrefixOf xml ∨
      xml.take count = mark.take count ∧ count < mark.length := by
  by_cases marked : mark <+: xml
  · by_cases long : mark.length ≤ count
    · refine .inl (Bool.eq_iff_iff.mpr ?_)
      rw [List.isPrefixOf_iff_prefix, List.isPrefixOf_iff_prefix, List.prefix_take_iff, and_iff_left long]
    · obtain ⟨more, rfl⟩ := marked
      have short := Nat.lt_of_not_le long
      exact .inr ⟨List.take_append_of_le_length (Nat.le_of_lt short), short⟩
  · refine .inl (Bool.eq_iff_iff.mpr ?_)
    rw [List.isPrefixOf_iff_prefix, List.isPrefixOf_iff_prefix]
    exact iff_of_false (fun onFront => marked (onFront.trans (List.take_prefix _ _))) marked

/-- The front of a document is in the same encoding, or lies within its mark. -/
theorem encodingOf_take (xml : Bytes) (count : Nat) :
    encodingOf (xml.take count) = encodingOf xml ∨
      xml.take count ∈ [[], [0xEF], [0xEF, 0xBB], [0xFF], [0xFE]] := by
  have within : ∀ mark : Bytes, mark ∈ [[0xEF, 0xBB, 0xBF], [0xFF, 0xFE], [0xFE, 0xFF]] →
      xml.take count = mark.take count ∧ count < mark.length →
      xml.take count ∈ [[], [0xEF], [0xEF, 0xBB], [0xFF], [0xFE]] := by
    have parts : ∀ mark : Bytes, mark ∈ [[0xEF, 0xBB, 0xBF], [0xFF, 0xFE], [0xFE, 0xFF]] →
        ∀ count < mark.length, mark.take count ∈ [[], [0xEF], [0xEF, 0xBB], [0xFF], [0xFE]] := by decide
    rintro mark isMark ⟨same, short⟩
    rw [same]
    exact parts mark isMark count short
  cases isPrefixOf_take [0xEF, 0xBB, 0xBF] xml count with
  | inr short => exact .inr (within _ (by decide) short)
  | inl first =>
      cases isPrefixOf_take [0xFF, 0xFE] xml count with
      | inr short => exact .inr (within _ (by decide) short)
      | inl second =>
          cases isPrefixOf_take [0xFE, 0xFF] xml count with
          | inr short => exact .inr (within _ (by decide) short)
          | inl third =>
              left
              unfold encodingOf
              rw [first, second, third]

/-- The characters that are decoded from the front of a document are those in front
of a cut, and their end is where the cut is. -/
theorem decodeDocument_take {xml : Bytes} {options : ParserOptions} {document front : DecodedDocument}
    {count : Nat} (decoded : decodeDocument xml options = .ok document)
    (decodedFront : decodeDocument (xml.take count) options = .ok front) (handler : SaxHandler) :
    ∃ cut, document.chars = front.chars ++ cut ∧
      Parser.mk handler options front.endLocation = (Parser.mk handler options document.endLocation).upTo cut := by
  obtain ⟨text, legal, whole⟩ := decodesTo_of_decodeDocument decoded
  obtain ⟨before, legalBefore, part⟩ := decodesTo_of_decodeDocument decodedFront
  cases encodingOf_take xml count with
  | inr within =>
      obtain ⟨error, refused⟩ := decodeDocument_within_mark options within
      rw [decodedFront] at refused
      cases refused
  | inl same =>
      have free : PrefixFree Scalar (encodingOf xml).2 := by
        obtain ⟨loop, decodes, _⟩ := decodeDocument_eq xml options
        exact decodes.free
      have symbols : ∀ value, isValidXmlChar value options.version = true → Scalar value :=
        fun _ valid => scalar_of_valid valid
      have nothing : ∀ value, isValidXmlChar value options.version = true →
          ¬ (encodingOf xml).2 value <+: [] :=
        fun value valid fits => free.nonempty value (symbols value valid) (List.prefix_nil.mp fits)
      have fits : encode (encodingOf xml).2 before <+: encode (encodingOf xml).2 text ++ [] := by
        have taken := List.take_prefix count xml
        rw [part.bytes, same] at taken
        obtain ⟨more, extended⟩ := taken
        rw [List.append_nil]
        exact (List.prefix_append_right_inj _).mp ⟨more, extended.trans whole.bytes⟩
      obtain ⟨after, rfl⟩ := free.longest symbols legal legalBefore nothing fits
      have chars := whole.chars
      rw [located_append] at chars
      have partChars := part.chars
      rw [same] at partChars
      refine ⟨_, partChars ▸ chars, ?_⟩
      have ends := part.ends
      rw [same] at ends
      unfold Parser.upTo
      rw [location_located whole.ends, ends]

/-! ## The end of the document element -/

/-- The offset behind the document element, where `parse` comes to it. -/
def documentElementEnd (xml : Bytes) (options : ParserOptions) : Option Nat :=
  match decodeDocument xml options with
  | .error _ => none
  | .ok document =>
      let p : Parser := { handler := .recording, options, endLocation := document.endLocation }
      match p.parseThroughElement.run { rest := document.chars } with
      | (.ok _, s) => some (p.location s.rest).byteOffset
      | (.error _, _) => none

theorem byteOffset_within {xml : Bytes} {options : ParserOptions} {document : DecodedDocument}
    (decoded : decodeDocument xml options = .ok document) (handler : SaxHandler) {rest : List DecodedChar}
    (ahead : rest <:+ document.chars) :
    ((Parser.mk handler options document.endLocation).location rest).byteOffset ≤ xml.length := by
  obtain ⟨text, _, spells⟩ := decodesTo_of_decodeDocument decoded
  cases rest with
  | nil =>
      change document.endLocation.byteOffset ≤ xml.length
      rw [spells.ends, spells.length]
      exact Nat.le_refl _
  | cons c rest =>
      have member : c ∈ document.chars := ahead.subset List.mem_cons_self
      rw [spells.chars] at member
      obtain ⟨before, after, rfl, here⟩ := mem_located member
      change c.location.byteOffset ≤ xml.length
      rw [here, spells.length, encode_append, List.length_append]
      exact Nat.add_le_add_left (Nat.le_add_right _ _) _

namespace Parser

theorem parseThroughElement_ahead {p : Parser} {s t : ParserState} {result : Unit}
    (returned : p.parseThroughElement.run s = (.ok result, t)) : t.rest <:+ s.rest := by
  have misc : p.Movingly p.skipMisc := obeys_loop_of_advances p.skipMiscRound_movesOn ()
  have wanders : p.Wanders p.parseThroughElement := by
    refine obeys_bind (Movingly.wanders ?_) fun _ => ?_
    · refine obeys_bind (p.movingly_emit _) fun _ => ?_
      refine obeys_bind (Quietly.movingly (p.quietly_scan p.scans_parseXmlDeclarationIfPresent)) fun _ => ?_
      refine obeys_bind misc fun _ => ?_
      exact obeys_bind (Quietly.movingly p.quietly_parseDoctypeIfPresent) fun _ => misc
    · exact obeys_bind (obeys_read _) fun size => (p.wandersOn_parseElement (size + 1)).obeys
  exact (wanders.of_run returned).rest

theorem parse_eq_parseThroughElement (p : Parser) : p.parse = (do
    p.parseThroughElement
    p.skipMisc
    if !(← look eof) then
      p.failHere .wellFormedness "extra content after document element"
    else
      p.emit .endDocument) := by
  rw [parse_eq_prolog]
  unfold parseThroughElement
  simp only [bind_assoc]

end Parser

/-! ## Cutting a document off -/

/-- Behind the document element the parser of the front would have come to its end. -/
theorem refused_of_short {xml : Bytes} {options : ParserOptions} {document : DecodedDocument}
    (decoded : decodeDocument xml options = .ok document) {s : ParserState}
    (returned : (Parser.mk .recording options document.endLocation).parseThroughElement.run
      { rest := document.chars } = (.ok (), s)) {count : Nat}
    (short : count < ((Parser.mk .recording options document.endLocation).location s.rest).byteOffset) :
    ∃ error, (parseXmlDocument (xml.take count) .recording options).1 = .error (.thrown (.xmlParse error)) ∧
      error.kind.OfTruncated := by
  cases decodedFront : decodeDocument (xml.take count) options with
  | error error =>
      rw [parseXmlDocument_of_error decodedFront]
      exact ⟨error, rfl, decodeDocument_kind decodedFront⟩
  | ok front =>
      obtain ⟨cut, chars, sameParser⟩ := decodeDocument_take decoded decodedFront .recording
      have continues : (cutStates .recording cut).Continues { rest := document.chars } { rest := front.chars } := by
        rw [chars]
        rfl
      have ended := Parser.cuts_parseThroughElement _ _ _ _ continues returned
      rw [← sameParser] at ended
      cases ran : (Parser.mk .recording options front.endLocation).parseThroughElement.run
          { rest := front.chars } with
      | mk outcome last =>
          rw [ran] at ended
          cases ended with
          | kept continues =>
              have left : s.rest = last.rest ++ cut := states_follow s last continues
              have within := byteOffset_within decodedFront .recording (Parser.parseThroughElement_ahead ran)
              rw [left, Parser.location_append, ← sameParser] at short
              have taken := List.length_take_le count xml
              exact absurd short (Nat.not_lt.mpr (within.trans taken))
          | starved never => exact never.elim
          | refused refuses =>
              rename_i halt
              have whole : (parseXmlDocument (xml.take count) .recording options).1 = .error halt := by
                rw [parseXmlDocument_of_ok decodedFront, Parser.parse_eq_parseThroughElement,
                  run_bind_of_error ran]
              have isThrown := isThrown_of_parseXmlDocument whole
              cases refuses with
              | failed kind => exact ⟨_, whole, .inr (.inr kind)⟩
              | callback threw => cases threw
              | broken notThrown => exact absurd isThrown notThrown

theorem recording_truncated {xml : Bytes} {options : ParserOptions}
    (accepted : (parseXmlDocument xml .recording options).1 = .ok ()) :
    ∃ size, documentElementEnd xml options = some size ∧ ∀ count < size, ∃ error,
      (parseXmlDocument (xml.take count) .recording options).1 = .error (.thrown (.xmlParse error)) ∧
        error.kind.OfTruncated := by
  cases decoded : decodeDocument xml options with
  | error error =>
      rw [parseXmlDocument_of_error decoded] at accepted
      cases accepted
  | ok document =>
      rw [parseXmlDocument_of_ok decoded, Parser.parse_eq_parseThroughElement] at accepted
      obtain ⟨_, s, returned, _⟩ := bind_eq_ok.mp (Prod.ext accepted rfl)
      refine ⟨_, ?_, fun count short => refused_of_short decoded returned short⟩
      unfold documentElementEnd
      rw [decoded]
      dsimp only
      rw [returned]

/-- A document that has been cut off is refused, if not by the handler. -/
inductive RefusedTruncated (handler : SaxHandler) (ran : Outcome) : Prop where
  | refused {error : XmlParseException} (threw : ran.1 = .error (.thrown (.xmlParse error)))
      (kind : error.kind.OfTruncated)
  | answered {exception : Exception} (threw : ran.1 = .error (.thrown exception))
      (answer : handler.respond ran.2.events = some exception)

theorem parseXmlDocument_truncated {xml : Bytes} {options : ParserOptions} {handler : SaxHandler}
    (accepted : (parseXmlDocument xml handler options).1 = .ok ()) :
    ∃ size, documentElementEnd xml options = some size ∧ ∀ count < size,
      RefusedTruncated handler (parseXmlDocument (xml.take count) handler options) := by
  obtain ⟨recorded, _⟩ := (handler.follows_recording xml options).accepted accepted
  obtain ⟨size, ends, refuses⟩ := recording_truncated recorded
  refine ⟨size, ends, fun count short => ?_⟩
  obtain ⟨error, threw, kind⟩ := refuses count short
  cases handler.follows_recording (xml.take count) options with
  | same outcome trace => exact .refused (outcome.trans threw) kind
  | early outcome stopped trace =>
      obtain ⟨exception, answer, rfl⟩ := stopped
      exact .answered outcome answer

/-- A truncated document is never accepted, by a parse that returns a document nor
by one with a handler. -/
theorem truncated_refused (xml : Bytes) (options : ParserOptions) :
    (∀ document, (parseDocument xml options).1 = .ok document →
      ∃ size, documentElementEnd xml options = some size ∧ ∀ count < size,
        ∃ error, (parseDocument (xml.take count) options).1 = .error (.thrown (.xmlParse error)) ∧
          error.kind.OfTruncated) ∧
    ∀ handler, (parseXmlDocument xml handler options).1 = .ok () →
      ∃ size, documentElementEnd xml options = some size ∧ ∀ count < size,
        RefusedTruncated handler (parseXmlDocument (xml.take count) handler options) := by
  refine ⟨fun document returned => ?_, fun handler accepted => parseXmlDocument_truncated accepted⟩
  obtain ⟨_, accepted⟩ := accepted_of_parseDocument returned
  obtain ⟨size, ends, refuses⟩ := recording_truncated accepted
  refine ⟨size, ends, fun count short => ?_⟩
  obtain ⟨error, threw, kind⟩ := refuses count short
  by_cases fits : (parseXmlDocument (xml.take count) .recording options).2.events.countP Event.isNode ≤
      options.maxDomNodes
  · exact ⟨error, parseDocument_of_error fits threw, kind⟩
  · exact ⟨_, parseDocument_over_limit (Nat.lt_of_not_le fits), .inr (.inr (.inr rfl))⟩

theorem truncated_refused_sample :
    documentElementEnd (ascii "<a>b</a><!--c-->") {} = some 8 ∧
      ∀ count < 8, ∃ error, (parseDocument ((ascii "<a>b</a><!--c-->").take count) {}).1 =
        .error (.thrown (.xmlParse error)) ∧ error.kind.OfTruncated := by
  have ends : documentElementEnd (ascii "<a>b</a><!--c-->") {} = some 8 := by decide +kernel
  have returned : (parseDocument (ascii "<a>b</a><!--c-->") {}).1 = .ok 4 := by decide +kernel
  obtain ⟨size, sameEnd, refuses⟩ := (truncated_refused (ascii "<a>b</a><!--c-->") {}).1 4 returned
  rw [ends] at sameEnd
  cases sameEnd
  exact ⟨ends, refuses⟩

/-- A handler that throws when it is given the text `b`. -/
def throwsAtB : SaxHandler :=
  ⟨fun history => if history.getLast? = some (.characters (ascii "b")) then some (.foreign 0) else none⟩

/-- What is left of a comment may be longer than the comment, and what is left of
a run of text is handed to the handler. -/
theorem not_truncated_refused :
    (¬ ∀ xml options document, (parseDocument xml options).1 = .ok document →
      ∃ size, documentElementEnd xml options = some size ∧ ∀ count < size,
        ∃ error, (parseDocument (xml.take count) options).1 = .error (.thrown (.xmlParse error)) ∧
          (error.kind = .emptyInput ∨ error.kind = .encoding ∨ error.kind = .wellFormedness)) ∧
    ¬ ∀ xml options handler, (parseXmlDocument xml handler options).1 = .ok () →
      ∃ size, documentElementEnd xml options = some size ∧ ∀ count < size,
        ∃ error, (parseXmlDocument (xml.take count) handler options).1 = .error (.thrown (.xmlParse error)) ∧
          error.kind.OfTruncated := by
  constructor
  · intro claimed
    have returned : (parseDocument (ascii "<!--abc--><a/>") (.shortTokens 3)).1 = .ok 3 := by decide +kernel
    obtain ⟨size, ends, refuses⟩ := claimed _ _ _ returned
    have here : documentElementEnd (ascii "<!--abc--><a/>") (.shortTokens 3) = some 14 := by decide +kernel
    rw [here] at ends
    cases ends
    obtain ⟨error, threw, kind⟩ := refuses 8 (by decide)
    have long : (parseDocument ((ascii "<!--abc--><a/>").take 8) (.shortTokens 3)).1 =
        .error (.thrown (.xmlParse ⟨.resourceLimit, ⟨1, 1, 0⟩, "XML token exceeds max_token_bytes"⟩)) := by
      decide +kernel
    rw [long] at threw
    cases threw
    revert kind
    decide
  · intro claimed
    obtain ⟨size, ends, refuses⟩ := claimed (ascii "<a>bc</a>") {} throwsAtB (by decide +kernel)
    have here : documentElementEnd (ascii "<a>bc</a>") {} = some 9 := by decide +kernel
    rw [here] at ends
    cases ends
    obtain ⟨error, threw, _⟩ := refuses 4 (by decide)
    have called : (parseXmlDocument ((ascii "<a>bc</a>").take 4) throwsAtB {}).1 =
        .error (.thrown (.foreign 0)) := by decide +kernel
    rw [called] at threw
    cases threw

end XmlParser
