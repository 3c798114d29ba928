import XmlParser.SameDocument

/-! Limits can only reject: under looser limits the same document is accepted with
the same calls, and what only tighter limits reject fails as a limit. -/

set_option autoImplicit false

namespace XmlParser

open XmlParser.Computation Comp

/-- The options differ in their limits only, none of which is higher. -/
structure Tighter (tight loose : ParserOptions) : Prop where
  version : tight.version = loose.version
  validation : tight.validation = loose.validation
  namespaces : tight.namespaces = loose.namespaces
  allowExternalDtd : tight.allowExternalDtd = loose.allowExternalDtd
  externalDtdResolver : tight.externalDtdResolver = loose.externalDtdResolver
  recoverableErrorHandler : tight.recoverableErrorHandler = loose.recoverableErrorHandler
  maxDocumentBytes : tight.maxDocumentBytes ≤ loose.maxDocumentBytes
  maxDepth : tight.maxDepth ≤ loose.maxDepth
  maxTokenBytes : tight.maxTokenBytes ≤ loose.maxTokenBytes
  maxAttributesPerElement : tight.maxAttributesPerElement ≤ loose.maxAttributesPerElement
  maxEntityExpansions : tight.maxEntityExpansions ≤ loose.maxEntityExpansions
  maxDomNodes : tight.maxDomNodes ≤ loose.maxDomNodes
  maxDtdDeclarations : tight.maxDtdDeclarations ≤ loose.maxDtdDeclarations
  maxEntityReplacementBytes : tight.maxEntityReplacementBytes ≤ loose.maxEntityReplacementBytes
  maxExternalSubsetBytes : tight.maxExternalSubsetBytes ≤ loose.maxExternalSubsetBytes

def Halt.IsResourceLimit (halt : Halt) : Prop :=
  ∃ location message, halt = .thrown (.xmlParse ⟨.resourceLimit, location, message⟩)

/-- The run is stopped by a limit. -/
def stopsByLimit (halt : Halt) (_ : List Event) : Prop := halt.IsResourceLimit

namespace Tighter

variable {tight loose : ParserOptions} (tighter : Tighter tight loose)

include tighter

theorem alike (handler : SaxHandler) (endLocation : SourceLocation) :
    (stopping stopsByLimit).Alike ⟨handler, loose, endLocation⟩ ⟨handler, tight, endLocation⟩ := by
  have limits : ∀ {low high : Nat}, low ≤ high → (stopping stopsByLimit).Limits low high :=
    fun le => .inr ⟨le, fun location message _ => ⟨location, message, rfl⟩⟩
  refine ⟨tighter.version, tighter.namespaces, tighter.allowExternalDtd, tighter.externalDtdResolver,
    fun _ _ _ => trivial, limits tighter.maxDepth, limits tighter.maxTokenBytes,
    limits tighter.maxAttributesPerElement, limits tighter.maxEntityExpansions,
    limits tighter.maxDtdDeclarations, limits tighter.maxEntityReplacementBytes,
    limits tighter.maxExternalSubsetBytes, rfl, fun left right same => ?_,
    Setting.reportsAlike_refl _ _ tighter.validation tighter.recoverableErrorHandler⟩
  rw [(exact_stopping stopsByLimit).events same]
  exact .inl rfl

/-- The decoder is limited by the size of the document only. -/
theorem decodeDocument_eq (xml : Bytes) :
    decodeDocument xml tight = decodeDocument xml loose ∨
      decodeDocument xml tight = .error ⟨.resourceLimit, {}, "XML input exceeds max_document_bytes"⟩ := by
  have utf8 : ∀ offset, decodeUtf8 xml offset tight = decodeUtf8 xml offset loose := by
    intro offset
    unfold decodeUtf8
    rw [tighter.version]
  have utf16 : ∀ littleEndian, decodeUtf16 xml littleEndian tight = decodeUtf16 xml littleEndian loose := by
    intro littleEndian
    unfold decodeUtf16
    rw [tighter.version]
  unfold decodeDocument
  by_cases empty : xml.isEmpty = true
  · rw [if_pos empty, if_pos empty]
    exact .inl rfl
  rw [if_neg empty, if_neg empty]
  by_cases long : xml.length > tight.maxDocumentBytes
  · rw [if_pos long]
    exact .inr rfl
  · rw [if_neg long, if_neg (Nat.not_lt_of_le ((Nat.le_of_not_gt long).trans tighter.maxDocumentBytes)),
      utf8, utf8, utf16, utf16]
    exact .inl rfl

/-- The run under the tighter limits follows the other one until a limit stops it. -/
theorem follows (xml : Bytes) (handler : SaxHandler) :
    Follows stopsByLimit (parseXmlDocument xml handler loose) (parseXmlDocument xml handler tight) := by
  unfold parseXmlDocument
  cases tighter.decodeDocument_eq xml with
  | inl same =>
      rw [same]
      cases decodeDocument xml loose with
      | error error => exact .same rfl rfl
      | ok document => exact (tighter.alike handler document.endLocation).run_follows document.chars
  | inr refused =>
      rw [refused]
      exact .early rfl ⟨_, _, rfl⟩ List.nil_prefix

end Tighter

namespace DomBuilder

variable {tight loose : ParserOptions}

theorem run_ensureNodeAvailable_looser (le : tight.maxDomNodes ≤ loose.maxDomNodes)
    {before builder : DomBuilder}
    (ran : (ensureNodeAvailable tight).run before = (.ok (), builder)) :
    (ensureNodeAvailable loose).run before = (.ok (), builder) := by
  unfold ensureNodeAvailable at ran ⊢
  rw [run_bind_of_ok (run_read nodeCount before)] at ran ⊢
  by_cases beyond : before.nodeCount + 1 > tight.maxDomNodes
  · rw [if_pos beyond] at ran
    cases ran
  · rw [if_neg beyond] at ran
    rwa [if_neg (Nat.not_lt_of_le ((Nat.le_of_not_gt beyond).trans le))]

/-- A callback that returns does the same under a higher limit. -/
theorem run_handle_looser (le : tight.maxDomNodes ≤ loose.maxDomNodes) {event : Event}
    {before builder : DomBuilder} (ran : (handle tight event).run before = (.ok (), builder)) :
    (handle loose event).run before = (.ok (), builder) := by
  have leaf : ∀ {create : Dom.NodeRef → Dom.DomM Dom.NodeRef},
      (addLeaf tight create).run before = (.ok (), builder) →
        (addLeaf loose create).run before = (.ok (), builder) := by
    intro create ran
    obtain ⟨_, counted, available, rest⟩ := bind_eq_ok.mp ran
    exact (run_bind_of_ok (run_ensureNodeAvailable_looser le available) _).trans rest
  cases event with
  | startDocument => exact ran
  | endDocument => exact ran
  | endElement name => exact ran
  | startElement name attributes =>
      obtain ⟨_, counted, available, rest⟩ := bind_eq_ok.mp ran
      exact (run_bind_of_ok (run_ensureNodeAvailable_looser le available) _).trans rest
  | characters text => exact leaf ran
  | processingInstruction target data => exact leaf ran
  | comment text => exact leaf ran
  | cdata text => exact leaf ran

theorem after_looser (le : tight.maxDomNodes ≤ loose.maxDomNodes) {events : List Event}
    {builder : DomBuilder} (ran : after tight events = (.ok (), builder)) :
    after loose events = (.ok (), builder) := by
  unfold after at ran ⊢
  revert ran
  generalize initial = start
  induction events generalizing start with
  | nil => exact id
  | cons event events ih =>
      intro ran
      obtain ⟨_, next, handled, rest⟩ := bind_eq_ok.mp ran
      exact (run_bind_of_ok (run_handle_looser le handled) _).trans (ih next rest)

end DomBuilder

/-- A document is returned only if there are few enough nodes and the parse with a
recording handler succeeds. -/
theorem accepted_of_parseDocument {xml : Bytes} {options : ParserOptions} {document : Dom.NodeRef}
    (returned : (parseDocument xml options).1 = .ok document) :
    (parseXmlDocument xml .recording options).2.events.countP Event.isNode ≤ options.maxDomNodes ∧
      (parseXmlDocument xml .recording options).1 = .ok () := by
  have fits : (parseXmlDocument xml .recording options).2.events.countP Event.isNode ≤
      options.maxDomNodes := by
    by_contra beyond
    rw [parseDocument_over_limit (Nat.lt_of_not_le beyond)] at returned
    cases returned
  refine ⟨fits, ?_⟩
  cases outcome : (parseXmlDocument xml .recording options).1 with
  | ok value => rfl
  | error halt =>
      rw [parseDocument_of_error fits outcome] at returned
      cases returned

namespace Tighter

variable {tight loose : ParserOptions} (tighter : Tighter tight loose)

include tighter

/-- The same document, at the same address of the same heap. -/
theorem parseDocument_eq {xml : Bytes} {document : Dom.NodeRef}
    (returned : (parseDocument xml tight).1 = .ok document) :
    parseDocument xml loose = parseDocument xml tight := by
  obtain ⟨fits, accepted⟩ := accepted_of_parseDocument returned
  obtain ⟨looseAccepted, sameTrace⟩ := (tighter.follows xml .recording).accepted accepted
  have sameEvents : (parseXmlDocument xml .recording loose).2.events =
      (parseXmlDocument xml .recording tight).2.events := congrArg (List.map Delivery.event) sameTrace
  have looseFits : (parseXmlDocument xml .recording loose).2.events.countP Event.isNode ≤
      loose.maxDomNodes := sameEvents ▸ fits.trans tighter.maxDomNodes
  obtain ⟨tightOutcome, tightEvents⟩ := DomBuilder.run_within fits
  obtain ⟨looseOutcome, looseEvents⟩ := DomBuilder.run_within looseFits
  obtain ⟨⟨phase, order, _⟩, storable⟩ := recording_storable xml tight
  obtain ⟨builder, ran, _⟩ := DomBuilder.run_after tight order storable fits
  unfold parseDocument
  dsimp only
  rw [looseEvents, looseOutcome, looseAccepted, sameEvents,
    DomBuilder.after_looser tighter.maxDomNodes ran, tightEvents, tightOutcome, accepted, ran]

/-- What only the tighter limits reject fails as a limit. -/
theorem parseDocument_rejected {xml : Bytes} {document : Dom.NodeRef} {halt : Halt}
    (returned : (parseDocument xml loose).1 = .ok document)
    (rejected : (parseDocument xml tight).1 = .error halt) :
    halt.IsResourceLimit ∧
      (parseXmlDocument xml (DomBuilder.handler tight) tight).2.events <+:
        (parseXmlDocument xml (DomBuilder.handler loose) loose).2.events := by
  obtain ⟨looseFits, accepted⟩ := accepted_of_parseDocument returned
  have follows := tighter.follows xml .recording
  constructor
  · by_cases fits : (parseXmlDocument xml .recording tight).2.events.countP Event.isNode ≤ tight.maxDomNodes
    · cases outcome : (parseXmlDocument xml .recording tight).1 with
      | ok value =>
          obtain ⟨document, isDocument, _⟩ := parseDocument_of_ok fits outcome
          rw [isDocument] at rejected
          cases rejected
      | error stopped =>
          rw [parseDocument_of_error fits outcome] at rejected
          cases rejected
          exact follows.rejected accepted outcome
    · rw [parseDocument_over_limit (Nat.lt_of_not_le fits)] at rejected
      cases rejected
      exact ⟨_, _, rfl⟩
  · rw [(DomBuilder.run_within looseFits).2]
    exact (DomBuilder.follows_recording xml tight).events_precede.trans follows.events_precede

end Tighter

/-- Limits can only reject, and only as `ResourceLimit`: of a parse with a handler
and of one that returns a document. -/
theorem looserLimits_accept {tight loose : ParserOptions} (tighter : Tighter tight loose) (xml : Bytes) :
    (∀ handler : SaxHandler,
      ((parseXmlDocument xml handler tight).1 = .ok () →
        (parseXmlDocument xml handler loose).1 = .ok () ∧
          (parseXmlDocument xml handler loose).2.trace = (parseXmlDocument xml handler tight).2.trace) ∧
      ((parseXmlDocument xml handler loose).1 = .ok () → ∀ halt,
        (parseXmlDocument xml handler tight).1 = .error halt →
          halt.IsResourceLimit ∧
            (parseXmlDocument xml handler tight).2.events <+:
              (parseXmlDocument xml handler loose).2.events)) ∧
    (∀ document, (parseDocument xml tight).1 = .ok document →
      parseDocument xml loose = parseDocument xml tight) ∧
    (∀ document, (parseDocument xml loose).1 = .ok document → ∀ halt,
      (parseDocument xml tight).1 = .error halt →
        halt.IsResourceLimit ∧
          (parseXmlDocument xml (DomBuilder.handler tight) tight).2.events <+:
            (parseXmlDocument xml (DomBuilder.handler loose) loose).2.events) := by
  refine ⟨fun handler => ?_, fun document returned => tighter.parseDocument_eq returned,
    fun document returned halt rejected => tighter.parseDocument_rejected returned rejected⟩
  have follows := tighter.follows xml handler
  constructor
  · intro accepted
    exact follows.accepted accepted
  · intro accepted halt rejected
    exact ⟨follows.rejected accepted rejected, follows.events_precede⟩

/-- Options under which a comment of four characters is too long a token. -/
def ParserOptions.shortTokens (maxTokenBytes : Nat) : ParserOptions := { maxTokenBytes }

theorem shortTokens_tighter : Tighter (.shortTokens 3) (.shortTokens 8) :=
  ⟨rfl, rfl, rfl, rfl, rfl, rfl, le_rfl, le_rfl, by decide, le_rfl, le_rfl, le_rfl, le_rfl, le_rfl, le_rfl⟩

theorem looserLimits_accept_sample :
    (parseXmlDocument (ascii "<!--abcd--><a/>") .recording (.shortTokens 8)).1 = .ok () ∧
      ∀ halt, (parseXmlDocument (ascii "<!--abcd--><a/>") .recording (.shortTokens 3)).1 = .error halt →
        halt.IsResourceLimit := by
  have accepted : (parseXmlDocument (ascii "<!--abcd--><a/>") .recording (.shortTokens 8)).1 = .ok () := by
    decide +kernel
  exact ⟨accepted, fun halt rejected =>
    (((looserLimits_accept shortTokens_tighter _).1 .recording).2 accepted halt rejected).1⟩

end XmlParser
