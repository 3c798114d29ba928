import XmlParser.Diagnostics

/-! What holds of the calls that a parser makes holds to the end of every run if each
single call keeps it: the handler and the error handler are called nowhere else. -/

set_option autoImplicit false

namespace XmlParser

open XmlParser.Computation Comp

/-! ## The two parts of a run -/

namespace Parser

variable (p : Parser)

/-- A run up to the place where the resolver is called, and whether there is a document
type declaration. -/
def untilResolver : ParserM Bool := do
  p.emit .startDocument
  scan p.parseXmlDeclarationIfPresent
  p.skipMisc
  p.readDoctypeIfPresent

def behindResolver : ParserM Unit := do
  p.skipMisc
  p.parseElement ((← look List.length) + 1)
  p.skipMisc
  if !(← look eof) then
    p.failHere .wellFormedness "extra content after document element"
  else
    p.emit .endDocument

theorem parse_eq : p.parse = p.untilResolver >>= fun present =>
    (if present then p.resolveExternalSubsetIfNeeded else pure ()) >>= fun _ => p.behindResolver := by
  unfold parse untilResolver behindResolver
  rw [parseDoctypeIfPresent_eq]
  simp only [bind_assoc]

/-- The run from the first state has come to the external subset in the second one, and
there is one to be resolved. -/
def AsksResolver (start s : ParserState) : Prop :=
  p.untilResolver.run start = (.ok true, s) ∧ Consults p.options s.dtd

theorem quietly_readDoctypeIfPresent : p.Quietly p.readDoctypeIfPresent := by
  refine obeys_bind (p.quietly_look _) fun _ => obeys_ite (fun _ => obeys_pure _) fun _ => ?_
  refine obeys_bind (p.quietly_modifyDtd fun _ => rfl) fun _ => ?_
  refine obeys_bind (p.quietly_scan (p.scans_expectSequence _ _)) fun _ => ?_
  refine obeys_bind (p.quietly_look _) fun _ => obeys_ite (fun _ => p.quietly_failHere _ _) fun _ => ?_
  refine obeys_bind (p.quietly_scan p.scans_skipWhitespace) fun _ => ?_
  refine obeys_bind (p.quietly_scan p.scans_parseName) fun rootName => ?_
  refine obeys_bind (p.quietly_modifyDtd fun _ => rfl) fun _ => ?_
  refine obeys_bind (p.quietly_scan p.scans_skipWhitespace) fun _ => ?_
  refine obeys_bind p.quietly_parseExternalId fun _ => obeys_bind p.quietly_parseBracketedSubset fun _ => ?_
  exact obeys_bind (p.quietly_scan (p.scans_expect _ _)) fun _ => obeys_pure _

end Parser

/-! ## Watching the calls -/

/-- A property of the calls made so far, kept by each further call, and what a throw
leaves behind. -/
structure Watch (p : Parser) (holds : ParserState → Prop) (failed : Halt → ParserState → Prop) : Prop where
  silent : ∀ {s t : ParserState}, t.trace = s.trace → t.reported = s.reported → holds s → holds t
  faults : ∀ {halt : Halt} {s : ParserState}, p.Faults halt → holds s → failed halt s
  emits : ∀ event, Triple holds (p.emit event) (fun _ => holds) failed
  reports : ∀ location {message : String}, p.options.validation = .dtd →
    (ErrorKind.validity, message) ∈ recoverableDiagnoses →
      Triple holds (p.recoverableValidityError location message) (fun _ => holds) failed

namespace Watch

variable {p : Parser} {holds : ParserState → Prop} {failed : Halt → ParserState → Prop}
  (watch : Watch p holds failed)

section Members

include watch

theorem quietly {α : Type} {source : ParserM α} (quietly : p.Quietly source) (faults : Throws p.Faults source) :
    Triple holds source (fun _ => holds) failed :=
  faults.triple quietly (fun _ _ here quiet _ => watch.silent quiet.trace quiet.reported here)
    fun _ _ here quiet _ fault => watch.faults fault (watch.silent quiet.trace quiet.reported here)

theorem scan {α : Type} {source : Cursor α} (scans : Scans source) (faults : Throws p.Faults source) :
    Triple holds (scan source) (fun _ => holds) failed :=
  watch.quietly (p.quietly_scan scans) (throws_onPart faults)

theorem fault {α : Type} {post : α → ParserState → Prop} {kind : ErrorKind} {message : String}
    (diagnosed : Diagnosed p.options (kind, message)) (location : SourceLocation) :
    Triple holds (failAt kind location message) post failed :=
  triple_throw fun _ here => watch.faults (.diagnosed location diagnosed) here

theorem failHere {α : Type} {post : α → ParserState → Prop} {kind : ErrorKind} {message : String}
    (diagnosed : Diagnosed p.options (kind, message)) : Triple holds (p.failHere kind message) post failed :=
  triple_read_bind fun location => watch.fault diagnosed location

theorem modify {update : ParserState → ParserState} (trace : ∀ s, (update s).trace = s.trace)
    (reported : ∀ s, (update s).reported = s.reported) :
    Triple holds (Comp.modify update : ParserM Unit) (fun _ => holds) failed :=
  triple_modify fun s here => watch.silent (trace s) (reported s) here

theorem loop {β γ : Type} {size : β → ParserState → Nat} {body : β → ParserM (LoopStep β γ)}
    (round : ∀ current, Triple holds (body current) (RoundPost (fun _ => holds) fun _ => holds) failed) (start : β) :
    Triple holds (loop size .outOfFuel body start) (fun _ => holds) failed :=
  triple_loop (fun _ => holds) round (fun _ _ here => watch.faults .outOfFuel here) start

omit watch in
theorem round {α β γ : Type} {source : ParserM α} {step : α → LoopStep β γ}
    (watched : Triple holds source (fun _ => holds) failed) :
    Triple holds (source >>= fun value => pure (step value)) (RoundPost (fun _ => holds) fun _ => holds) failed := by
  refine triple_bind watched fun value => triple_pure fun _ here => ?_
  cases step value with
  | next following => exact here
  | done result => exact here

theorem parseComment : Triple holds p.parseComment (fun _ => holds) failed :=
  triple_bind (watch.scan p.takes_scanComment.obeys Parser.faults_scanComment) fun _ => watch.emits _

theorem parseCdata : Triple holds p.parseCdata (fun _ => holds) failed :=
  triple_bind (watch.scan p.takes_scanCdata.obeys Parser.faults_scanCdata) fun _ => watch.emits _

theorem parseProcessingInstruction : Triple holds p.parseProcessingInstruction (fun _ => holds) failed :=
  triple_bind (watch.scan p.takes_scanProcessingInstruction.obeys Parser.faults_scanProcessingInstruction)
    fun _ => watch.emits _

theorem skipMisc : Triple holds p.skipMisc (fun _ => holds) failed := by
  refine watch.loop (fun _ => ?_) ()
  refine triple_read_bind fun before => ?_
  refine triple_bind (watch.scan p.scans_skipWhitespace Parser.faults_skipWhitespace) fun _ => ?_
  refine triple_read_bind fun consumed => triple_read_bind fun comment => ?_
  refine triple_ite (fun _ => round watch.parseComment) fun _ => triple_read_bind fun instruction => ?_
  refine triple_ite (fun _ => round watch.parseProcessingInstruction) fun _ => ?_
  exact triple_ite (fun _ => triple_pure fun _ here => here) fun _ => triple_pure fun _ here => here

theorem parseText : Triple holds p.parseText (fun _ => holds) failed := by
  have looped : ∀ start, Triple holds
      (Comp.loop (fun _ s => s.rest.length) .outOfFuel (p.textRound start) [] : ParserM Bytes) (fun _ => holds) failed :=
    fun start => watch.quietly (obeys_loop_of_advances (p.textRound_strict start) []) (Parser.faults_textLoop start)
  refine triple_read_bind fun start => triple_bind (looped start) fun text => ?_
  refine triple_ite (fun _ => triple_pure fun _ here => here) fun _ => triple_bind ?_ fun _ => watch.emits _
  refine watch.modify (fun s => ?_) fun s => ?_
  · split <;> rfl
  · split <;> rfl

/-! ## Elements -/

theorem topOf {α : Type} (stack : List α) : Triple holds (topOf stack) (fun _ => holds) failed := by
  cases stack with
  | nil => exact triple_throw fun _ here => watch.faults .undefinedBehavior here
  | cons top others => exact triple_pure fun _ here => here

theorem parseEndTag (openName : Bytes) : Triple holds (p.parseEndTag openName) (fun _ => holds) failed := by
  refine triple_read_bind fun endStart => ?_
  refine triple_bind (watch.scan (p.scans_expectSequence _ _)
    (Parser.faults_expectSequence (by simp [expectations]) _)) fun _ => ?_
  refine triple_bind (watch.scan p.scans_parseName Parser.faults_parseName) fun endName => ?_
  refine triple_bind (watch.scan p.scans_skipWhitespace Parser.faults_skipWhitespace) fun _ => ?_
  refine triple_bind (watch.scan (p.scans_expect _ _) (Parser.faults_expect (by simp [expectations]) _)) fun _ => ?_
  refine triple_ite (fun _ => watch.fault (.element (by simp [elementDiagnoses])) _) fun _ => ?_
  exact triple_read_bind fun stack => triple_bind (watch.topOf stack) fun name => watch.emits _

theorem parseContent {element : ParserM Unit} (child : Triple holds element (fun _ => holds) failed)
    (openName : Bytes) : Triple holds (p.parseContent element openName) (fun _ => holds) failed := by
  refine watch.loop (fun _ => ?_) ()
  refine triple_read_bind fun atEnd => triple_ite (fun _ => ?_) fun _ => ?_
  · exact watch.failHere (.element (by simp [elementDiagnoses]))
  refine triple_read_bind fun closes => triple_ite (fun _ => round (watch.parseEndTag openName)) fun _ => ?_
  refine triple_read_bind fun comment => triple_ite (fun _ => round watch.parseComment) fun _ => ?_
  refine triple_read_bind fun cdata => triple_ite (fun _ => round watch.parseCdata) fun _ => ?_
  refine triple_read_bind fun instruction =>
    triple_ite (fun _ => round watch.parseProcessingInstruction) fun _ => ?_
  exact triple_read_bind fun next => triple_ite (fun _ => round child) fun _ => round watch.parseText

/-- The attributes of a tag have distinct names. -/
theorem parseAttributes : Triple holds p.parseAttributes
    (fun attributes s => (attributes.map RawAttribute.name).Nodup ∧ holds s) failed := by
  have quiet := watch.quietly p.quietly_parseAttributes Parser.faults_parseAttributes
  intro s here
  constructor
  · intro attributes t ran
    exact ⟨(Parser.triple_attributeNames s trivial).1 attributes t ran, (quiet s here).1 attributes t ran⟩
  · exact (quiet s here).2

theorem openElement (name : Bytes) (start : SourceLocation) :
    Triple holds (p.openElement name start) (fun _ => holds) failed := by
  refine triple_bind_fact watch.parseAttributes fun attributes distinct => ?_
  refine triple_bind (watch.modify (fun _ => rfl) fun _ => rfl) fun _ => triple_read_bind fun scopes => ?_
  refine triple_bind (watch.quietly (p.obeys_resolveName scopes name true start)
    (Parser.faults_resolveName _ _ _ _)) fun elementName => ?_
  refine triple_bind (watch.quietly (p.obeys_attributeViews scopes attributes [])
    (Parser.faults_attributeViews scopes distinct fun _ _ _ => List.not_mem_nil)) fun views => ?_
  refine triple_bind (watch.modify (fun _ => rfl) fun _ => rfl) fun _ => triple_bind (watch.emits _) fun _ => ?_
  exact triple_pure fun _ here => here

theorem validateElement (frame : ValidationFrame) (location : SourceLocation) :
    Triple holds (p.validateElement frame location) (fun _ => holds) failed := by
  refine triple_read_bind fun s => triple_ite (fun _ => triple_pure fun _ here => here) fun needed => ?_
  have validates : p.options.validation = .dtd := by
    simp only [Bool.or_eq_true, not_or, bne_iff_ne, ne_eq, not_not] at needed
    exact needed.1
  have report : ∀ {message : String}, (ErrorKind.validity, message) ∈ recoverableDiagnoses →
      Triple holds (p.recoverableValidityError location message) (fun _ => holds) failed :=
    fun listed => watch.reports location validates listed
  have done : Triple holds (pure () : ParserM Unit) (fun _ => holds) failed := triple_pure fun _ here => here
  refine triple_bind (triple_read_bind fun s => triple_ite (fun _ => ?_) fun _ => done) fun _ => ?_
  · exact report (by simp [recoverableDiagnoses])
  refine triple_read_bind fun elements => ?_
  cases lookupKey frame.name elements with
  | none => exact report (by simp [recoverableDiagnoses])
  | some declaration =>
      cases kind : declaration.kind with
      | any => simpa only [kind] using done
      | empty =>
          simp only [kind]
          exact triple_ite (fun _ => report (by simp [recoverableDiagnoses])) fun _ => done
      | pcdata =>
          simp only [kind]
          exact triple_ite (fun _ => report (by simp [recoverableDiagnoses])) fun _ => done
      | children =>
          simp only [kind]
          exact triple_ite (fun _ => report (by simp [recoverableDiagnoses])) fun _ => done

theorem finishValidationFrame (location : SourceLocation) :
    Triple holds (p.finishValidationFrame location) (fun _ => holds) failed := by
  refine triple_read_bind fun stack => triple_bind (watch.topOf stack) fun frame => ?_
  refine triple_bind (watch.modify (fun _ => rfl) fun _ => rfl) fun _ => ?_
  refine triple_bind (watch.validateElement frame location) fun _ => ?_
  exact watch.modify (fun _ => rfl) fun _ => rfl

theorem popElement : Triple holds Parser.popElement (fun _ => holds) failed := by
  refine triple_read_bind fun s => triple_ite (fun _ => ?_) fun _ => watch.modify (fun _ => rfl) fun _ => rfl
  exact triple_throw fun _ here => watch.faults .undefinedBehavior here

theorem parseBody {element : ParserM Unit} (child : Triple holds element (fun _ => holds) failed) (name : Bytes)
    (elementName : QualifiedName) : Triple holds (p.parseBody element name elementName) (fun _ => holds) failed := by
  refine triple_read_bind fun isEmpty => triple_ite (fun _ => ?_) fun _ => ?_
  · exact triple_bind (watch.scan (p.scans_expectSequence _ _)
      (Parser.faults_expectSequence (by simp [expectations]) _)) fun _ => watch.emits _
  · exact triple_bind (watch.scan (p.scans_expect _ _)
      (Parser.faults_expect (by simp [expectations]) _)) fun _ => watch.parseContent child name

theorem parseElement (fuel : Nat) : Triple holds (p.parseElement fuel) (fun _ => holds) failed := by
  induction fuel with
  | zero => exact triple_throw fun _ here => watch.faults .outOfFuel here
  | succ fuel ih =>
      refine triple_read_bind fun start => ?_
      refine triple_bind (watch.quietly (p.quietly_parseTagName start) (Parser.faults_parseTagName start)) fun name => ?_
      refine triple_bind (watch.openElement name start) fun elementName => ?_
      refine triple_bind (watch.parseBody ih name elementName) fun _ => ?_
      exact triple_bind (watch.finishValidationFrame start) fun _ => watch.popElement

theorem untilResolver : Triple holds p.untilResolver (fun _ => holds) failed := by
  refine triple_bind (watch.emits _) fun _ => ?_
  refine triple_bind (watch.scan p.scans_parseXmlDeclarationIfPresent
    Parser.faults_parseXmlDeclarationIfPresent) fun _ => ?_
  refine triple_bind watch.skipMisc fun _ => ?_
  exact watch.quietly p.quietly_readDoctypeIfPresent Parser.faults_readDoctypeIfPresent

theorem behindResolver : Triple holds p.behindResolver (fun _ => holds) failed := by
  refine triple_bind watch.skipMisc fun _ => triple_read_bind fun size => ?_
  refine triple_bind (watch.parseElement (size + 1)) fun _ => triple_bind watch.skipMisc fun _ => ?_
  refine triple_read_bind fun atEnd => triple_ite (fun _ => ?_) fun _ => watch.emits _
  exact watch.failHere (.element (by simp [elementDiagnoses]))

/-- A run from this state: what the resolver throws leaves the state in which it was asked. -/
theorem parse (start : ParserState) (begins : holds start)
    (resolver : ∀ s exception, p.AsksResolver start s → holds s →
      p.options.resolution s.dtd.externalSystemId = .threw exception → failed (.thrown exception) s) :
    Triple (fun s => s = start) p.parse (fun _ => holds) failed := by
  have asked : Triple (fun s => s = start) p.untilResolver
      (fun present s => holds s ∧ (present = true → p.untilResolver.run start = (.ok true, s))) failed := by
    rintro s rfl
    obtain ⟨returned, threw⟩ := watch.untilResolver s begins
    refine ⟨fun present t ran => ⟨returned present t ran, fun isPresent => ?_⟩, threw⟩
    rw [ran, isPresent]
  have resolved : ∀ present : Bool, Triple
      (fun s => holds s ∧ (present = true → p.untilResolver.run start = (.ok true, s)))
      (if present then p.resolveExternalSubsetIfNeeded else pure () : ParserM Unit) (fun _ => holds) failed := by
    rintro (_ | _) s ⟨here, reached⟩
    · exact triple_pure (fun _ => id) s here
    have kept : ∀ {outcome t}, p.resolveExternalSubsetIfNeeded.run s = (outcome, t) → holds t := by
      intro outcome t ran
      have quiet := p.quietly_resolveExternalSubsetIfNeeded.of_run ran
      exact watch.silent quiet.trace quiet.reported here
    refine ⟨fun _ t ran => kept ran, fun halt t ran => ?_⟩
    rcases Parser.resolveExternalSubsetIfNeeded_error ran with fault | ⟨rfl, consults, exception, rfl, answered⟩
    · exact watch.faults fault (kept ran)
    · exact resolver t exception ⟨reached rfl, consults⟩ here answered
  rw [p.parse_eq]
  exact triple_bind asked fun present => triple_bind (resolved present) fun _ => watch.behindResolver

end Members

end Watch

/-! ## The errors of a run -/

/-- The exceptions of the client's code that are passed on as they are: what the last call of
the handler, of the error handler or of the resolver in the run threw. -/
inductive PassedOn (p : Parser) (start final : ParserState) (exception : Exception) : Prop where
  | handler (called : final.events ≠ []) (answered : p.handler.respond final.events = some exception)
  | errorHandler {handle : List XmlParseException → Option Exception}
      (isHandler : p.options.recoverableErrorHandler = some handle) (called : final.reported ≠ [])
      (answered : handle final.reported = some exception)
  | resolver (called : p.AsksResolver start final)
      (answered : p.options.resolution final.dtd.externalSystemId = .threw exception)

/-- All errors reported so far are recoverable ones of a validating parse. -/
def ReportsListed (options : ParserOptions) (s : ParserState) : Prop :=
  ∀ error ∈ s.reported, options.validation = .dtd ∧ error.diagnosis ∈ recoverableDiagnoses

/-- What a throw leaves behind. -/
def Explained (p : Parser) (start : ParserState) (halt : Halt) (s : ParserState) : Prop :=
  ReportsListed p.options s ∧
    (p.Faults halt ∨ ∃ exception, halt = .thrown exception ∧ PassedOn p start s exception)

theorem watch_reports (p : Parser) (start : ParserState) :
    Watch p (ReportsListed p.options) (Explained p start) where
  silent {s t} trace reported listed := by
    unfold ReportsListed
    rw [reported]
    exact listed
  faults fault listed := ⟨listed, .inl fault⟩
  emits event := by
    have delivered : Triple (ReportsListed p.options) (Comp.modify (ParserState.deliver event) : ParserM Unit)
        (fun _ s => ReportsListed p.options s ∧ s.events ≠ []) (Explained p start) :=
      triple_modify fun s listed => ⟨listed, by simp [ParserState.events, ParserState.deliver]⟩
    refine triple_bind delivered fun _ => triple_read_bind_of_eq fun answer => ?_
    cases answer with
    | none => exact triple_pure fun _ here => here.1.1
    | some exception =>
        exact triple_throw fun _ here => ⟨here.1.1, .inr ⟨exception, rfl, .handler here.1.2 here.2⟩⟩
  reports location message validates member := by
    unfold Parser.recoverableValidityError
    cases handler : p.options.recoverableErrorHandler with
    | none =>
        exact triple_throw fun _ listed =>
          ⟨listed, .inl (.diagnosed location (.recoverable validates handler member))⟩
    | some handle =>
        have reported : Triple (ReportsListed p.options) (Comp.modify fun s =>
            { s with reported := s.reported ++ [⟨.validity, location, message⟩] } : ParserM Unit)
            (fun _ s => ReportsListed p.options s ∧ s.reported ≠ []) (Explained p start) := by
          refine triple_modify fun s listed => ⟨fun error isReported => ?_, by simp⟩
          rcases List.mem_append.mp isReported with old | new
          · exact listed error old
          · rw [List.mem_singleton.mp new]
            exact ⟨validates, member⟩
        refine triple_bind reported fun _ => triple_read_bind_of_eq fun answer => ?_
        cases answer with
        | none => exact triple_pure fun _ here => here.1.1
        | some exception =>
            exact triple_throw fun _ here =>
              ⟨here.1.1, .inr ⟨exception, rfl, .errorHandler handler here.1.2 here.2⟩⟩

/-- Every error is one that a call of the client's code has thrown, or has one of the
listed texts with its kind; those that are reported are recoverable ones. -/
theorem errors_diagnosed (xml : Bytes) (handler : SaxHandler) (options : ParserOptions) :
    let outcome := parseXmlDocument xml handler options
    (∀ halt, outcome.1 = .error halt → ∃ exception, halt = .thrown exception ∧
      match decodeDocument xml options with
      | .error _ => ∃ error, exception = .xmlParse error ∧ Undecodable xml options error.diagnosis
      | .ok document =>
          PassedOn ⟨handler, options, document.endLocation⟩ { rest := document.chars } outcome.2 exception ∨
            ∃ error, exception = .xmlParse error ∧ Diagnosed options error.diagnosis) ∧
    ∀ error ∈ outcome.2.reported, options.validation = .dtd ∧ error.diagnosis ∈ recoverableDiagnoses := by
  dsimp only
  cases decoded : decodeDocument xml options with
  | error error =>
      rw [parseXmlDocument_of_error decoded handler]
      refine ⟨fun halt ended => ?_, by simp⟩
      cases ended
      exact ⟨_, rfl, error, rfl, undecodable_of_error decoded⟩
  | ok document =>
      have thrown : ∀ halt, (parseXmlDocument xml handler options).1 = .error halt → halt.IsThrown :=
        fun halt ended => isThrown_of_parseXmlDocument ended
      rw [parseXmlDocument_of_ok decoded handler] at thrown ⊢
      let p : Parser := ⟨handler, options, document.endLocation⟩
      let start : ParserState := { rest := document.chars }
      have begins : ReportsListed options start := by
        intro error member
        cases member
      obtain ⟨returned, threw⟩ := (watch_reports p start).parse start begins
        (fun s exception called listed answered => ⟨listed, .inr ⟨exception, rfl, .resolver called answered⟩⟩) start rfl
      refine ⟨fun halt ended => ?_, ?_⟩
      · obtain ⟨exception, rfl⟩ := thrown halt ended
        refine ⟨exception, rfl, ?_⟩
        rcases (threw _ _ (Prod.ext ended rfl)).2 with fault | ⟨other, same, passed⟩
        · cases fault with
          | diagnosed location diagnosed => exact .inr ⟨_, rfl, diagnosed⟩
        · cases same
          exact .inl passed
      · cases ran : p.parse.run start with
        | mk outcome final =>
            cases outcome with
            | ok value => exact returned value final ran
            | error halt => exact (threw halt final ran).1

end XmlParser
