import XmlParser.Library.Agreement
import XmlParser.Library.Triple
import XmlParser.Progress
import XmlParser.Reconfiguring

/-! What a parse asks of the client's resolver: at most one question, about the system
identifier of the document, and nothing in a parse that does not validate. -/

set_option autoImplicit false

namespace XmlParser

open XmlParser.Computation Comp

/-! ## The options about external subsets -/

def ParserOptions.withExternal (options : ParserOptions) (external : ExternalOptions) : ParserOptions :=
  options.reconfigured external options.namespaces

/-- What a system identifier is resolved to. -/
inductive Resolution where
  | disabled
  | threw (exception : Exception)
  | tooLong
  | text (subset : Bytes)

def ParserOptions.resolution (options : ParserOptions) (systemId : Bytes) : Resolution :=
  match options.allowExternalDtd, options.externalDtdResolver with
  | true, some resolve =>
      match resolve systemId with
      | .error exception => .threw exception
      | .ok subset => if subset.length > options.maxExternalSubsetBytes then .tooLong else .text subset
  | _, _ => .disabled

/-- The document has an external subset that a validating parse asks for. -/
def Consults (options : ParserOptions) (dtd : DtdState) : Prop :=
  options.validation = .dtd ∧ dtd.hasExternalSubset = true

/-- The second options resolve as the first ones wherever the first ones are consulted. -/
def ResolvesAlike (options : ParserOptions) (external : ExternalOptions) (s : ParserState) : Prop :=
  Consults options s.dtd →
    (options.withExternal external).resolution s.dtd.externalSystemId = options.resolution s.dtd.externalSystemId

namespace Parser

abbrev withExternal (p : Parser) (external : ExternalOptions) : Parser := p.reconfigured external p.options.namespaces

/-- What is done with a resolution. -/
def useResolution (p : Parser) : Resolution → ParserM Unit
  | .disabled => p.failHere .validity "external DTD resolution is disabled"
  | .threw exception => Comp.throw (.thrown exception)
  | .tooLong => p.failHere .resourceLimit "external DTD subset exceeds max_external_subset_bytes"
  | .text subset => p.parseExternalSubsetText subset

variable (p : Parser) (external : ExternalOptions)

theorem resolveExternalSubsetIfNeeded_eq :
    p.resolveExternalSubsetIfNeeded = Comp.read ParserState.dtd >>= fun dtd =>
      if !dtd.hasExternalSubset || p.options.validation != .dtd then pure ()
      else p.useResolution (p.options.resolution dtd.externalSystemId) := by
  unfold resolveExternalSubsetIfNeeded ParserOptions.resolution
  refine congrArg _ (funext fun dtd => ?_)
  split
  · rfl
  · cases p.options.allowExternalDtd with
    | false => rfl
    | true =>
        cases p.options.externalDtdResolver with
        | none => rfl
        | some resolve =>
            cases asked : resolve dtd.externalSystemId with
            | error exception => simp only [asked, useResolution]
            | ok subset =>
                simp only [asked]
                split
                · rfl
                · rfl

/-! ## Members that resolve nothing -/

theorem withExternal_useResolution : (p.withExternal external).useResolution = p.useResolution := by
  funext resolution
  cases resolution with
  | text subset =>
      unfold useResolution
      rw [reconfigured_parseExternalSubsetText]
  | _ => rfl

theorem withExternal_attributeViews {σ : Type} (scopes : List NamespaceScope) (attributes : List RawAttribute) :
    (p.withExternal external).attributeViews (σ := σ) scopes attributes = p.attributeViews scopes attributes := by
  induction attributes with
  | nil => rfl
  | cons raw attributes ih =>
      funext seen
      unfold attributeViews
      rw [ih]
      rfl

theorem withExternal_openElement : (p.withExternal external).openElement = p.openElement := by
  funext name start
  unfold openElement
  rw [reconfigured_parseAttributes, reconfigured_emit]
  simp only [withExternal_attributeViews]
  rfl

theorem withExternal_parseElement (fuel : Nat) :
    (p.withExternal external).parseElement fuel = p.parseElement fuel := by
  induction fuel with
  | zero => rfl
  | succ fuel ih =>
      unfold parseElement parseBody
      rw [ih, withExternal_openElement, reconfigured_parseContent, reconfigured_expect, reconfigured_expectSequence,
        reconfigured_emit]
      rfl

/-! ## Members behind the document type declaration -/

variable {p}

/-- The declarations stay as they are, however the member ends. -/
abbrev KeepsDtd {α : Type} (source : ParserM α) : Prop :=
  ∀ dtd, Triple (fun s : ParserState => s.dtd = dtd) source (fun _ s => s.dtd = dtd) fun _ s => s.dtd = dtd

theorem keepsDtd_pure {α : Type} (value : α) : KeepsDtd (pure value) := fun _ => triple_pure fun _ same => same

theorem keepsDtd_throw {α : Type} (halt : Halt) : KeepsDtd (Comp.throw halt : ParserM α) :=
  fun _ => triple_throw fun _ same => same

theorem keepsDtd_modify {update : ParserState → ParserState} (same : ∀ s, (update s).dtd = s.dtd) :
    KeepsDtd (Comp.modify update) := fun _ => triple_modify fun s isDtd => (same s).trans isDtd

theorem keepsDtd_onPart {σ α : Type} {view : ParserState → σ} {update : σ → ParserState → ParserState}
    (source : Comp σ Halt α) (same : ∀ part s, (update part s).dtd = s.dtd) :
    KeepsDtd (Comp.onPart view update source) := by
  intro dtd s isDtd
  refine ⟨fun value t ran => ?_, fun halt t ran => ?_⟩
  all_goals
    obtain ⟨part, _, rfl⟩ := run_onPart_eq_iff.mp ran
    exact (same part s).trans isDtd

theorem keepsDtd_scan {α : Type} (source : Cursor α) : KeepsDtd (scan source) := by
  unfold scan
  exact keepsDtd_onPart source fun _ _ => rfl

theorem keepsDtd_bind {α β : Type} {source : ParserM α} {continuation : α → ParserM β} (first : KeepsDtd source)
    (second : ∀ value, KeepsDtd (continuation value)) : KeepsDtd (source >>= continuation) :=
  fun dtd => triple_bind (first dtd) fun value => second value dtd

theorem keepsDtd_read_bind {α β : Type} {view : ParserState → α} {continuation : α → ParserM β}
    (second : ∀ value, KeepsDtd (continuation value)) : KeepsDtd (Comp.read view >>= continuation) :=
  fun dtd => triple_read_bind fun value => second value dtd

theorem keepsDtd_ite {α : Type} {condition : Prop} [Decidable condition] {first second : ParserM α}
    (holds : KeepsDtd first) (fails : KeepsDtd second) : KeepsDtd (if condition then first else second) :=
  fun dtd => triple_ite (fun _ => holds dtd) fun _ => fails dtd

theorem keepsDtd_loop {β γ : Type} {size : β → ParserState → Nat} {body : β → ParserM (LoopStep β γ)}
    (round : ∀ current, KeepsDtd (body current)) (start : β) : KeepsDtd (loop size .outOfFuel body start) := by
  intro dtd
  refine triple_loop (fun _ (s : ParserState) => s.dtd = dtd) (fun current => ?_) (fun _ _ same => same) start
  refine (round current dtd).imp (fun _ same => same) (fun step _ same => ?_) fun _ _ same => same
  cases step with
  | next following => exact same
  | done result => exact same

theorem keepsDtd_emit (event : Event) : KeepsDtd (p.emit event) := by
  have delivers : KeepsDtd (Comp.modify (ParserState.deliver event)) := keepsDtd_modify fun _ => rfl
  refine keepsDtd_bind delivers fun _ => keepsDtd_read_bind fun answer => ?_
  cases answer with
  | none => exact keepsDtd_pure ()
  | some exception => exact keepsDtd_throw _

theorem keepsDtd_failHere {α : Type} (kind : ErrorKind) (message : String) :
    KeepsDtd (p.failHere kind message : ParserM α) := keepsDtd_read_bind fun _ => keepsDtd_throw _

theorem keepsDtd_parseComment : KeepsDtd p.parseComment := keepsDtd_bind (keepsDtd_scan _) fun _ => keepsDtd_emit _

theorem keepsDtd_parseProcessingInstruction : KeepsDtd p.parseProcessingInstruction :=
  keepsDtd_bind (keepsDtd_scan _) fun _ => keepsDtd_emit _

theorem keepsDtd_parseCdata : KeepsDtd p.parseCdata := keepsDtd_bind (keepsDtd_scan _) fun _ => keepsDtd_emit _

theorem keepsDtd_step {α β γ : Type} {source : ParserM α} {step : LoopStep β γ} (keeps : KeepsDtd source) :
    KeepsDtd (source >>= fun _ => pure step) := keepsDtd_bind keeps fun _ => keepsDtd_pure step

theorem keepsDtd_skipMisc : KeepsDtd p.skipMisc := by
  refine keepsDtd_loop (fun _ => ?_) ()
  refine keepsDtd_read_bind fun before => keepsDtd_bind (keepsDtd_scan _) fun _ => keepsDtd_read_bind fun consumed => ?_
  refine keepsDtd_read_bind fun comment => keepsDtd_ite (keepsDtd_step keepsDtd_parseComment) ?_
  refine keepsDtd_read_bind fun instruction => keepsDtd_ite (keepsDtd_step keepsDtd_parseProcessingInstruction) ?_
  exact keepsDtd_ite (keepsDtd_pure _) (keepsDtd_pure _)

theorem keepsDtd_takePiece (text : Bytes) : KeepsDtd (p.takePiece text) := by
  have counts : ∀ {α : Type} (source : Comp Nat Halt α), KeepsDtd (counting source) := by
    intro α source
    unfold counting
    exact keepsDtd_onPart source fun _ _ => rfl
  have reference : KeepsDtd p.parseReference := by
    refine keepsDtd_read_bind fun start => keepsDtd_bind (keepsDtd_scan _) fun _ => keepsDtd_bind (counts _) fun _ => ?_
    refine keepsDtd_bind (keepsDtd_scan _) fun name => keepsDtd_bind (keepsDtd_scan _) fun _ => ?_
    exact keepsDtd_read_bind fun entities => counts _
  refine keepsDtd_read_bind fun next => keepsDtd_ite ?_ (keepsDtd_scan _)
  exact keepsDtd_bind reference fun _ => keepsDtd_pure _

theorem keepsDtd_enforceTokenSize (size : Nat) (start : SourceLocation) :
    KeepsDtd (p.enforceTokenSize size start) := keepsDtd_ite (keepsDtd_throw _) (keepsDtd_pure _)

theorem keepsDtd_parseText : KeepsDtd p.parseText := by
  refine keepsDtd_read_bind fun start => keepsDtd_bind (keepsDtd_loop (fun text => ?_) []) fun text => ?_
  · refine keepsDtd_read_bind fun _ => keepsDtd_read_bind fun _ => keepsDtd_ite (keepsDtd_pure _) ?_
    exact keepsDtd_bind (keepsDtd_takePiece _) fun _ => keepsDtd_bind (keepsDtd_enforceTokenSize _ _) fun _ => keepsDtd_pure _
  · refine keepsDtd_ite (keepsDtd_pure _) (keepsDtd_bind (keepsDtd_modify fun s => ?_) fun _ => keepsDtd_emit _)
    split
    · rfl
    · rfl

theorem keepsDtd_parseAttributes : KeepsDtd p.parseAttributes := by
  have values : ∀ start quote, KeepsDtd (loop (fun _ (s : ParserState) => s.rest.length) .outOfFuel
      (p.attributeValueRound start quote) []) := by
    intro start quote
    refine keepsDtd_loop (fun value => ?_) []
    refine keepsDtd_read_bind fun _ => keepsDtd_read_bind fun _ => ?_
    refine keepsDtd_ite (keepsDtd_bind (keepsDtd_scan _) fun _ => keepsDtd_pure _) (keepsDtd_read_bind fun _ => ?_)
    refine keepsDtd_ite (keepsDtd_failHere _ _) (keepsDtd_bind (keepsDtd_takePiece _) fun _ => ?_)
    exact keepsDtd_bind (keepsDtd_enforceTokenSize _ _) fun _ => keepsDtd_pure _
  have value : KeepsDtd p.parseAttributeValue := by
    refine keepsDtd_read_bind fun start => keepsDtd_read_bind fun quote => keepsDtd_ite (keepsDtd_failHere _ _) ?_
    exact keepsDtd_bind (keepsDtd_scan _) fun _ => values start quote
  refine keepsDtd_loop (fun attributes => ?_) []
  refine keepsDtd_bind (keepsDtd_scan _) fun _ => keepsDtd_read_bind fun _ => keepsDtd_read_bind fun _ => ?_
  refine keepsDtd_ite (keepsDtd_pure _) (keepsDtd_read_bind fun location => ?_)
  refine keepsDtd_bind (keepsDtd_scan _) fun name => keepsDtd_ite (keepsDtd_failHere _ _) ?_
  refine keepsDtd_ite (keepsDtd_failHere _ _) (keepsDtd_bind (keepsDtd_scan _) fun _ => ?_)
  refine keepsDtd_bind (keepsDtd_scan _) fun _ => keepsDtd_bind (keepsDtd_scan _) fun _ => ?_
  exact keepsDtd_bind value fun _ => keepsDtd_pure _

theorem keepsDtd_openElement (name : Bytes) (start : SourceLocation) : KeepsDtd (p.openElement name start) := by
  have named : ∀ {α : Type} {source : ParserM α}, Obeys Eq (fun _ => True) source → KeepsDtd source := by
    intro α source still dtd s isDtd
    have same := (still s).1
    refine ⟨fun value t ran => ?_, fun halt t ran => ?_⟩
    all_goals
      rw [ran] at same
      cases same
      exact isDtd
  have anything : ∀ {α : Type} {source : ParserM α}, Obeys Eq Halt.IsThrown source → Obeys Eq (fun _ => True) source :=
    fun obeys => Obeys.mono obeys (fun _ _ => id) fun _ _ => trivial
  refine keepsDtd_bind keepsDtd_parseAttributes fun attributes => ?_
  refine keepsDtd_bind (keepsDtd_modify fun _ => rfl) fun _ => keepsDtd_read_bind fun scopes => ?_
  refine keepsDtd_bind (named (anything (p.obeys_resolveName scopes name true start))) fun elementName => ?_
  refine keepsDtd_bind (named (anything (p.obeys_attributeViews scopes attributes []))) fun views => ?_
  refine keepsDtd_bind (keepsDtd_modify fun _ => rfl) fun _ => keepsDtd_bind (keepsDtd_emit _) fun _ => keepsDtd_pure _

theorem keepsDtd_topOf {α : Type} (stack : List α) : KeepsDtd (topOf stack) := by
  cases stack with
  | nil => exact keepsDtd_throw _
  | cons top others => exact keepsDtd_pure top

theorem keepsDtd_finishValidationFrame (location : SourceLocation) :
    KeepsDtd (p.finishValidationFrame location) := by
  have reports : ∀ message, KeepsDtd (p.recoverableValidityError location message) := by
    intro message
    unfold recoverableValidityError
    cases p.options.recoverableErrorHandler with
    | none => exact keepsDtd_throw _
    | some handle =>
        refine keepsDtd_bind (keepsDtd_modify fun _ => rfl) fun _ => keepsDtd_read_bind fun answer => ?_
        cases answer with
        | none => exact keepsDtd_pure ()
        | some exception => exact keepsDtd_throw _
  have validates : ∀ frame, KeepsDtd (p.validateElement frame location) := by
    intro frame
    refine keepsDtd_read_bind fun s => keepsDtd_ite (keepsDtd_pure _) (keepsDtd_bind ?_ fun _ => ?_)
    · exact keepsDtd_read_bind fun _ => keepsDtd_ite (reports _) (keepsDtd_pure _)
    refine keepsDtd_read_bind fun elements => ?_
    cases lookupKey frame.name elements with
    | none => exact reports _
    | some declaration =>
        cases kind : declaration.kind with
        | any => simpa only [kind] using keepsDtd_pure ()
        | empty => simpa only [kind] using keepsDtd_ite (reports _) (keepsDtd_pure _)
        | pcdata => simpa only [kind] using keepsDtd_ite (reports _) (keepsDtd_pure _)
        | children => simpa only [kind] using keepsDtd_ite (reports _) (keepsDtd_pure _)
  refine keepsDtd_read_bind fun stack => keepsDtd_bind (keepsDtd_topOf stack) fun frame => ?_
  refine keepsDtd_bind (keepsDtd_modify fun _ => rfl) fun _ => ?_
  exact keepsDtd_bind (validates frame) fun _ => keepsDtd_modify fun _ => rfl

theorem keepsDtd_parseContent {element : ParserM Unit} (child : KeepsDtd element) (openName : Bytes) :
    KeepsDtd (p.parseContent element openName) := by
  have endTag : KeepsDtd (p.parseEndTag openName) := by
    refine keepsDtd_read_bind fun _ => keepsDtd_bind (keepsDtd_scan _) fun _ => keepsDtd_bind (keepsDtd_scan _) fun _ => ?_
    refine keepsDtd_bind (keepsDtd_scan _) fun _ => keepsDtd_bind (keepsDtd_scan _) fun _ => ?_
    refine keepsDtd_ite (keepsDtd_throw _) (keepsDtd_read_bind fun stack => ?_)
    exact keepsDtd_bind (keepsDtd_topOf stack) fun _ => keepsDtd_emit _
  refine keepsDtd_loop (fun _ => ?_) ()
  refine keepsDtd_read_bind fun _ => keepsDtd_ite (keepsDtd_failHere _ _) (keepsDtd_read_bind fun _ => ?_)
  refine keepsDtd_ite (keepsDtd_step endTag) (keepsDtd_read_bind fun _ => ?_)
  refine keepsDtd_ite (keepsDtd_step keepsDtd_parseComment) (keepsDtd_read_bind fun _ => ?_)
  refine keepsDtd_ite (keepsDtd_step keepsDtd_parseCdata) (keepsDtd_read_bind fun _ => ?_)
  refine keepsDtd_ite (keepsDtd_step keepsDtd_parseProcessingInstruction) (keepsDtd_read_bind fun _ => ?_)
  exact keepsDtd_ite (keepsDtd_step child) (keepsDtd_step keepsDtd_parseText)

theorem keepsDtd_parseElement (fuel : Nat) : KeepsDtd (p.parseElement fuel) := by
  induction fuel with
  | zero => exact keepsDtd_throw _
  | succ fuel ih =>
      have name : ∀ start, KeepsDtd (p.parseTagName start) := by
        intro start
        refine keepsDtd_bind (keepsDtd_scan _) fun _ => keepsDtd_read_bind fun _ => keepsDtd_ite (keepsDtd_throw _) ?_
        refine keepsDtd_bind (keepsDtd_scan _) fun _ => keepsDtd_read_bind fun _ => ?_
        exact keepsDtd_ite (keepsDtd_throw _) (keepsDtd_pure _)
      have pop : KeepsDtd popElement :=
        keepsDtd_read_bind fun _ => keepsDtd_ite (keepsDtd_throw _) (keepsDtd_modify fun _ => rfl)
      have body : ∀ name elementName, KeepsDtd (p.parseBody (p.parseElement fuel) name elementName) := by
        intro name elementName
        refine keepsDtd_read_bind fun _ => keepsDtd_ite ?_ ?_
        · exact keepsDtd_bind (keepsDtd_scan _) fun _ => keepsDtd_emit _
        · exact keepsDtd_bind (keepsDtd_scan _) fun _ => keepsDtd_parseContent ih name
      refine keepsDtd_read_bind fun start => keepsDtd_bind (name start) fun name => ?_
      refine keepsDtd_bind (keepsDtd_openElement name start) fun elementName => ?_
      exact keepsDtd_bind (body name elementName) fun _ =>
        keepsDtd_bind (keepsDtd_finishValidationFrame start) fun _ => pop

/-! ## What was asked -/

/-- The external identifier stays when declarations are added. -/
structure SameIdentifier (s t : ParserState) : Prop where
  hasExternalSubset : t.dtd.hasExternalSubset = s.dtd.hasExternalSubset
  externalSystemId : t.dtd.externalSystemId = s.dtd.externalSystemId

theorem SameIdentifier.reflects {options : ParserOptions} {external : ExternalOptions} {s t : ParserState}
    (same : SameIdentifier s t) (alike : ResolvesAlike options external t) : ResolvesAlike options external s := by
  intro consults
  have asked := alike ⟨consults.1, same.hasExternalSubset.trans consults.2⟩
  rwa [same.externalSystemId] at asked

theorem reflects_of_keepsDtd {options : ParserOptions} {external : ExternalOptions} {α : Type} {source : ParserM α}
    (keeps : KeepsDtd source) : Reflects (ResolvesAlike options external) source := by
  intro s alike
  obtain ⟨returns, throws⟩ := keeps s.dtd s rfl
  have same : (source.run s).2.dtd = s.dtd := by
    cases ran : source.run s with
    | mk outcome t =>
        cases outcome with
        | ok value => exact returns value t ran
        | error halt => exact throws halt t ran
  exact SameIdentifier.reflects ⟨congrArg _ same, congrArg _ same⟩ alike

instance : Std.Refl SameIdentifier := ⟨fun _ => ⟨rfl, rfl⟩⟩

instance : IsTrans ParserState SameIdentifier :=
  ⟨fun _ _ _ first second =>
    ⟨second.hasExternalSubset.trans first.hasExternalSubset, second.externalSystemId.trans first.externalSystemId⟩⟩

theorem obeys_useResolution (resolution : Resolution) :
    Obeys SameIdentifier (fun _ => True) (p.useResolution resolution) := by
  have fails : ∀ {α : Type} (kind : ErrorKind) (message : String),
      Obeys SameIdentifier (fun _ => True) (p.failHere kind message : ParserM α) :=
    fun _ _ => obeys_bind (obeys_read _) fun _ => obeys_throw trivial
  have declares : ∀ name model location,
      Obeys SameIdentifier (fun _ => True) (declareElement name model location) := by
    intro name model location
    refine obeys_bind (obeys_read _) fun _ => obeys_ite (fun _ => obeys_throw trivial) fun _ => ?_
    refine obeys_bind ?_ fun _ => obeys_modify fun _ => ⟨rfl, rfl⟩
    refine obeys_ite (fun _ => obeys_pure _) fun _ => obeys_ite (fun _ => obeys_pure _) fun _ => ?_
    refine obeys_ite (fun _ => obeys_pure _) fun _ => obeys_ite (fun _ => obeys_pure _) fun _ => obeys_throw trivial
  have limit : Obeys SameIdentifier (fun _ => True) p.enforceDtdDeclarationLimit := by
    refine obeys_bind (obeys_modify fun _ => ⟨rfl, rfl⟩) fun _ => obeys_bind (obeys_read _) fun _ => ?_
    exact obeys_ite (fun _ => fails _ _) fun _ => obeys_pure _
  have declaration : ∀ text, Obeys SameIdentifier (fun _ => True) (p.parseExternalElementDeclaration text) := by
    intro text
    refine obeys_bind limit fun _ => obeys_ite (fun _ => fails _ _) fun _ => ?_
    exact obeys_bind (obeys_read _) fun _ => declares _ _ _
  cases resolution with
  | disabled => exact fails _ _
  | threw exception => exact obeys_throw trivial
  | tooLong => exact fails _ _
  | text subset =>
      refine obeys_loop p.externalSubsetRound_shrinks (fun rest => ?_) subset
      refine obeys_ite (fun _ => obeys_pure _) fun _ => obeys_ite (fun _ => ?_) fun _ => fails _ _
      refine obeys_ite (fun _ => fails _ _) fun _ => obeys_bind (declaration _) fun _ => obeys_pure _

variable {external : ExternalOptions}

theorem agrees_resolveExternalSubsetIfNeeded : AgreesWhere (ResolvesAlike p.options external)
    p.resolveExternalSubsetIfNeeded (p.withExternal external).resolveExternalSubsetIfNeeded := by
  intro s alike
  rw [resolveExternalSubsetIfNeeded_eq] at alike ⊢
  rw [resolveExternalSubsetIfNeeded_eq, run_read_bind, run_read_bind]
  rw [run_read_bind] at alike
  have validation : (p.withExternal external).options.validation = p.options.validation := rfl
  rw [validation]
  split
  · rfl
  · rename_i consulted
    rw [if_neg consulted] at alike
    have asked := (obeys_useResolution (p.options.resolution s.dtd.externalSystemId) s).1.reflects alike
    simp only [Bool.or_eq_true, not_or, Bool.not_eq_true', bne_iff_ne, ne_eq, not_not, Bool.not_eq_false] at consulted
    have same : (p.withExternal external).options.resolution s.dtd.externalSystemId =
        p.options.resolution s.dtd.externalSystemId := asked ⟨consulted.2, consulted.1⟩
    rw [same, withExternal_useResolution]

theorem agrees_parseDoctypeIfPresent : AgreesWhere (ResolvesAlike p.options external)
    p.parseDoctypeIfPresent (p.withExternal external).parseDoctypeIfPresent := by
  refine agreesWhere_read_bind fun present => agreesWhere_ite (fun _ => agreesWhere_of_eq rfl) fun _ => ?_
  refine agreesWhere_bind fun _ => agreesWhere_bind fun _ => agreesWhere_read_bind fun _ => ?_
  refine agreesWhere_ite (fun _ => agreesWhere_of_eq rfl) fun _ => ?_
  rw [reconfigured_skipWhitespace, reconfigured_parseName, reconfigured_parseExternalId,
    reconfigured_parseBracketedSubset, reconfigured_expect]
  refine agreesWhere_bind fun _ => agreesWhere_bind fun name => agreesWhere_bind fun _ => ?_
  refine agreesWhere_bind fun _ => agreesWhere_bind fun _ => agreesWhere_bind fun _ => ?_
  exact agreesWhere_bind fun _ => agrees_resolveExternalSubsetIfNeeded

theorem agrees_parse :
    AgreesWhere (ResolvesAlike p.options external) p.parse (p.withExternal external).parse := by
  unfold parse
  rw [reconfigured_emit, reconfigured_parseXmlDeclarationIfPresent, reconfigured_skipMisc, reconfigured_failHere]
  simp only [withExternal_parseElement]
  refine agreesWhere_bind fun _ => agreesWhere_bind fun _ => agreesWhere_bind fun _ => ?_
  refine agreesWhere_bind_of_reflects agrees_parseDoctypeIfPresent fun _ => reflects_of_keepsDtd ?_
  refine keepsDtd_bind keepsDtd_skipMisc fun _ => keepsDtd_read_bind fun size => ?_
  refine keepsDtd_bind (keepsDtd_parseElement _) fun _ => keepsDtd_bind keepsDtd_skipMisc fun _ => ?_
  exact keepsDtd_read_bind fun _ => keepsDtd_ite (keepsDtd_failHere _ _) (keepsDtd_emit _)

end Parser

/-- The options about external subsets change nothing, in any call or report and at the
end of the run, unless the parse validates, the document has an external identifier, and
this is resolved differently. -/
theorem externalOptions_confined {xml : Bytes} {handler : SaxHandler} {options : ParserOptions}
    {external : ExternalOptions}
    (alike : ResolvesAlike options external (parseXmlDocument xml handler options).2) :
    parseXmlDocument xml handler (options.withExternal external) = parseXmlDocument xml handler options := by
  have decodes : decodeDocument xml (options.withExternal external) = decodeDocument xml options := rfl
  cases decoded : decodeDocument xml options with
  | error error => rw [parseXmlDocument_of_error decoded, parseXmlDocument_of_error (decodes.trans decoded)]
  | ok document =>
      rw [parseXmlDocument_of_ok decoded] at alike ⊢
      rw [parseXmlDocument_of_ok (decodes.trans decoded)]
      exact Parser.agrees_parse (p := ⟨handler, options, document.endLocation⟩) _ alike

/-- A resolver that knows nothing but the one document type that is asked for. -/
theorem externalOptions_confined_sample :
    let xml := ascii "<!DOCTYPE a SYSTEM 's'><a/>"
    let subset := ascii "<!ELEMENT a EMPTY>"
    let options : ParserOptions :=
      { validation := .dtd, allowExternalDtd := true, externalDtdResolver := some fun _ => .ok subset }
    let external : ExternalOptions :=
      ⟨true, some fun systemId => .ok (if systemId == ascii "s" then subset else []), subset.length⟩
    parseXmlDocument xml .recording (options.withExternal external) = parseXmlDocument xml .recording options := by
  intro xml subset options external
  have asked : (parseXmlDocument xml .recording options).2.dtd.externalSystemId = ascii "s" := by decide +kernel
  refine externalOptions_confined fun _ => ?_
  rw [asked]
  rfl

end XmlParser
