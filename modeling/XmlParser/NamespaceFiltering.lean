import XmlParser.NamespaceLayer

/-! Start tags with and without namespaces, and whole runs: the parser with namespaces
is the one without them and the layer behind it. -/

set_option autoImplicit false

namespace XmlParser

open XmlParser.Computation Comp

/-! ## Start tags -/

namespace Parser

variable {p : Parser}

/-- A start tag behind its attributes. -/
def openTag (p : Parser) (name : Bytes) (start : SourceLocation) (raws : List RawAttribute) :
    ParserM QualifiedName := do
  pushScope (p.collectNamespaceDeclarations raws)
  let scopes ← Comp.read ParserState.namespaceScopes
  let elementName ← p.resolveName scopes name true start
  let views ← p.attributeViews scopes raws []
  pushElement name elementName
  p.emit (.startElement elementName views)
  pure elementName

theorem openElement_eq (name : Bytes) (start : SourceLocation) :
    p.openElement name start = p.parseAttributes >>= p.openTag name start := rfl

/-- The state behind the push of a tag, which is the first one of the chain. -/
def entering (mode : NamespaceMode) (chain : List StartTag) (name : Bytes) (s : ParserState) : ParserState :=
  { s with
    namespaceScopes := scopesOf mode chain
    elementStack := name :: s.elementStack
    elementNameStack := nameIn mode chain true name :: s.elementNameStack
    validationStack := { name } :: s.validationStack }

/-- A tag whose names are proper enters the stacks and is delivered. -/
theorem run_openTag (recording : p.handler = .recording) {stack : List StartTag} {name : Bytes}
    {start : SourceLocation} {raws : List RawAttribute} {s : ParserState}
    (inScope : s.namespaceScopes = scopesOf p.options.namespaces stack)
    (named : NamedIn p.options.namespaces (⟨name, raws.map RawAttribute.pair⟩ :: stack)
      ⟨name, raws.map RawAttribute.pair⟩) :
    let chain := ⟨name, raws.map RawAttribute.pair⟩ :: stack
    let elementName := nameIn p.options.namespaces chain true name
    (p.openTag name start raws).run s = (.ok elementName, (entering p.options.namespaces chain name s).deliver
      (.startElement elementName (viewsOf p.options.namespaces chain raws))) := by
  intro chain elementName
  have scopes : p.collectNamespaceDeclarations raws :: s.namespaceScopes = scopesOf p.options.namespaces chain := by
    rw [inScope]
    exact collectNamespaceDeclarations_eq p name raws stack
  let pushed : ParserState := { s with namespaceScopes := scopesOf p.options.namespaces chain }
  have resolved := (@resolveTag_ok_iff p ParserState chain name raws start pushed pushed pushed elementName
    (viewsOf p.options.namespaces chain raws)).mpr ⟨named, rfl, rfl, rfl, rfl⟩
  unfold openTag pushScope
  rw [run_modify_bind, run_read_bind]
  dsimp only
  rw [scopes, run_bind_of_ok resolved.1, run_bind_of_ok resolved.2]
  unfold pushElement
  rw [run_modify_bind, run_bind_of_ok (run_emit recording _ _)]
  rfl

/-- The errors of names that are not proper. -/
def IsRefusal (halt : Halt) : Prop :=
  ∃ error : XmlParseException, halt = .thrown (.xmlParse error) ∧ (error.kind, error.message) ∈ refusals

theorem refuses_failAt {σ α : Type} {kind : ErrorKind} {message : String} (listed : (kind, message) ∈ refusals)
    (location : SourceLocation) : Throws IsRefusal (failAt kind location message : Comp σ Halt α) :=
  throws_throw ⟨⟨kind, location, message⟩, rfl, listed⟩

theorem refuses_resolveName {σ : Type} (scopes : List NamespaceScope) (qname : Bytes) (isElement : Bool)
    (location : SourceLocation) :
    Throws IsRefusal (p.resolveName scopes qname isElement location : Comp σ Halt QualifiedName) := by
  refine throws_ite (fun _ => throws_pure _) fun _ => ?_
  split
  · exact throws_pure _
  · refine throws_ite (fun _ => ?_) fun _ => throws_ite (fun _ => ?_) fun _ => throws_pure _
    · exact refuses_failAt (by simp [refusals]) _
    · exact refuses_failAt (by simp [refusals]) _

theorem refuses_attributeViews {σ : Type} (scopes : List NamespaceScope) (raws : List RawAttribute)
    (seen : List (Bytes × Bytes)) :
    Throws IsRefusal (p.attributeViews scopes raws seen : Comp σ Halt (List AttributeView)) := by
  induction raws generalizing seen with
  | nil => exact throws_pure _
  | cons raw raws ih =>
      refine throws_ite (fun _ => ih seen) fun _ => throws_bind (refuses_resolveName _ _ _ _) fun name => ?_
      refine throws_ite (fun _ => refuses_failAt (by simp [refusals]) _) fun _ => ?_
      exact throws_bind (ih _) fun _ => throws_pure _

/-- A tag whose names are not proper is refused before it is delivered. -/
theorem run_openTag_refused {stack : List StartTag} {name : Bytes} {start : SourceLocation}
    {raws : List RawAttribute} {s : ParserState}
    (inScope : s.namespaceScopes = scopesOf p.options.namespaces stack)
    (improper : ¬ NamedIn p.options.namespaces (⟨name, raws.map RawAttribute.pair⟩ :: stack)
      ⟨name, raws.map RawAttribute.pair⟩) :
    ∃ halt t, IsRefusal halt ∧ (p.openTag name start raws).run s = (.error halt, t) ∧ t.trace = s.trace := by
  have collected := collectNamespaceDeclarations_eq p name raws stack
  rw [← inScope] at collected
  let scopes : List NamespaceScope :=
    scopesOf p.options.namespaces (⟨name, raws.map RawAttribute.pair⟩ :: stack)
  let pushed : ParserState := { s with namespaceScopes := scopes }
  have names : Obeys Eq Halt.IsThrown (p.resolveName scopes name true start : ParserM QualifiedName) :=
    p.obeys_resolveName _ _ _ _
  have attributes : Obeys Eq Halt.IsThrown (p.attributeViews scopes raws [] : ParserM (List AttributeView)) :=
    p.obeys_attributeViews _ _ _
  unfold openTag pushScope
  rw [run_modify_bind, run_read_bind]
  dsimp only
  rw [collected]
  cases resolved : (p.resolveName scopes name true start).run pushed with
  | mk outcome t =>
      obtain rfl : pushed = t := names.of_run resolved
      cases outcome with
      | error halt =>
          refine ⟨halt, pushed, refuses_resolveName _ _ _ _ _ _ _ resolved, ?_, rfl⟩
          rw [run_bind_of_error resolved]
      | ok elementName =>
          cases viewed : (p.attributeViews scopes raws []).run pushed with
          | mk other u =>
              obtain isPushed : pushed = u := attributes.of_run viewed
              cases other with
              | error halt =>
                  refine ⟨halt, u, refuses_attributeViews _ _ _ _ _ _ viewed, ?_, ?_⟩
                  · rw [run_bind_of_ok resolved, run_bind_of_error viewed]
                  · rw [← isPushed]
              | ok views => exact absurd (p.resolveTag_ok_iff.mp ⟨resolved, viewed⟩).1 improper

end Parser

/-! ## What the layer makes of a start tag -/

section Layer

variable {stack : List StartTag} {name : Bytes} {raws : List RawAttribute}

theorem tagOf_disabled (chain : List StartTag) :
    tagOf (nameIn .disabled chain true name) (Parser.viewsOf .disabled chain raws) =
      ⟨name, raws.map RawAttribute.pair⟩ := by
  simp [tagOf, nameIn, Parser.viewsOf, declaresIn, RawAttribute.pair, Function.comp_def]

theorem namedViews_disabled (chain other : List StartTag) :
    namedViews chain (Parser.viewsOf .disabled other raws) = Parser.viewsOf .enabled chain raws := by
  have kept : raws.filter (fun raw => (declaredPrefix raw.name).isNone) =
      raws.filter fun raw => !declaresIn .enabled raw.name := by
    refine List.filter_congr fun raw _ => ?_
    cases declared : declaredPrefix raw.name with
    | none => simp [declaresIn, declared]
    | some pfx => simp [declaresIn, declared]
  simp only [namedViews, Parser.viewsOf, declaresIn, nameIn, List.filter_map, List.map_map, Function.comp_def] at kept ⊢
  simp [kept]

/-- Without namespaces a tag needs only attributes of different names. -/
theorem namedIn_of_distinct (chain : List StartTag) (distinct : (raws.map RawAttribute.name).Nodup) :
    NamedIn .disabled chain ⟨name, raws.map RawAttribute.pair⟩ where
  element := by simp
  attributes := by simp
  expanded := by
    have names : (raws.map RawAttribute.name).map (fun name : Bytes => (([] : Bytes), name)) =
        (attributesIn .disabled chain ⟨name, raws.map RawAttribute.pair⟩).map fun view => view.name.expanded := by
      simp [attributesIn, StartTag.plain, declaresIn, nameIn, QualifiedName.expanded, RawAttribute.pair,
        Function.comp_def]
    rw [← names]
    exact distinct.map fun _ _ same => congrArg Prod.snd same

end Layer

/-! ## Both parsers at a start tag -/

/-- The calls go on behind the tag that has been refused. -/
theorem staysStopped_refused {p : Parser} {α : Type} {source : ParserM α} (wanders : p.Wanders source) :
    StaysStopped Refused source := by
  intro halt s t refused
  obtain ⟨before, event, behind, error, events, proper, improper, resolved, threw, listed⟩ := refused
  obtain ⟨more, grown⟩ := (wanders s).1.trace
  refine ⟨before, event, behind ++ more.map Delivery.event, error, ?_, proper, improper, resolved, threw, listed⟩
  rw [ParserState.events, ← grown, List.map_append]
  change s.events ++ _ = _
  rw [events, List.append_assoc, List.cons_append]

/-- Both push the tag, each under its own names. -/
theorem Layered.entering {stack opened : List StartTag} {s t : ParserState} (layered : Layered stack opened s t)
    {tag : StartTag} {name : Bytes} (isName : tag.name = name) : Layered (tag :: stack) opened
      (Parser.entering .disabled (tag :: stack) name s) (Parser.entering .enabled (tag :: stack) name t) where
  core := by
    have core := layered.core
    simp only [ParserState.core, Parser.entering, ParserState.mk.injEq] at core ⊢
    simp only [core, and_self]
  plainScopes := rfl
  scopes := rfl
  plainNames := by
    subst isName
    exact congrArg (nameIn .disabled (tag :: stack) true tag.name :: ·) layered.plainNames
  names := by
    subst isName
    exact congrArg (nameIn .enabled (tag :: stack) true tag.name :: ·) layered.names
  isOpen := layered.isOpen
  proper := layered.proper
  events := layered.events

/-- Both have entered an element of this name. -/
def Entered (stack : List StartTag) (name : Bytes) (left right : QualifiedName) (s t : ParserState) : Prop :=
  ∃ tag : StartTag, tag.name = name ∧ left = nameIn .disabled (tag :: stack) true name ∧
    right = nameIn .enabled (tag :: stack) true name ∧ Layered (tag :: stack) (tag :: stack) s t

namespace Parser

variable {p : Parser}

/-! The parser without namespaces and the one with them. -/

variable (p) in
abbrev unnamed : Parser := p.reconfigured p.options.external .disabled

variable (p) in
abbrev named : Parser := p.reconfigured p.options.external .enabled

variable {stack : List StartTag} (recording : p.handler = .recording)

include recording

/-- Both enter the element, or the one with namespaces refuses its tag. -/
theorem pairs_openTag {name : Bytes} {raws : List RawAttribute} (distinct : (raws.map RawAttribute.name).Nodup)
    (start : SourceLocation) : Pairs ThrownAlike Refused (Layered stack stack) (p.unnamed.openTag name start raws)
      (p.named.openTag name start raws) (Entered stack name) := by
  intro s t layered
  have plain := @run_openTag p.unnamed recording stack name start raws s layered.plainScopes
    (namedIn_of_distinct (⟨name, raws.map RawAttribute.pair⟩ :: stack) distinct)
  rw [plain]
  let tag : StartTag := ⟨name, raws.map RawAttribute.pair⟩
  let event : Event := .startElement (nameIn .disabled (tag :: stack) true name) (viewsOf .disabled (tag :: stack) raws)
  have shown : tagOf (nameIn .disabled (tag :: stack) true name) (viewsOf .disabled (tag :: stack) raws) = tag :=
    tagOf_disabled (tag :: stack)
  have isProper : ProperIn stack event ↔ NamedIn .enabled (tag :: stack) tag := by
    simp only [ProperIn, event, shown]
  by_cases proper : NamedIn .enabled (tag :: stack) tag
  · rw [@run_openTag p.named recording stack name start raws t layered.scopes proper]
    refine .returned ⟨tag, rfl, rfl, rfl, ?_⟩
    have behind : openBehind stack event = tag :: stack := congrArg (· :: stack) shown
    have resolved : resolveEvent stack event =
        .startElement (nameIn .enabled (tag :: stack) true name) (viewsOf .enabled (tag :: stack) raws) := by
      simp only [resolveEvent, event, shown, namedViews_disabled]
      rfl
    have delivered := (layered.entering (rfl : tag.name = name)).deliver (isProper.mpr proper)
    rw [behind, resolved] at delivered
    exact delivered
  · obtain ⟨halt, final, isRefusal, ran, trace⟩ := @run_openTag_refused p.named stack name start raws t
      layered.scopes proper
    obtain ⟨error, rfl, listed⟩ := isRefusal
    rw [ran]
    refine .stopped ⟨s.events, event, [], error, ?_, layered.proper, ?_, ?_, rfl, listed⟩
    · exact events_deliver _ _
    · rw [layered.isOpen, isProper]
      exact proper
    · rw [ParserState.events, trace]
      exact layered.events

theorem pairs_openElement (name : Bytes) (start : SourceLocation) :
    Pairs ThrownAlike Refused (Layered stack stack) (p.unnamed.openElement name start) (p.named.openElement name start)
      (Entered stack name) := by
  rw [openElement_eq, openElement_eq, reconfigured_parseAttributes, reconfigured_parseAttributes]
  refine pairs_bind (alongside_parseAttributes.and_returns triple_attributeNames fun _ _ _ => trivial) ?_
  intro raws other s t same
  obtain ⟨⟨rfl, layered⟩, distinct⟩ := same
  exact pairs_openTag recording distinct start s t layered

/-! ## Content and elements -/

section Content

variable {tag : StartTag} {element other : ParserM Unit}

/-- One piece of content; `element` and `other` parse a child, each under its own names. -/
theorem pairs_contentRound (child : Pairs ThrownAlike Refused (Layered (tag :: stack) (tag :: stack)) element other
      (Same (tag :: stack) (tag :: stack))) (openName : Bytes) (current : Unit) :
    Pairs ThrownAlike Refused (Layered (tag :: stack) (tag :: stack)) (p.contentRound element openName current)
      (p.contentRound other openName current)
      (RoundsPost (fun _ => Layered (tag :: stack) (tag :: stack)) (Same (tag :: stack) stack)) := by
  have again : ∀ {source : ParserM Unit}, Alongside (tag :: stack) (tag :: stack) source source →
      Pairs ThrownAlike Refused (Layered (tag :: stack) (tag :: stack))
        (source >>= fun _ => pure (.next ()) : ParserM (LoopStep Unit Unit))
        (source >>= fun _ => pure (.next ()) : ParserM (LoopStep Unit Unit))
        (RoundsPost (fun _ => Layered (tag :: stack) (tag :: stack)) (Same (tag :: stack) stack)) :=
    fun alongside => alongside_bind alongside fun _ => pairs_pure fun _ _ layered => ⟨rfl, layered⟩
  have markup : ∀ event : Event, event.isOpening = false → event.isClosing = false →
      Alongside (tag :: stack) (tag :: stack) (p.emit event) (p.emit event) :=
    fun event opens closes => alongside_emit recording opens closes
  refine alongside_read (fun _ => rfl) fun _ => pairs_ite (fun _ => ?_) fun _ => ?_
  · exact alongside_read (fun _ => rfl) fun _ => pairs_throw fun _ _ layered => ⟨_, _, layered⟩
  refine alongside_read (fun _ => rfl) fun _ => pairs_ite (fun _ => ?_) fun _ => ?_
  · exact pairs_bind (pairs_parseEndTag recording tag openName) fun _ _ => pairs_pure fun _ _ same => same
  refine alongside_read (fun _ => rfl) fun _ => pairs_ite (fun _ => ?_) fun _ => ?_
  · exact again (alongside_bind (alongside_scan _) fun _ => markup _ rfl rfl)
  refine alongside_read (fun _ => rfl) fun _ => pairs_ite (fun _ => ?_) fun _ => ?_
  · exact again (alongside_bind (alongside_scan _) fun _ => markup _ rfl rfl)
  refine alongside_read (fun _ => rfl) fun _ => pairs_ite (fun _ => ?_) fun _ => ?_
  · exact again (alongside_bind (alongside_scan _) fun _ => markup _ rfl rfl)
  refine alongside_read (fun _ => rfl) fun _ => pairs_ite (fun _ => ?_) fun _ => again (alongside_parseText recording)
  refine pairs_bind_of_stays child (fun _ => staysStopped_pure _) fun _ _ => pairs_pure fun _ _ same => ?_
  exact ⟨rfl, same.2⟩

theorem pairs_parseContent (child : Pairs ThrownAlike Refused (Layered (tag :: stack) (tag :: stack)) element other
      (Same (tag :: stack) (tag :: stack))) (wanders : p.WandersOn element) (openName : Bytes) :
    Pairs ThrownAlike Refused (Layered (tag :: stack) (tag :: stack)) (p.parseContent element openName)
      (p.parseContent other openName) (Same (tag :: stack) stack) := by
  refine pairs_loop (fun _ => Layered (tag :: stack) (tag :: stack)) (fun s t layered => ?_)
    (fun _ s t layered => ⟨_, _, layered⟩) (fun current => ?_) (pairs_contentRound recording child openName)
  · rw [layered.rest]
  · exact staysStopped_refused (p.contentRound_wandersOn wanders openName current).obeys

end Content

/-- Both are behind an element that is still on their stacks. -/
def Closed (stack : List StartTag) (_ _ : Unit) (s t : ParserState) : Prop :=
  ∃ tag : StartTag, Layered (tag :: stack) stack s t

theorem pairs_parseBody {element other : ParserM Unit}
    (child : ∀ inside, Pairs ThrownAlike Refused (Layered inside inside) element other (Same inside inside))
    (wanders : p.WandersOn element) (name : Bytes) (left right : QualifiedName) :
    Pairs ThrownAlike Refused (Entered stack name left right) (p.unnamed.parseBody element name left)
      (p.named.parseBody other name right) (Closed stack) := by
  intro s t entered
  obtain ⟨tag, rfl, rfl, rfl, layered⟩ := entered
  refine (?_ : Pairs ThrownAlike Refused (Layered (tag :: stack) (tag :: stack)) _ _ (Closed stack)) s t layered
  unfold parseBody
  rw [reconfigured_parseContent, reconfigured_parseContent]
  refine alongside_read (fun _ => rfl) fun _ => pairs_ite (fun _ => ?_) fun _ => ?_
  · refine alongside_bind (alongside_scan _) fun _ => ?_
    intro s t inside
    rw [reconfigured_emit, reconfigured_emit, run_emit recording, run_emit recording]
    exact .returned ⟨tag, layered_deliver_endElement inside⟩
  · refine alongside_bind (alongside_scan _) fun _ => ?_
    refine (pairs_parseContent recording (child (tag :: stack)) wanders tag.name).imp (fun _ _ => id) ?_
    exact fun _ _ _ _ same => ⟨tag, same.2⟩

/-- Elements run side by side until a tag is refused; the induction is on their depth. -/
theorem pairs_parseElement (fuel : Nat) (stack : List StartTag) :
    Pairs ThrownAlike Refused (Layered stack stack) (p.unnamed.parseElement fuel) (p.named.parseElement fuel)
      (Same stack stack) := by
  induction fuel generalizing stack with
  | zero => exact pairs_throw fun _ _ layered => ⟨stack, stack, layered⟩
  | succ fuel ih =>
      have child := p.unnamed.wandersOn_parseElement fuel
      have finish := fun start => p.unnamed.wanders_finishValidationFrame start
      refine alongside_read (fun _ => rfl) fun start => ?_
      refine alongside_bind (alongside_parseTagName start) fun name => ?_
      refine pairs_bind_of_stays (pairs_openElement recording name start) (fun elementName => ?_) fun left right => ?_
      · exact staysStopped_refused (obeys_bind (p.unnamed.wanders_parseBody child name elementName) fun _ =>
          obeys_bind (finish start) fun _ => p.unnamed.wanders_popElement)
      refine pairs_bind_of_stays (pairs_parseBody recording ih child name left right) (fun _ => ?_) fun _ _ => ?_
      · exact staysStopped_refused (obeys_bind (finish start) fun _ => p.unnamed.wanders_popElement)
      intro s t closed
      obtain ⟨tag, layered⟩ := closed
      have ends : Pairs ThrownAlike Refused (Layered (tag :: stack) stack)
          (p.unnamed.finishValidationFrame start >>= fun _ => popElement)
          (p.named.finishValidationFrame start >>= fun _ => popElement) (Same stack stack) :=
        alongside_bind (alongside_finishValidationFrame start) fun _ => (pairs_popElement tag).of_never
      exact ends s t layered

/-! ## The prologue -/

/-- Both are in the same state, outside every element. -/
def Alike (s t : ParserState) : Prop := s = t ∧ Layered [] [] s t

omit recording in
theorem pairs_alike {source : ParserM Unit} (alongside : Alongside [] [] source source) :
    Pairs ThrownAlike NeverStops Alike source source fun _ _ => Alike := by
  intro s t alike
  obtain ⟨rfl, layered⟩ := alike
  have met := alongside s s layered
  generalize source.run s = ran at met ⊢
  obtain ⟨outcome, final⟩ := ran
  cases outcome with
  | ok value =>
      cases met with
      | returned same => exact .returned ⟨rfl, same.2⟩
  | error halt =>
      cases met with
      | threw alike => exact .threw alike
      | stopped early => exact early.elim

omit recording in
/-- A document type declaration calls nothing and opens nothing. -/
theorem pairs_parseDoctypeIfPresent :
    Pairs ThrownAlike NeverStops Alike p.parseDoctypeIfPresent p.parseDoctypeIfPresent fun _ _ => Alike := by
  intro s t alike
  obtain ⟨rfl, layered⟩ := alike
  have quiet := (p.quietly_parseDoctypeIfPresent s).1.toStill
  have events : (p.parseDoctypeIfPresent.run s).2.events = s.events := congrArg (List.map Delivery.event) quiet.trace
  have behind : Layered [] [] (p.parseDoctypeIfPresent.run s).2 (p.parseDoctypeIfPresent.run s).2 :=
    ⟨rfl, quiet.namespaceScopes.trans layered.plainScopes, quiet.namespaceScopes.trans layered.scopes,
      quiet.elementNameStack.trans layered.plainNames, quiet.elementNameStack.trans layered.names,
      events ▸ layered.isOpen, events ▸ layered.proper, events ▸ layered.events⟩
  generalize p.parseDoctypeIfPresent.run s = ran at behind ⊢
  obtain ⟨outcome, final⟩ := ran
  cases outcome with
  | ok value => exact .returned ⟨rfl, behind⟩
  | error halt => exact .threw ⟨[], [], behind⟩

theorem pairs_parse : Pairs ThrownAlike Refused Alike p.unnamed.parse p.named.parse (Same [] []) := by
  unfold parse
  simp only [reconfigured_emit, reconfigured_parseXmlDeclarationIfPresent, reconfigured_skipMisc,
    reconfigured_parseDoctypeIfPresent, reconfigured_failHere]
  refine pairs_bind (pairs_alike (alongside_emit recording rfl rfl)) fun _ _ => ?_
  refine pairs_bind (pairs_alike (alongside_scan _)) fun _ _ => ?_
  refine pairs_bind (pairs_alike (alongside_skipMisc recording)) fun _ _ => ?_
  refine pairs_bind pairs_parseDoctypeIfPresent fun _ _ => ?_
  refine pairs_bind (pairs_alike (alongside_skipMisc recording)) fun _ _ => ?_
  intro s t alike
  refine (?_ : Pairs ThrownAlike Refused (Layered [] []) _ _ (Same [] [])) s t alike.2
  refine alongside_read (fun _ => rfl) fun size => ?_
  refine pairs_bind_of_stays (pairs_parseElement recording _ []) (fun _ => ?_) fun _ _ => ?_
  · have skips : p.Movingly p.skipMisc := obeys_loop_of_advances p.skipMiscRound_movesOn ()
    refine staysStopped_refused (obeys_bind (Movingly.wanders skips) fun _ => ?_)
    refine obeys_bind (obeys_read _) fun _ => obeys_ite (fun _ => ?_) fun _ => Movingly.wanders (p.movingly_emit _)
    exact obeys_bind (obeys_read _) fun _ => obeys_throw trivial
  intro s t same
  have ends : Alongside [] [] (p.skipMisc >>= fun _ => look eof >>= fun ended =>
        if !ended then p.failHere .wellFormedness "extra content after document element" else p.emit .endDocument)
      (p.skipMisc >>= fun _ => look eof >>= fun ended =>
        if !ended then p.failHere .wellFormedness "extra content after document element" else p.emit .endDocument) := by
    refine alongside_bind (alongside_skipMisc recording) fun _ => alongside_read (fun _ => rfl) fun _ => ?_
    exact pairs_ite (fun _ => alongside_failHere _ _) fun _ => alongside_emit recording rfl rfl
  exact ends.of_never s t same.2

end Parser

/-! ## Whole documents -/

/-- A parse with namespaces delivers what the layer makes of the parse without them, up
to the first tag with names that are not proper, and that one it refuses. -/
theorem namespaces_layered (xml : Bytes) (options : ParserOptions) :
    let plain := parseXmlDocument xml .recording { options with namespaces := .disabled }
    let full := parseXmlDocument xml .recording { options with namespaces := .enabled }
    (full.1 = plain.1 ∧ full.2.reported = plain.2.reported ∧ ProperlyNamed [] plain.2.events ∧
      full.2.events = resolveEvents [] plain.2.events) ∨
    ∃ before event behind error, plain.2.events = before ++ event :: behind ∧ ProperlyNamed [] before ∧
      ¬ ProperIn (openAfter [] before) event ∧ full.2.events = resolveEvents [] before ∧
      full.1 = .error (.thrown (.xmlParse error)) ∧ (error.kind, error.message) ∈ refusals := by
  intro plain full
  have decode : ∀ namespaces, decodeDocument xml { options with namespaces } = decodeDocument xml options :=
    fun _ => rfl
  cases decoded : decodeDocument xml options with
  | error error =>
      have without : plain = (.error (.thrown (.xmlParse error)), { rest := [] }) :=
        parseXmlDocument_of_error ((decode _).trans decoded) .recording
      have within : full = (.error (.thrown (.xmlParse error)), { rest := [] }) :=
        parseXmlDocument_of_error ((decode _).trans decoded) .recording
      left
      rw [without, within]
      exact ⟨rfl, rfl, trivial, rfl⟩
  | ok document =>
      let p : Parser := ⟨.recording, options, document.endLocation⟩
      let start : ParserState := { rest := document.chars }
      have without : plain = p.unnamed.parse.run start := parseXmlDocument_of_ok ((decode _).trans decoded) .recording
      have within : full = p.named.parse.run start := parseXmlDocument_of_ok ((decode _).trans decoded) .recording
      have initial : Parser.Alike start start := ⟨rfl, ⟨rfl, rfl, rfl, rfl, rfl, rfl, trivial, rfl⟩⟩
      have met := p.pairs_parse rfl start start initial
      rw [← without, ← within] at met
      generalize plain = source at met ⊢
      generalize full = target at met ⊢
      cases met with
      | returned same =>
          left
          exact ⟨congrArg Except.ok same.1, same.2.view _ fun _ => rfl, same.2.proper, same.2.events⟩
      | threw alike =>
          obtain ⟨stack, opened, layered⟩ := alike
          left
          exact ⟨rfl, layered.view _ fun _ => rfl, layered.proper, layered.events⟩
      | stopped refused =>
          obtain ⟨before, event, behind, error, events, proper, improper, resolved, threw, listed⟩ := refused
          right
          exact ⟨before, event, behind, error, events, proper, improper, resolved, congrArg _ threw, listed⟩

end XmlParser
