import XmlParser.Library.Pairing
import XmlParser.Library.Throwing
import XmlParser.Library.Triple
import XmlParser.Naming
import XmlParser.Progress
import XmlParser.Reconfiguring
import XmlParser.Verdicts

/-! Namespace processing as a layer of its own: what a parse with namespaces delivers is
a function of what the same parse without namespaces delivers. -/

set_option autoImplicit false

namespace XmlParser

open XmlParser.Computation Comp

/-! ## The layer -/

/-- The start tag that an event without namespaces shows. -/
def tagOf (name : QualifiedName) (views : List AttributeView) : StartTag :=
  ⟨name.qualifiedName, views.map fun view => (view.name.qualifiedName, view.value)⟩

/-- The start tags open behind an event, the innermost one first. -/
def openBehind (opened : List StartTag) : Event → List StartTag
  | .startElement name views => tagOf name views :: opened
  | .endElement _ => opened.tail
  | _ => opened

/-- The attributes of a tag that declare nothing, under the names they mean. -/
def namedViews (chain : List StartTag) (views : List AttributeView) : List AttributeView :=
  (views.filter fun view => (declaredPrefix view.name.qualifiedName).isNone).map fun view =>
    { view with name := lexicalName chain false view.name.qualifiedName }

/-- An event with its names resolved inside the open tags. -/
def resolveEvent (opened : List StartTag) : Event → Event
  | .startElement name views =>
      let chain := tagOf name views :: opened
      .startElement (lexicalName chain true name.qualifiedName) (namedViews chain views)
  | .endElement name => .endElement (lexicalName opened true name.qualifiedName)
  | event => event

/-- The names of a start tag are proper inside the open tags. -/
def ProperIn (opened : List StartTag) : Event → Prop
  | .startElement name views => NamedIn .enabled (tagOf name views :: opened) (tagOf name views)
  | _ => True

def openAfter (opened : List StartTag) (events : List Event) : List StartTag := events.foldl openBehind opened

def resolveEvents : List StartTag → List Event → List Event
  | _, [] => []
  | opened, event :: events => resolveEvent opened event :: resolveEvents (openBehind opened event) events

def ProperlyNamed : List StartTag → List Event → Prop
  | _, [] => True
  | opened, event :: events => ProperIn opened event ∧ ProperlyNamed (openBehind opened event) events

theorem openAfter_append (opened : List StartTag) (events others : List Event) :
    openAfter opened (events ++ others) = openAfter (openAfter opened events) others := List.foldl_append

theorem resolveEvents_append (opened : List StartTag) (events others : List Event) :
    resolveEvents opened (events ++ others) =
      resolveEvents opened events ++ resolveEvents (openAfter opened events) others := by
  induction events generalizing opened with
  | nil => rfl
  | cons event events ih => simp [resolveEvents, openAfter, ih]

theorem properlyNamed_append (opened : List StartTag) (events others : List Event) :
    ProperlyNamed opened (events ++ others) ↔
      ProperlyNamed opened events ∧ ProperlyNamed (openAfter opened events) others := by
  induction events generalizing opened with
  | nil => simp [ProperlyNamed, openAfter]
  | cons event events ih => simp [ProperlyNamed, openAfter, ih, and_assoc]

/-! ## Two parsers side by side -/

/-- The names of the elements that are open, under either mode. -/
def stackNames (mode : NamespaceMode) : List StartTag → List QualifiedName
  | [] => []
  | tag :: outer => nameIn mode (tag :: outer) true tag.name :: stackNames mode outer

/-- A state but for what the mode decides. -/
def ParserState.core (s : ParserState) : ParserState :=
  { s with namespaceScopes := [], elementNameStack := [], trace := [] }

/-- A parser without namespaces and one with them at the same point: `stack` are the
tags on their stacks, and `opened` those that the calls have left open. -/
structure Layered (stack opened : List StartTag) (s t : ParserState) : Prop where
  core : t.core = s.core
  plainScopes : s.namespaceScopes = scopesOf .disabled stack
  scopes : t.namespaceScopes = scopesOf .enabled stack
  plainNames : s.elementNameStack = stackNames .disabled stack
  names : t.elementNameStack = stackNames .enabled stack
  isOpen : openAfter [] s.events = opened
  proper : ProperlyNamed [] s.events
  events : t.events = resolveEvents [] s.events

/-- Both have thrown. -/
def ThrownAlike (_ : Halt) (s t : ParserState) : Prop := ∃ stack opened, Layered stack opened s t

/-- How the parser with namespaces refuses a start tag. -/
def refusals : List (ErrorKind × String) :=
  [(.wellFormedness, "invalid namespace-qualified name"), (.wellFormedness, "undeclared namespace prefix"),
    (.wellFormedness, "duplicate expanded attribute name")]

/-- The parser with namespaces has refused a tag that the other one has gone past. -/
def Refused (halt : Halt) (s t : ParserState) : Prop :=
  ∃ before event behind error, s.events = before ++ event :: behind ∧ ProperlyNamed [] before ∧
    ¬ ProperIn (openAfter [] before) event ∧ t.events = resolveEvents [] before ∧
    halt = .thrown (.xmlParse error) ∧ (error.kind, error.message) ∈ refusals

/-- Both return the same, inside the same tags. -/
def Same {α : Type} (stack opened : List StartTag) (left right : α) (s t : ParserState) : Prop :=
  right = left ∧ Layered stack opened s t

namespace Layered

variable {stack opened : List StartTag} {s t : ParserState}

theorem view {α : Type} (layered : Layered stack opened s t) (view : ParserState → α)
    (same : ∀ state, view state = view state.core) : view t = view s := by
  rw [same, same s, layered.core]

theorem rest (layered : Layered stack opened s t) : t.rest = s.rest := layered.view ParserState.rest fun _ => rfl

/-- What the mode has no part in changes alike. -/
theorem update (layered : Layered stack opened s t) (update : ParserState → ParserState)
    (core : ∀ state, (update state).core = update state.core)
    (scopes : ∀ state, (update state).namespaceScopes = state.namespaceScopes)
    (names : ∀ state, (update state).elementNameStack = state.elementNameStack)
    (trace : ∀ state, (update state).trace = state.trace) : Layered stack opened (update s) (update t) where
  core := by rw [core, core, layered.core]
  plainScopes := (scopes s).trans layered.plainScopes
  scopes := (scopes t).trans layered.scopes
  plainNames := (names s).trans layered.plainNames
  names := (names t).trans layered.names
  isOpen := by simpa only [ParserState.events, trace] using layered.isOpen
  proper := by simpa only [ParserState.events, trace] using layered.proper
  events := by simpa only [ParserState.events, trace] using layered.events

theorem deliver (layered : Layered stack opened s t) {event : Event} (proper : ProperIn opened event) :
    Layered stack (openBehind opened event) (s.deliver event) (t.deliver (resolveEvent opened event)) where
  core := layered.core
  plainScopes := layered.plainScopes
  scopes := layered.scopes
  plainNames := layered.plainNames
  names := layered.names
  isOpen := by
    rw [events_deliver, openAfter_append, layered.isOpen]
    rfl
  proper := by
    rw [events_deliver, properlyNamed_append, layered.isOpen]
    exact ⟨layered.proper, proper, trivial⟩
  events := by
    rw [events_deliver, events_deliver, resolveEvents_append, layered.isOpen, layered.events]
    rfl

end Layered

/-! ## Members that do not look at names -/

/-- The members that run alike in both parsers. -/
abbrev Alongside {α : Type} (stack opened : List StartTag) (source target : ParserM α) : Prop :=
  Pairs ThrownAlike NeverStops (Layered stack opened) source target (Same stack opened)

section Members

variable {stack opened : List StartTag}

theorem alongside_pure {α : Type} (value : α) : Alongside stack opened (pure value) (pure value) :=
  pairs_pure fun _ _ layered => ⟨rfl, layered⟩

theorem alongside_throw {α : Type} (halt : Halt) :
    Alongside stack opened (Comp.throw halt : ParserM α) (Comp.throw halt) :=
  pairs_throw fun _ _ layered => ⟨stack, opened, layered⟩

theorem alongside_update {update : ParserState → ParserState} (core : ∀ state, (update state).core = update state.core)
    (scopes : ∀ state, (update state).namespaceScopes = state.namespaceScopes)
    (names : ∀ state, (update state).elementNameStack = state.elementNameStack)
    (trace : ∀ state, (update state).trace = state.trace) :
    Alongside stack opened (Comp.modify update) (Comp.modify update) :=
  pairs_modify fun _ _ layered => ⟨rfl, layered.update update core scopes names trace⟩

theorem alongside_scan {α : Type} (source : Cursor α) : Alongside stack opened (scan source) (scan source) := by
  have moved : ∀ rest s t, Layered stack opened s t → Layered stack opened (s.withRest rest) (t.withRest rest) :=
    fun rest s t layered =>
      layered.update (ParserState.withRest rest) (fun _ => rfl) (fun _ => rfl) (fun _ => rfl) fun _ => rfl
  exact pairs_onPart source (fun _ _ layered => layered.rest) (fun _ part s t layered => ⟨rfl, moved part s t layered⟩)
    fun _ part s t layered => ⟨stack, opened, moved part s t layered⟩

theorem alongside_counting {α : Type} (source : Comp Nat Halt α) :
    Alongside stack opened (Parser.counting source) (Parser.counting source) := by
  have counted : ∀ count s t, Layered stack opened s t →
      Layered stack opened { s with entityExpansions := count } { t with entityExpansions := count } :=
    fun count s t layered => layered.update (fun state => { state with entityExpansions := count })
      (fun _ => rfl) (fun _ => rfl) (fun _ => rfl) fun _ => rfl
  exact pairs_onPart source (fun _ _ layered => layered.view _ fun _ => rfl)
    (fun _ part s t layered => ⟨rfl, counted part s t layered⟩)
    fun _ part s t layered => ⟨stack, opened, counted part s t layered⟩

/-- Two sequences that begin with the same. -/
theorem alongside_bind {α β : Type} {pre : ParserState → ParserState → Prop}
    {stopped : Halt → ParserState → ParserState → Prop} {post : β → β → ParserState → ParserState → Prop}
    {source target : ParserM α} {left right : α → ParserM β}
    (first : Pairs ThrownAlike NeverStops pre source target (Same stack opened))
    (second : ∀ value, Pairs ThrownAlike stopped (Layered stack opened) (left value) (right value) post) :
    Pairs ThrownAlike stopped pre (source >>= left) (target >>= right) post := by
  refine pairs_bind first fun value other s t same => ?_
  obtain ⟨rfl, layered⟩ := same
  exact second _ s t layered

/-- Both read what the mode has no part in. -/
theorem alongside_read {α β γ : Type} {stopped : Halt → ParserState → ParserState → Prop}
    {post : β → γ → ParserState → ParserState → Prop} {view : ParserState → α} {left : α → ParserM β}
    {right : α → ParserM γ} (same : ∀ state, view state = view state.core)
    (rest : ∀ value, Pairs ThrownAlike stopped (Layered stack opened) (left value) (right value) post) :
    Pairs ThrownAlike stopped (Layered stack opened) (Comp.read view >>= left) (Comp.read view >>= right) post :=
  pairs_read_bind_eq (fun _ _ layered => layered.view _ same) rest

/-- Both test what the mode has no part in. -/
theorem alongside_test {α : Type} {test : ParserState → Bool} (same : ∀ state, test state = test state.core)
    {first second other another : ParserM α} (holds : Alongside stack opened first second)
    (fails : Alongside stack opened other another) :
    Alongside stack opened (Comp.read id >>= fun s => if test s = true then first else other)
      (Comp.read id >>= fun s => if test s = true then second else another) := by
  intro s t layered
  have tests : test t = test s := layered.view _ same
  cases decided : test s with
  | true =>
      rw [decided] at tests
      simpa only [run_read_bind, id, decided, tests, if_true] using holds s t layered
  | false =>
      rw [decided] at tests
      simpa only [run_read_bind, id, decided, tests, Bool.false_eq_true, if_false] using fails s t layered

/-- A loop whose rounds run alike. -/
theorem alongside_loop {β γ : Type} {body other : β → ParserM (LoopStep β γ)}
    (round : ∀ current, Alongside stack opened (body current) (other current)) (start : β) :
    Alongside stack opened (loop (fun _ s => s.rest.length) .outOfFuel body start)
      (loop (fun _ s => s.rest.length) .outOfFuel other start) := by
  refine pairs_loop (fun _ => Layered stack opened) (fun s t layered => ?_)
    (fun _ s t layered => ⟨stack, opened, layered⟩) (fun _ => ?_) fun current => ?_
  · rw [layered.rest]
  · exact fun _ _ _ early => early.elim
  · refine (round current).imp (fun _ _ => id) fun left right s t same => ?_
    obtain ⟨rfl, layered⟩ := same
    cases right with
    | next following => exact ⟨rfl, layered⟩
    | done result => exact ⟨rfl, layered⟩

end Members

namespace Parser

variable {p : Parser} {stack opened : List StartTag} (recording : p.handler = .recording)

section Recording

include recording

theorem run_emit (event : Event) (s : ParserState) : (p.emit event).run s = (.ok (), s.deliver event) := by
  rw [p.emit_eq_ok_iff]
  exact ⟨rfl, by rw [recording]; rfl⟩

/-- An event that opens and closes nothing. -/
theorem alongside_emit {event : Event} (opens : event.isOpening = false) (closes : event.isClosing = false) :
    Alongside stack opened (p.emit event) (p.emit event) := by
  intro s t layered
  have proper : ProperIn opened event := by
    cases event <;> simp_all [ProperIn, Event.isOpening]
  have behind : openBehind opened event = opened := by
    cases event <;> simp_all [openBehind, Event.isOpening, Event.isClosing]
  have resolved : resolveEvent opened event = event := by
    cases event <;> simp_all [resolveEvent, Event.isOpening, Event.isClosing]
  have delivered := layered.deliver proper
  rw [behind, resolved] at delivered
  rw [run_emit recording, run_emit recording]
  exact .returned ⟨rfl, delivered⟩

theorem alongside_skipMisc : Alongside stack opened p.skipMisc p.skipMisc := by
  have comments : Alongside stack opened p.parseComment p.parseComment :=
    alongside_bind (alongside_scan _) fun _ => alongside_emit recording rfl rfl
  have instructions : Alongside stack opened p.parseProcessingInstruction p.parseProcessingInstruction :=
    alongside_bind (alongside_scan _) fun _ => alongside_emit recording rfl rfl
  refine alongside_loop (fun _ => ?_) ()
  refine alongside_read (fun _ => rfl) fun before => alongside_bind (alongside_scan _) fun _ => ?_
  refine alongside_read (fun _ => rfl) fun consumed => alongside_read (fun _ => rfl) fun comment => ?_
  refine pairs_ite (fun _ => alongside_bind comments fun _ => alongside_pure _) fun _ => ?_
  refine alongside_read (fun _ => rfl) fun instruction => ?_
  refine pairs_ite (fun _ => alongside_bind instructions fun _ => alongside_pure _) fun _ => ?_
  exact pairs_ite (fun _ => alongside_pure _) fun _ => alongside_pure _

omit recording in
theorem alongside_failHere {α : Type} (kind : ErrorKind) (message : String) :
    Alongside stack opened (p.failHere kind message : ParserM α) (p.failHere kind message) :=
  alongside_read (fun _ => rfl) fun _ => alongside_throw _

omit recording in
theorem alongside_takePiece (text : Bytes) : Alongside stack opened (p.takePiece text) (p.takePiece text) := by
  have reference : Alongside stack opened p.parseReference p.parseReference := by
    refine alongside_read (fun _ => rfl) fun start => alongside_bind (alongside_scan _) fun _ => ?_
    refine alongside_bind (alongside_counting _) fun _ => alongside_bind (alongside_scan _) fun name => ?_
    refine alongside_bind (alongside_scan _) fun _ => alongside_read (fun _ => rfl) fun entities => ?_
    exact alongside_counting _
  refine alongside_read (fun _ => rfl) fun next => pairs_ite (fun _ => ?_) fun _ => alongside_scan _
  exact alongside_bind reference fun _ => alongside_pure _

omit recording in
theorem alongside_enforceTokenSize (size : Nat) (start : SourceLocation) :
    Alongside stack opened (p.enforceTokenSize size start) (p.enforceTokenSize size start) :=
  pairs_ite (fun _ => alongside_throw _) fun _ => alongside_pure _

theorem alongside_parseText : Alongside stack opened p.parseText p.parseText := by
  refine alongside_read (fun _ => rfl) fun start => alongside_bind (alongside_loop (fun text => ?_) []) fun text => ?_
  · refine alongside_read (fun _ => rfl) fun _ => alongside_read (fun _ => rfl) fun _ => ?_
    refine pairs_ite (fun _ => alongside_pure _) fun _ => alongside_bind (alongside_takePiece _) fun _ => ?_
    exact alongside_bind (alongside_enforceTokenSize _ _) fun _ => alongside_pure _
  · refine pairs_ite (fun _ => alongside_pure _) fun _ => ?_
    refine alongside_bind (alongside_update ?_ ?_ ?_ ?_) fun _ => alongside_emit recording rfl rfl
    all_goals
      intro state
      split <;> rfl

omit recording in
theorem alongside_parseAttributes : Alongside stack opened p.parseAttributes p.parseAttributes := by
  have value : Alongside stack opened p.parseAttributeValue p.parseAttributeValue := by
    refine alongside_read (fun _ => rfl) fun start => alongside_read (fun _ => rfl) fun quote => ?_
    refine pairs_ite (fun _ => alongside_failHere _ _) fun _ => alongside_bind (alongside_scan _) fun _ => ?_
    refine alongside_loop (fun value => ?_) []
    refine alongside_read (fun _ => rfl) fun _ => alongside_read (fun _ => rfl) fun _ => ?_
    refine pairs_ite (fun _ => ?_) fun _ => ?_
    · exact alongside_bind (alongside_scan _) fun _ => alongside_pure _
    refine alongside_read (fun _ => rfl) fun _ => pairs_ite (fun _ => alongside_failHere _ _) fun _ => ?_
    refine alongside_bind (alongside_takePiece _) fun _ => ?_
    exact alongside_bind (alongside_enforceTokenSize _ _) fun _ => alongside_pure _
  refine alongside_loop (fun attributes => alongside_bind (alongside_scan _) fun _ => ?_) []
  refine alongside_read (fun _ => rfl) fun _ => alongside_read (fun _ => rfl) fun _ => ?_
  refine pairs_ite (fun _ => alongside_pure _) fun _ => alongside_read (fun _ => rfl) fun location => ?_
  refine alongside_bind (alongside_scan _) fun name => pairs_ite (fun _ => alongside_failHere _ _) fun _ => ?_
  refine pairs_ite (fun _ => alongside_failHere _ _) fun _ => alongside_bind (alongside_scan _) fun _ => ?_
  refine alongside_bind (alongside_scan _) fun _ => alongside_bind (alongside_scan _) fun _ => ?_
  exact alongside_bind value fun _ => alongside_pure _

omit recording in
theorem alongside_parseTagName (start : SourceLocation) :
    Alongside stack opened (p.parseTagName start) (p.parseTagName start) := by
  refine alongside_bind (alongside_scan _) fun _ => alongside_read (fun _ => rfl) fun _ => ?_
  refine pairs_ite (fun _ => alongside_throw _) fun _ => alongside_bind (alongside_scan _) fun name => ?_
  refine alongside_read (fun _ => rfl) fun _ => ?_
  exact pairs_ite (fun _ => alongside_throw _) fun _ => alongside_pure _

omit recording in
theorem alongside_topOf {α : Type} (values : List α) : Alongside stack opened (topOf values) (topOf values) := by
  cases values with
  | nil => exact alongside_throw _
  | cons top others => exact alongside_pure top

omit recording in
theorem alongside_finishValidationFrame (location : SourceLocation) :
    Alongside stack opened (p.finishValidationFrame location) (p.finishValidationFrame location) := by
  have reports : ∀ message, Alongside stack opened (p.recoverableValidityError location message)
      (p.recoverableValidityError location message) := by
    intro message
    unfold recoverableValidityError
    cases p.options.recoverableErrorHandler with
    | none => exact alongside_throw _
    | some handle =>
        refine alongside_bind (alongside_update (fun _ => rfl) (fun _ => rfl) (fun _ => rfl) fun _ => rfl) fun _ => ?_
        refine alongside_read (fun _ => rfl) fun answer => ?_
        cases answer with
        | none => exact alongside_pure ()
        | some exception => exact alongside_throw _
  have root : ∀ frame, Alongside stack opened (p.validateRoot frame location) (p.validateRoot frame location) :=
    fun _ => alongside_test (fun _ => rfl) (reports _) (alongside_pure ())
  have content : ∀ frame,
      Alongside stack opened (p.validateContent frame location) (p.validateContent frame location) := by
    intro frame
    refine alongside_read (fun _ => rfl) fun elements => ?_
    cases lookupKey frame.name elements with
    | none => exact reports _
    | some declaration =>
        have done : Alongside stack opened (pure () : ParserM Unit) (pure ()) := alongside_pure ()
        cases kind : declaration.kind with
        | any => simpa only [kind] using done
        | empty => simpa only [kind] using pairs_ite (fun _ => reports _) fun _ => done
        | pcdata => simpa only [kind] using pairs_ite (fun _ => reports _) fun _ => done
        | children => simpa only [kind] using pairs_ite (fun _ => reports _) fun _ => done
  have element : ∀ frame,
      Alongside stack opened (p.validateElement frame location) (p.validateElement frame location) :=
    fun frame => alongside_test (fun _ => rfl) (alongside_pure ()) (alongside_bind (root frame) fun _ => content frame)
  refine alongside_read (fun _ => rfl) fun frames => alongside_bind (alongside_topOf frames) fun frame => ?_
  refine alongside_bind (alongside_update (fun _ => rfl) (fun _ => rfl) (fun _ => rfl) fun _ => rfl) fun _ => ?_
  refine alongside_bind (element frame) fun _ => ?_
  exact alongside_update (fun _ => rfl) (fun _ => rfl) (fun _ => rfl) fun _ => rfl

/-! ## Members that look at names -/

omit recording in
/-- Both parsers leave the innermost element, which has been closed. -/
theorem pairs_popElement (tag : StartTag) :
    Pairs ThrownAlike NeverStops (Layered (tag :: stack) stack) popElement popElement (Same stack stack) := by
  intro s t layered
  have elements := layered.view ParserState.elementStack fun _ => rfl
  unfold popElement
  simp only [run_read_bind, id, layered.scopes, layered.plainScopes, layered.names, layered.plainNames, elements,
    scopesOf, stackNames, List.map_cons, List.isEmpty_cons, Bool.false_or]
  cases s.elementStack.isEmpty with
  | true => exact .threw ⟨_, _, layered⟩
  | false =>
      refine .returned ⟨rfl, ?_, congrArg List.tail layered.plainScopes, congrArg List.tail layered.scopes,
        congrArg List.tail layered.plainNames, congrArg List.tail layered.names, layered.isOpen, layered.proper,
        layered.events⟩
      have core := layered.core
      simp only [ParserState.core, ParserState.mk.injEq] at core ⊢
      simp only [core, and_self]

omit recording in
/-- The innermost element is closed under its name, in both. -/
theorem layered_deliver_endElement {tag : StartTag} {s t : ParserState}
    (layered : Layered (tag :: stack) (tag :: stack) s t) :
    Layered (tag :: stack) stack (s.deliver (.endElement (nameIn .disabled (tag :: stack) true tag.name)))
      (t.deliver (.endElement (nameIn .enabled (tag :: stack) true tag.name))) :=
  @Layered.deliver _ _ _ _ layered (.endElement (nameIn .disabled (tag :: stack) true tag.name)) trivial

theorem pairs_emitTop (tag : StartTag) :
    Pairs ThrownAlike NeverStops (Layered (tag :: stack) (tag :: stack))
      (do p.emit (.endElement (← topOf (← Comp.read ParserState.elementNameStack))))
      (do p.emit (.endElement (← topOf (← Comp.read ParserState.elementNameStack))))
      (Same (tag :: stack) stack) := by
  intro s t layered
  rw [run_read_bind, run_read_bind, layered.plainNames, layered.names]
  simp only [stackNames, topOf, pure_bind]
  rw [run_emit recording, run_emit recording]
  exact .returned ⟨rfl, layered_deliver_endElement layered⟩

theorem pairs_parseEndTag (tag : StartTag) (openName : Bytes) :
    Pairs ThrownAlike NeverStops (Layered (tag :: stack) (tag :: stack)) (p.parseEndTag openName)
      (p.parseEndTag openName) (Same (tag :: stack) stack) := by
  refine alongside_read (fun _ => rfl) fun endStart => alongside_bind (alongside_scan _) fun _ => ?_
  refine alongside_bind (alongside_scan _) fun endName => alongside_bind (alongside_scan _) fun _ => ?_
  refine alongside_bind (alongside_scan _) fun _ => pairs_ite (fun _ => ?_) fun _ => pairs_emitTop recording tag
  exact pairs_throw fun _ _ layered => ⟨_, _, layered⟩

end Recording

end Parser

end XmlParser
