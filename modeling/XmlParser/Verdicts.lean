import XmlParser.WellNested
import Mathlib.Algebra.Order.BigOperators.Group.List
import Mathlib.Algebra.Order.Group.Nat

/-! What the validator reports, compared with what the events of the run show. -/

set_option autoImplicit false

namespace XmlParser

open XmlParser.Computation Comp

/-! ## Elements as the events show them -/

/-- What the events show directly inside one element. -/
structure ElementView where
  name : Bytes
  children : List Bytes := []
  characters : List Bytes := []
  cdata : List Bytes := []
  isDocument : Bool := false
  deriving DecidableEq, Repr

/-- The open elements, the innermost one first, and those that have ended, in
the order of their ends. -/
structure TraceView where
  opened : List ElementView := []
  ended : List ElementView := []
  deriving DecidableEq, Repr

namespace TraceView

def addCharacters (text : Bytes) (element : ElementView) : ElementView :=
  { element with characters := element.characters ++ [text] }

def addCdata (text : Bytes) (element : ElementView) : ElementView :=
  { element with cdata := element.cdata ++ [text] }

def addChild (name : Bytes) (element : ElementView) : ElementView :=
  { element with children := element.children ++ [name] }

/-- The innermost element ends. -/
def close (view : TraceView) : TraceView :=
  match view.opened with
  | [] => view
  | element :: outer =>
      { opened := outer.modifyHead (addChild element.name)
        ended := view.ended ++ [{ element with isDocument := outer.isEmpty }] }

def after (view : TraceView) : Event → TraceView
  | .startElement name _ =>
      { view with opened := { name := name.qualifiedName } :: view.opened }
  | .endElement _ => view.close
  | .characters text => { view with opened := view.opened.modifyHead (addCharacters text) }
  | .cdata text => { view with opened := view.opened.modifyHead (addCdata text) }
  | _ => view

end TraceView

def viewOf (events : List Event) : TraceView := events.foldl TraceView.after {}

/-- The elements of a run in the order of their end events. -/
def elementViews (events : List Event) : List ElementView := (viewOf events).ended

theorem viewOf_snoc (events : List Event) (event : Event) :
    viewOf (events ++ [event]) = (viewOf events).after event := by
  unfold viewOf
  rw [List.foldl_append, List.foldl_cons, List.foldl_nil]

/-! ## Violations -/

inductive Violation where
  | otherRoot
  | undeclared
  | content
  | childElements
  | otherChildren
  deriving DecidableEq, Repr

namespace Violation

def message : Violation → String
  | .otherRoot => "document element does not match DOCTYPE"
  | .undeclared => "element has no DTD declaration"
  | .content => "EMPTY element has content"
  | .childElements => "PCDATA element has child elements"
  | .otherChildren => "element children do not match DTD model"

def told (violation : Violation) : ErrorKind × String := (.validity, violation.message)

end Violation

def XmlParseException.told (error : XmlParseException) : ErrorKind × String :=
  (error.kind, error.message)

/-- Some of the texts are not white space alone. -/
def hasCharacterData (texts : List Bytes) : Bool :=
  texts.any fun text => text.any fun ch => !isAsciiSpace ch

theorem hasCharacterData_append (left right : List Bytes) :
    hasCharacterData (left ++ right) = (hasCharacterData left || hasCharacterData right) :=
  List.any_append

/-- Violations of the declaration of an element with these children. -/
def contentViolations (dtd : DtdState) (name : Bytes) (children : List Bytes) (hasText : Bool) :
    List Violation :=
  match lookupKey name dtd.elements with
  | none => [.undeclared]
  | some declaration =>
      match declaration.kind with
      | .any => []
      | .empty => if children ≠ [] ∨ hasText = true then [.content] else []
      | .pcdata => if children ≠ [] then [.childElements] else []
      | .children =>
          if children ≠ declaration.children ∨ hasText = true then [.otherChildren] else []

/-- Violations of an element where these texts count as its character data. -/
def ElementView.violations (dtd : DtdState) (element : ElementView) (texts : List Bytes) :
    List Violation :=
  (if element.isDocument = true ∧ element.name ≠ dtd.rootName then [.otherRoot] else []) ++
    contentViolations dtd element.name element.children (hasCharacterData texts)

/-- The errors the events call for: character data counts in both forms. -/
def tracedErrors (dtd : DtdState) (events : List Event) : List (ErrorKind × String) :=
  (elementViews events).flatMap fun element =>
    (element.violations dtd (element.characters ++ element.cdata)).map Violation.told

/-- The errors the frames of the validator lead to. -/
def framedErrors (dtd : DtdState) (events : List Event) : List (ErrorKind × String) :=
  (elementViews events).flatMap fun element =>
    (element.violations dtd element.characters).map Violation.told

/-- Nothing but character data violates the declaration of the element. -/
def OnlyTextViolates (dtd : DtdState) (name : Bytes) (children : List Bytes) : Prop :=
  ∃ declaration, lookupKey name dtd.elements = some declaration ∧
    (declaration.kind = .empty ∧ children = [] ∨
      declaration.kind = .children ∧ children = declaration.children)

/-- Nothing but the character data in CDATA sections violates the declaration. -/
def ElementView.OnlyCdataViolates (dtd : DtdState) (element : ElementView) : Prop :=
  hasCharacterData element.cdata = true ∧ hasCharacterData element.characters = false ∧
    OnlyTextViolates dtd element.name element.children

theorem contentViolations_cases (dtd : DtdState) (name : Bytes) (children : List Bytes) :
    contentViolations dtd name children false = contentViolations dtd name children true ∧
      ¬ OnlyTextViolates dtd name children ∨
    (contentViolations dtd name children false).length <
        (contentViolations dtd name children true).length ∧
      OnlyTextViolates dtd name children := by
  unfold contentViolations OnlyTextViolates
  cases lookupKey name dtd.elements with
  | none => simp
  | some declaration =>
      cases kind : declaration.kind with
      | any => simp [kind]
      | empty => by_cases same : children = [] <;> simp [kind, same]
      | pcdata => simp [kind]
      | children => by_cases same : children = declaration.children <;> simp [kind, same]

theorem ElementView.violations_cases (dtd : DtdState) (element : ElementView) :
    element.violations dtd element.characters =
        element.violations dtd (element.characters ++ element.cdata) ∧
      ¬ element.OnlyCdataViolates dtd ∨
    (element.violations dtd element.characters).length <
        (element.violations dtd (element.characters ++ element.cdata)).length ∧
      element.OnlyCdataViolates dtd := by
  unfold ElementView.violations ElementView.OnlyCdataViolates
  rw [hasCharacterData_append]
  cases hasCharacterData element.characters with
  | true => simp
  | false =>
      cases hasCharacterData element.cdata with
      | false => simp
      | true =>
          rcases contentViolations_cases dtd element.name element.children with
            ⟨same, visible⟩ | ⟨shorter, hidden⟩
          · left
            simp [same, visible]
          · right
            simp [shorter, hidden]

theorem ElementView.violations_length_le (dtd : DtdState) (element : ElementView) :
    (element.violations dtd element.characters).length ≤
      (element.violations dtd (element.characters ++ element.cdata)).length := by
  rcases element.violations_cases dtd with ⟨same, _⟩ | ⟨shorter, _⟩
  · rw [same]
  · exact Nat.le_of_lt shorter

theorem ElementView.violations_eq_iff (dtd : DtdState) (element : ElementView) :
    element.violations dtd element.characters =
        element.violations dtd (element.characters ++ element.cdata) ↔
      ¬ element.OnlyCdataViolates dtd := by
  rcases element.violations_cases dtd with ⟨same, visible⟩ | ⟨shorter, hidden⟩
  · exact iff_of_true same visible
  · refine iff_of_false ?_ (not_not_intro hidden)
    intro same
    rw [same] at shorter
    exact absurd shorter (Nat.lt_irrefl _)

theorem flatMap_eq_flatMap_iff {α β : Type} {left right : α → List β} {items : List α}
    (shorter : ∀ item ∈ items, (left item).length ≤ (right item).length) :
    items.flatMap left = items.flatMap right ↔ ∀ item ∈ items, left item = right item := by
  induction items with
  | nil => simp
  | cons item items ih =>
      obtain ⟨here, others⟩ := List.forall_mem_cons.mp shorter
      have lengths : (items.flatMap left).length ≤ (items.flatMap right).length := by
        rw [List.length_flatMap, List.length_flatMap]
        exact List.sum_le_sum others
      rw [List.flatMap_cons, List.flatMap_cons, List.forall_mem_cons, ← ih others]
      constructor
      · intro same
        have total := congrArg List.length same
        rw [List.length_append, List.length_append] at total
        exact List.append_inj same (by omega)
      · intro both
        rw [both.1, both.2]

/-- The two lists agree unless some element violates the DTD by a CDATA section only. -/
theorem framedErrors_eq_iff (dtd : DtdState) (events : List Event) :
    framedErrors dtd events = tracedErrors dtd events ↔
      ∀ element ∈ elementViews events, ¬ element.OnlyCdataViolates dtd := by
  have injective : Function.Injective Violation.told := by
    intro left right same
    cases left <;> cases right <;> first | rfl | exact absurd same (by decide)
  unfold framedErrors tracedErrors
  rw [flatMap_eq_flatMap_iff]
  · refine forall₂_congr fun element _ => ?_
    rw [injective.list_map.eq_iff]
    exact element.violations_eq_iff dtd
  · intro element _
    rw [List.length_map, List.length_map]
    exact element.violations_length_le dtd

/-! ## What leaves the frames alone -/

/-- The events, the errors, the DTD and the frames are as before. -/
structure KeepsBooks (s t : ParserState) : Prop where
  dtd : t.dtd = s.dtd
  frames : t.validationStack = s.validationStack
  trace : t.trace = s.trace
  reported : t.reported = s.reported

/-- A property that says nothing about the other members. -/
def OfBooks (holds : ParserState → Prop) : Prop := ∀ s t, KeepsBooks s t → holds s → holds t

namespace Parser

variable (p : Parser)

/-- If the computation returns, the property still holds. -/
abbrev Preserves {α : Type} (holds : ParserState → Prop) (source : ParserM α) : Prop :=
  Triple holds source (fun _ => holds) fun _ _ => True

variable {holds : ParserState → Prop} (ofBooks : OfBooks holds)

theorem preserves_failAt {α : Type} (kind : ErrorKind) (location : SourceLocation)
    (message : String) : Preserves holds (failAt kind location message : ParserM α) :=
  triple_throw fun _ _ => trivial

theorem preserves_failHere {α : Type} (kind : ErrorKind) (message : String) :
    Preserves holds (p.failHere kind message : ParserM α) :=
  triple_read_bind fun _ => preserves_failAt _ _ _

theorem preserves_enforceTokenSize (size : Nat) (start : SourceLocation) :
    Preserves holds (p.enforceTokenSize size start : ParserM Unit) := by
  unfold enforceTokenSize
  exact triple_ite (fun _ => preserves_failAt _ _ _) fun _ => triple_pure fun _ here => here

include ofBooks

theorem preserves_scan {α : Type} (source : Cursor α) : Preserves holds (scan source) := by
  apply triple_of_returns
  intro s value t here ran
  obtain ⟨rest, _, rfl⟩ := run_scan_eq_ok_iff.mp ran
  exact ofBooks s _ ⟨rfl, rfl, rfl, rfl⟩ here

theorem preserves_counting {α : Type} (source : Comp Nat Halt α) :
    Preserves holds (counting source) := by
  apply triple_of_returns
  intro s value t here ran
  obtain ⟨count, _, rfl⟩ := counting_eq_ok_iff.mp ran
  exact ofBooks s _ ⟨rfl, rfl, rfl, rfl⟩ here

theorem preserves_modify {update : ParserState → ParserState}
    (keeps : ∀ s, KeepsBooks s (update s)) : Preserves holds (Comp.modify update : ParserM Unit) :=
  triple_modify fun s here => ofBooks s _ (keeps s) here

theorem preserves_parseReference : Preserves holds p.parseReference := by
  refine triple_read_bind fun start => ?_
  refine triple_bind (preserves_scan ofBooks _) fun _ => ?_
  refine triple_bind (preserves_counting ofBooks _) fun _ => ?_
  refine triple_bind (preserves_scan ofBooks _) fun name => ?_
  refine triple_bind (preserves_scan ofBooks _) fun _ => ?_
  exact triple_read_bind fun entities => preserves_counting ofBooks _

theorem preserves_takePiece (text : Bytes) : Preserves holds (p.takePiece text) := by
  refine triple_read_bind fun next => triple_ite (fun _ => ?_) fun _ => preserves_scan ofBooks _
  refine triple_bind (p.preserves_parseReference ofBooks) fun expansion => ?_
  exact triple_pure fun _ here => here

theorem preserves_parseAttributeValue : Preserves holds p.parseAttributeValue := by
  refine triple_read_bind fun start => triple_read_bind fun quote => ?_
  apply triple_ite
  · intro _
    exact p.preserves_failHere _ _
  intro _
  refine triple_bind (preserves_scan ofBooks _) fun _ => ?_
  refine triple_loop (fun _ => holds) (fun value => ?_) (fun _ _ _ => trivial) []
  refine triple_read_bind fun atEnd => triple_read_bind fun next => ?_
  apply triple_ite
  · intro _
    refine triple_bind (preserves_scan ofBooks _) fun _ => ?_
    exact triple_pure fun _ here => here
  intro _
  refine triple_read_bind fun next => ?_
  apply triple_ite
  · intro _
    exact triple_read_bind fun _ => triple_throw fun _ _ => trivial
  intro _
  refine triple_bind (p.preserves_takePiece ofBooks value) fun value => ?_
  refine triple_bind (p.preserves_enforceTokenSize _ _) fun _ => ?_
  exact triple_pure fun _ here => here

theorem preserves_parseAttributes : Preserves holds p.parseAttributes := by
  refine triple_loop (fun _ => holds) (fun attributes => ?_) (fun _ _ _ => trivial) []
  refine triple_bind (preserves_scan ofBooks _) fun _ => ?_
  refine triple_read_bind fun next => triple_read_bind fun closes => ?_
  apply triple_ite
  · intro _
    exact triple_pure fun _ here => here
  intro _
  refine triple_read_bind fun location => triple_bind (preserves_scan ofBooks _) fun name => ?_
  apply triple_ite
  · intro _
    exact triple_read_bind fun _ => triple_throw fun _ _ => trivial
  intro _
  apply triple_ite
  · intro _
    exact triple_read_bind fun _ => triple_throw fun _ _ => trivial
  intro _
  refine triple_bind (preserves_scan ofBooks _) fun _ => ?_
  refine triple_bind (preserves_scan ofBooks _) fun _ => ?_
  refine triple_bind (preserves_scan ofBooks _) fun _ => ?_
  refine triple_bind (p.preserves_parseAttributeValue ofBooks) fun value => ?_
  exact triple_pure fun _ here => here

theorem preserves_parseTagName (start : SourceLocation) : Preserves holds (p.parseTagName start) := by
  refine triple_bind (preserves_scan ofBooks _) fun _ => triple_read_bind fun next => ?_
  apply triple_ite
  · intro _
    exact preserves_failAt _ _ _
  intro _
  refine triple_bind (preserves_scan ofBooks _) fun name => triple_read_bind fun depth => ?_
  apply triple_ite
  · intro _
    exact preserves_failAt _ _ _
  intro _
  exact triple_pure fun _ here => here

theorem preserves_popElement : Preserves holds popElement := by
  refine triple_read_bind fun s => ?_
  apply triple_ite
  · intro _
    exact triple_throw fun _ _ => trivial
  intro _
  exact preserves_modify ofBooks fun _ => ⟨rfl, rfl, rfl, rfl⟩

omit ofBooks

theorem triple_deliver {after : ParserState → Prop} {event : Event}
    (delivers : ∀ s, holds s → after (s.deliver event)) :
    Triple holds (p.emit event) (fun _ => after) fun _ _ => True := by
  apply triple_of_returns
  intro s value t here ran
  obtain ⟨rfl, _⟩ := p.emit_eq_ok_iff.mp ran
  exact delivers s here

/-- Scanning an item and handing it over. -/
theorem triple_handOver {α : Type} {after : ParserState → Prop} {source : Cursor α}
    {event : α → Event} (ofBooks : OfBooks holds)
    (delivers : ∀ s value, holds s → after (s.deliver (event value))) :
    Triple holds (scan source >>= fun value => p.emit (event value)) (fun _ => after)
      fun _ _ => True :=
  triple_bind (preserves_scan ofBooks source) fun value =>
    p.triple_deliver fun s here => delivers s value here

theorem preserves_skipMisc (ofBooks : OfBooks holds)
    (delivers : ∀ s event, event.IsMisc → holds s → holds (s.deliver event)) :
    Preserves holds p.skipMisc := by
  have comment : Preserves holds p.parseComment :=
    p.triple_handOver ofBooks fun s text => delivers s (.comment text) trivial
  have instruction : Preserves holds p.parseProcessingInstruction :=
    p.triple_handOver ofBooks fun s item =>
      delivers s (.processingInstruction item.1 item.2) trivial
  refine triple_loop (fun _ => holds) (fun _ => ?_) (fun _ _ _ => trivial) ()
  refine triple_read_bind fun before => triple_bind (preserves_scan ofBooks _) fun _ => ?_
  refine triple_read_bind fun consumed => triple_read_bind fun isComment => ?_
  apply triple_ite
  · intro _
    exact triple_bind comment fun _ => triple_pure fun _ here => here
  intro _
  refine triple_read_bind fun isInstruction => ?_
  apply triple_ite
  · intro _
    exact triple_bind instruction fun _ => triple_pure fun _ here => here
  intro _
  apply triple_ite
  · intro _
    exact triple_pure fun _ here => here
  · intro _
    exact triple_pure fun _ here => here

end Parser

/-! ## The frames and the view -/

/-- A frame and the open element it was pushed for. -/
structure Mirrors (element : ElementView) (frame : ValidationFrame) : Prop where
  name : frame.name = element.name
  children : frame.childElements = element.children
  text : frame.hasNonWhitespaceText = hasCharacterData element.characters

theorem mirrors_recordText {elements : List ElementView} {frames : List ValidationFrame}
    {text : Bytes} (mirrors : List.Forall₂ Mirrors elements frames) :
    List.Forall₂ Mirrors (elements.modifyHead (TraceView.addCharacters text))
      (if text.any (fun ch => !isAsciiSpace ch) then Parser.recordText frames else frames) := by
  cases mirrors with
  | nil =>
      split
      · exact .nil
      · exact .nil
  | cons first others =>
      rw [List.modifyHead_cons]
      split
      · rename_i found
        refine .cons ⟨first.name, first.children, ?_⟩ others
        simp [TraceView.addCharacters, hasCharacterData, found]
      · rename_i blank
        refine .cons ⟨first.name, first.children, ?_⟩ others
        rw [first.text]
        simp [TraceView.addCharacters, hasCharacterData, blank]

theorem mirrors_addCdata {elements : List ElementView} {frames : List ValidationFrame}
    {text : Bytes} (mirrors : List.Forall₂ Mirrors elements frames) :
    List.Forall₂ Mirrors (elements.modifyHead (TraceView.addCdata text)) frames := by
  cases mirrors with
  | nil => exact .nil
  | cons first others => exact .cons ⟨first.name, first.children, first.text⟩ others

theorem mirrors_recordChild {elements : List ElementView} {frames : List ValidationFrame}
    {name : Bytes} (mirrors : List.Forall₂ Mirrors elements frames) :
    List.Forall₂ Mirrors (elements.modifyHead (TraceView.addChild name))
      (Parser.recordChild name frames) := by
  cases mirrors with
  | nil => exact .nil
  | cons first others =>
      exact .cons ⟨first.name, congrArg (· ++ [name]) first.children, first.text⟩ others

/-- Between two members, at this depth: the frames show what the view shows of
the open elements, and the errors are those of the elements that have ended. -/
structure Watched (dtd : DtdState) (depth : Nat) (s : ParserState) : Prop where
  current : s.dtd = dtd
  depth : s.validationStack.length = depth
  frames : List.Forall₂ Mirrors (viewOf s.events).opened s.validationStack
  reported : dtd.hasDoctype = true →
    s.reported.map XmlParseException.told = framedErrors dtd s.events

/-- Behind the end event of an element, whose frame is still on the stack. -/
structure Ends (dtd : DtdState) (depth : Nat) (s : ParserState) : Prop where
  current : s.dtd = dtd
  frames : ∃ before element outer frame others, viewOf s.events = TraceView.close before ∧
    before.opened = element :: outer ∧ s.validationStack = frame :: others ∧
    others.length = depth ∧ Mirrors element frame ∧ List.Forall₂ Mirrors outer others ∧
    (dtd.hasDoctype = true → s.reported.map XmlParseException.told =
      before.ended.flatMap fun element =>
        (element.violations dtd element.characters).map Violation.told)

theorem KeepsBooks.events {s t : ParserState} (keeps : KeepsBooks s t) : t.events = s.events :=
  congrArg (List.map Delivery.event) keeps.trace

theorem watched_ofBooks (dtd : DtdState) (depth : Nat) : OfBooks (Watched dtd depth) := by
  intro s t keeps watched
  constructor
  · rw [keeps.dtd]
    exact watched.current
  · rw [keeps.frames]
    exact watched.depth
  · rw [keeps.frames, keeps.events]
    exact watched.frames
  · rw [keeps.reported, keeps.events]
    exact watched.reported

@[simp] theorem events_deliver (s : ParserState) (event : Event) :
    (s.deliver event).events = s.events ++ [event] := by
  simp [ParserState.deliver, ParserState.events]

/-- An event that ends no element, after the frames have been brought up to date. -/
theorem Watched.deliver {dtd : DtdState} {depth deeper : Nat} {s t : ParserState} {event : Event}
    (watched : Watched dtd depth s) (same : t.dtd = s.dtd) (events : t.events = s.events)
    (reported : t.reported = s.reported) (length : t.validationStack.length = deeper)
    (ended : ((viewOf s.events).after event).ended = (viewOf s.events).ended)
    (frames : List.Forall₂ Mirrors ((viewOf s.events).after event).opened t.validationStack) :
    Watched dtd deeper (t.deliver event) := by
  refine ⟨same.trans watched.current, length, ?_, ?_⟩
  · rw [events_deliver, viewOf_snoc, events]
    exact frames
  · intro declared
    unfold framedErrors elementViews
    rw [events_deliver, viewOf_snoc, events, ended]
    exact (congrArg _ reported).trans (watched.reported declared)

theorem Watched.deliver_plain {dtd : DtdState} {depth : Nat} {s : ParserState} {event : Event}
    (plain : ∀ view : TraceView, view.after event = view) (watched : Watched dtd depth s) :
    Watched dtd depth (s.deliver event) := by
  refine watched.deliver rfl rfl rfl watched.depth ?_ ?_
  · rw [plain]
  · rw [plain]
    exact watched.frames

theorem Watched.deliver_misc {dtd : DtdState} {depth : Nat} (s : ParserState) (event : Event)
    (isMisc : event.IsMisc) (watched : Watched dtd depth s) : Watched dtd depth (s.deliver event) := by
  cases event with
  | comment text => exact watched.deliver_plain fun _ => rfl
  | processingInstruction target data => exact watched.deliver_plain fun _ => rfl
  | _ => exact absurd isMisc id

/-! ## The validator -/

namespace Parser

variable (p : Parser) {handle : List XmlParseException → Option Exception}
  (configured : p.options.recoverableErrorHandler = some handle)
  (returns : ∀ reported, handle reported = none)

/-- The run adds errors that tell these violations, and changes nothing else. -/
def Adds (violations : List Violation) (source : ParserM Unit) (s : ParserState) : Prop :=
  ∃ errors, source.run s = (.ok (), { s with reported := s.reported ++ errors }) ∧
    errors.map XmlParseException.told = violations.map Violation.told

theorem adds_nothing (s : ParserState) : Adds [] (pure ()) s := by
  refine ⟨[], ?_, rfl⟩
  rw [List.append_nil]
  rfl

include configured returns

theorem adds_violation (violation : Violation) (location : SourceLocation) (s : ParserState) :
    Adds [violation] (p.recoverableValidityError location violation.message) s := by
  refine ⟨[⟨.validity, location, violation.message⟩], ?_, rfl⟩
  unfold recoverableValidityError
  rw [configured]
  simp [returns]

/-- A test of the validator that reports a violation if it fails. -/
theorem adds_test {violated : Prop} [Decidable violated] {test : Bool} (violation : Violation)
    (location : SourceLocation) (s : ParserState) (tests : test = true ↔ violated) :
    Adds (if violated then [violation] else [])
      (if test then p.recoverableValidityError location violation.message else pure ()) s := by
  by_cases holds : violated
  · rw [if_pos holds, if_pos (tests.mpr holds)]
    exact p.adds_violation configured returns violation location s
  · rw [if_neg holds, if_neg (mt tests.mp holds)]
    exact adds_nothing s

theorem adds_validateRoot (frame : ValidationFrame) (location : SourceLocation) (s : ParserState) :
    Adds (if s.validationStack.isEmpty = true ∧ frame.name ≠ s.dtd.rootName then [.otherRoot] else [])
      (p.validateRoot frame location) s := by
  apply p.adds_test configured returns .otherRoot
  rw [Bool.and_eq_true, bne_iff_ne]
  rfl

theorem adds_validateContent (frame : ValidationFrame) (location : SourceLocation)
    (s : ParserState) :
    Adds (contentViolations s.dtd frame.name frame.childElements frame.hasNonWhitespaceText)
      (p.validateContent frame location) s := by
  unfold Adds contentViolations validateContent
  rw [run_read_bind]
  cases lookupKey frame.name s.dtd.elements with
  | none => exact p.adds_violation configured returns .undeclared location s
  | some declaration =>
      cases kind : declaration.kind with
      | any =>
          simp only [kind]
          exact adds_nothing s
      | empty =>
          simp only [kind]
          apply p.adds_test configured returns .content
          simp
      | pcdata =>
          simp only [kind]
          apply p.adds_test configured returns .childElements
          simp
      | children =>
          simp only [kind]
          apply p.adds_test configured returns .otherChildren
          simp

/-- The validator reports the violations of the element its frame mirrors. -/
theorem adds_validateElement (validates : p.options.validation = .dtd) {element : ElementView}
    {frame : ValidationFrame} {s : ParserState} (mirrors : Mirrors element frame)
    (declared : s.dtd.hasDoctype = true) (location : SourceLocation) :
    Adds ({ element with isDocument := s.validationStack.isEmpty }.violations s.dtd element.characters)
      (p.validateElement frame location) s := by
  obtain ⟨first, ranFirst, toldFirst⟩ := p.adds_validateRoot configured returns frame location s
  obtain ⟨second, ranSecond, toldSecond⟩ := p.adds_validateContent configured returns frame location
    { s with reported := s.reported ++ first }
  refine ⟨first ++ second, ?_, ?_⟩
  · unfold validateElement
    rw [run_read_bind, id_eq, validates, declared, if_neg (by decide), run_bind_of_ok ranFirst,
      ranSecond, List.append_assoc]
  · unfold ElementView.violations
    rw [List.map_append, List.map_append, toldFirst, toldSecond, mirrors.name, mirrors.children,
      mirrors.text]

/-- What ends behind its end event leaves its errors behind, and its name in the frame around it. -/
theorem triple_finishValidationFrame (validates : p.options.validation = .dtd) (dtd : DtdState)
    (depth : Nat) (location : SourceLocation) :
    Triple (Ends dtd depth) (p.finishValidationFrame location) (fun _ => Watched dtd depth)
      fun _ _ => True := by
  apply triple_of_returns
  intro s value t ends ran
  obtain ⟨before, element, outer, frame, others, view, opened, frames, deep, mirrors, around,
    reported⟩ := ends.frames
  unfold finishValidationFrame at ran
  rw [run_read_bind, frames] at ran
  obtain ⟨_, _, taken, ran⟩ := bind_eq_ok.mp ran
  cases taken
  rw [run_modify_bind, frames, List.tail_cons] at ran
  obtain ⟨_, u, validated, recorded⟩ := bind_eq_ok.mp ran
  cases recorded
  have only := (p.obeys_validateElement frame location).of_run validated
  unfold OnlyReports at only
  have closed : before.close =
      { opened := outer.modifyHead (TraceView.addChild element.name)
        ended := before.ended ++ [{ element with isDocument := outer.isEmpty }] } := by
    unfold TraceView.close
    rw [opened]
  rw [only]
  refine ⟨ends.current, ?_, ?_, ?_⟩
  · exact (recordChild_length _ _).trans deep
  · change List.Forall₂ Mirrors (viewOf s.events).opened (recordChild frame.name others)
    rw [view, closed, mirrors.name]
    exact mirrors_recordChild around
  · intro declared
    have declaredHere : s.dtd.hasDoctype = true := by
      rw [ends.current]
      exact declared
    obtain ⟨errors, ranErrors, told⟩ := p.adds_validateElement configured returns validates
      (s := { s with validationStack := others }) mirrors declaredHere location
    have sameRun := ranErrors.symm.trans validated
    have sameReports : u.reported = s.reported ++ errors := by
      cases sameRun
      rfl
    have empty : others.isEmpty = outer.isEmpty := by
      cases around with
      | nil => rfl
      | cons _ _ => rfl
    change u.reported.map XmlParseException.told = framedErrors dtd s.events
    unfold framedErrors elementViews
    rw [view, closed, sameReports, List.map_append, reported declared, told, List.flatMap_append,
      List.flatMap_singleton, empty, ends.current]

/-! ## Elements -/

omit configured returns

theorem triple_endElement (dtd : DtdState) (depth : Nat) (name : QualifiedName) :
    Triple (Watched dtd (depth + 1)) (p.emit (.endElement name)) (fun _ => Ends dtd depth)
      fun _ _ => True := by
  apply p.triple_deliver
  intro s watched
  refine ⟨watched.current, ?_⟩
  rw [events_deliver, viewOf_snoc]
  cases frames : s.validationStack with
  | nil =>
      have deep := watched.depth
      rw [frames] at deep
      cases deep
  | cons frame others =>
      have mirrors := watched.frames
      rw [frames] at mirrors
      obtain ⟨element, outer, first, around, opened⟩ := List.forall₂_cons_right_iff.mp mirrors
      have deep := watched.depth
      rw [frames, List.length_cons] at deep
      exact ⟨viewOf s.events, element, outer, frame, others, rfl, opened, frames,
        Nat.succ.inj deep, first, around, watched.reported⟩

/-- Character data is noted in the frame before it is handed over. -/
theorem preserves_deliverText (dtd : DtdState) (depth : Nat) (text : Bytes) :
    Preserves (Watched dtd depth) (p.deliverText text) := by
  apply triple_ite
  · intro _
    exact triple_pure fun _ here => here
  intro _
  apply triple_of_returns
  intro s value t watched ran
  rw [run_modify_bind] at ran
  obtain ⟨rfl, _⟩ := p.emit_eq_ok_iff.mp ran
  have noted := @mirrors_recordText _ _ text watched.frames
  have deep := watched.depth
  split
  · rename_i found
    rw [if_pos found] at noted
    exact watched.deliver rfl rfl rfl ((recordText_length _).trans deep) rfl noted
  · rename_i blank
    rw [if_neg blank] at noted
    exact watched.deliver rfl rfl rfl deep rfl noted

theorem preserves_parseText (dtd : DtdState) (depth : Nat) :
    Preserves (Watched dtd depth) p.parseText := by
  have ofBooks := watched_ofBooks dtd depth
  refine triple_read_bind fun start => triple_bind ?_ fun text => p.preserves_deliverText dtd depth text
  refine triple_loop (fun _ => Watched dtd depth) (fun text => ?_) (fun _ _ _ => trivial) []
  refine triple_read_bind fun atEnd => triple_read_bind fun next => ?_
  apply triple_ite
  · intro _
    exact triple_pure fun _ here => here
  intro _
  refine triple_bind (p.preserves_takePiece ofBooks text) fun text => ?_
  refine triple_bind (p.preserves_enforceTokenSize _ _) fun _ => ?_
  exact triple_pure fun _ here => here

/-- The section is handed over, and no frame takes note of it. -/
theorem preserves_parseCdata (dtd : DtdState) (depth : Nat) :
    Preserves (Watched dtd depth) p.parseCdata := by
  apply p.triple_handOver (watched_ofBooks dtd depth)
  intro s text watched
  exact watched.deliver rfl rfl rfl watched.depth rfl (mirrors_addCdata watched.frames)

theorem triple_parseEndTag_ends (dtd : DtdState) (depth : Nat) (openName : Bytes) :
    Triple (Watched dtd (depth + 1)) (p.parseEndTag openName) (fun _ => Ends dtd depth)
      fun _ _ => True := by
  have ofBooks := watched_ofBooks dtd (depth + 1)
  refine triple_read_bind fun endStart => triple_bind (preserves_scan ofBooks _) fun _ => ?_
  refine triple_bind (preserves_scan ofBooks _) fun endName => ?_
  refine triple_bind (preserves_scan ofBooks _) fun _ => ?_
  refine triple_bind (preserves_scan ofBooks _) fun _ => ?_
  apply triple_ite
  · intro _
    exact triple_throw fun _ _ => trivial
  intro _
  refine triple_read_bind fun stack => ?_
  cases stack with
  | nil => exact triple_throw fun _ _ => trivial
  | cons name outer => exact p.triple_endElement dtd depth name

/-- What is known of the elements inside: each leaves the frames around it as the view has them. -/
def Watches (dtd : DtdState) (element : ParserM Unit) : Prop :=
  ∀ depth, Preserves (Watched dtd depth) element

theorem triple_parseContent_ends {dtd : DtdState} {element : ParserM Unit}
    (watches : Watches dtd element) (depth : Nat) (openName : Bytes) :
    Triple (Watched dtd (depth + 1)) (p.parseContent element openName) (fun _ => Ends dtd depth)
      fun _ _ => True := by
  have ofBooks := watched_ofBooks dtd (depth + 1)
  -- A round in which the element does not end.
  have again : ∀ {source : ParserM Unit}, Preserves (Watched dtd (depth + 1)) source →
      Triple (Watched dtd (depth + 1))
        (source >>= fun _ => pure (.next ()) : ParserM (LoopStep Unit Unit))
        (RoundPost (fun _ => Watched dtd (depth + 1)) fun _ => Ends dtd depth) fun _ _ => True :=
    fun preserves => triple_bind preserves fun _ => triple_pure fun _ here => here
  have comment : Preserves (Watched dtd (depth + 1)) p.parseComment :=
    p.triple_handOver ofBooks fun s text watched => watched.deliver_plain fun _ => rfl
  have instruction : Preserves (Watched dtd (depth + 1)) p.parseProcessingInstruction :=
    p.triple_handOver ofBooks fun s item watched => watched.deliver_plain fun _ => rfl
  refine triple_loop (fun _ => Watched dtd (depth + 1)) (fun _ => ?_) (fun _ _ _ => trivial) ()
  refine triple_read_bind fun atEnd => triple_ite (fun _ => ?_) fun _ => ?_
  · exact triple_read_bind fun _ => triple_throw fun _ _ => trivial
  refine triple_read_bind fun ends => triple_ite (fun _ => ?_) fun _ => ?_
  · refine triple_bind (p.triple_parseEndTag_ends dtd depth openName) fun _ => ?_
    exact triple_pure fun _ here => here
  refine triple_read_bind fun isComment => triple_ite (fun _ => again comment) fun _ => ?_
  refine triple_read_bind fun isCdata =>
    triple_ite (fun _ => again (p.preserves_parseCdata dtd (depth + 1))) fun _ => ?_
  refine triple_read_bind fun isInstruction => triple_ite (fun _ => again instruction) fun _ => ?_
  refine triple_read_bind fun next => triple_ite (fun _ => again (watches (depth + 1))) fun _ => ?_
  exact again (p.preserves_parseText dtd (depth + 1))

/-- The frame of an element is pushed under the name its start event shows. -/
theorem triple_openElement_watched (dtd : DtdState) (depth : Nat) (name : Bytes)
    (start : SourceLocation) :
    Triple (Watched dtd depth) (p.openElement name start) (fun _ => Watched dtd (depth + 1))
      fun _ _ => True := by
  have ofBooks := watched_ofBooks dtd depth
  refine triple_bind (p.preserves_parseAttributes ofBooks) fun attributes => ?_
  refine triple_bind (preserves_modify ofBooks fun _ => ⟨rfl, rfl, rfl, rfl⟩) fun _ => ?_
  refine triple_read_bind fun scopes => ?_
  apply triple_of_returns
  intro s elementName t watched ran
  obtain ⟨resolved, s1, named, ran1⟩ := bind_eq_ok.mp ran
  have sameName := resolveName_qualifiedName named
  obtain rfl : s1 = s := Eq.symm ((p.obeys_resolveName scopes name true start).of_run named)
  obtain ⟨views, s2, viewed, ran2⟩ := bind_eq_ok.mp ran1
  have looked : s1 = s2 := (p.obeys_attributeViews scopes attributes []).of_run viewed
  subst looked
  unfold pushElement at ran2
  rw [run_modify_bind] at ran2
  obtain ⟨_, _, emitted, ran3⟩ := bind_eq_ok.mp ran2
  cases ran3
  obtain ⟨rfl, _⟩ := p.emit_eq_ok_iff.mp emitted
  refine watched.deliver rfl rfl rfl ?_ rfl ?_
  · exact congrArg (· + 1) watched.depth
  · exact .cons ⟨sameName.symm, rfl, rfl⟩ watched.frames

include configured returns

theorem watches_parseElement (validates : p.options.validation = .dtd) (dtd : DtdState)
    (fuel : Nat) : Watches dtd (p.parseElement fuel) := by
  induction fuel with
  | zero => exact fun depth => triple_throw fun _ _ => trivial
  | succ fuel ih =>
      intro depth
      have ofBooks := watched_ofBooks dtd (depth + 1)
      unfold parseElement
      refine triple_read_bind fun start => ?_
      refine triple_bind (p.preserves_parseTagName (watched_ofBooks dtd depth) start) fun name => ?_
      refine triple_bind (p.triple_openElement_watched dtd depth name start) fun elementName => ?_
      have body : Triple (Watched dtd (depth + 1)) (p.parseBody (p.parseElement fuel) name elementName)
          (fun _ => Ends dtd depth) fun _ _ => True := by
        refine triple_read_bind fun isEmpty => triple_ite (fun _ => ?_) fun _ => ?_
        · refine triple_bind (preserves_scan ofBooks _) fun _ => ?_
          exact p.triple_endElement dtd depth elementName
        · refine triple_bind (preserves_scan ofBooks _) fun _ => ?_
          exact p.triple_parseContent_ends ih depth name
      refine triple_bind body fun _ => ?_
      have finishes := p.triple_finishValidationFrame configured returns validates dtd depth start
      refine triple_bind finishes fun _ => ?_
      exact preserves_popElement (watched_ofBooks dtd depth)

/-! ## Documents -/

omit configured returns

/-- In front of the document element. -/
structure Unentered (s : ParserState) : Prop where
  view : viewOf s.events = {}
  frames : s.validationStack = []
  reported : s.reported = []

omit p in
theorem unentered_of_calls {s t : ParserState} (frames : t.validationStack = s.validationStack)
    (trace : t.trace = s.trace) (reported : t.reported = s.reported) (unentered : Unentered s) :
    Unentered t := by
  constructor
  · unfold ParserState.events
    rw [trace]
    exact unentered.view
  · exact frames.trans unentered.frames
  · exact reported.trans unentered.reported

omit p in
theorem Unentered.deliver {s : ParserState} {event : Event}
    (plain : ∀ view : TraceView, view.after event = view) (unentered : Unentered s) :
    Unentered (s.deliver event) := by
  refine ⟨?_, unentered.frames, unentered.reported⟩
  rw [events_deliver, viewOf_snoc, plain]
  exact unentered.view

omit p in
theorem Unentered.watched {s : ParserState} (unentered : Unentered s) : Watched s.dtd 0 s := by
  constructor
  · rfl
  · rw [unentered.frames]
    rfl
  · rw [unentered.view, unentered.frames]
    exact .nil
  · intro _
    unfold framedErrors elementViews
    rw [unentered.reported, unentered.view]
    rfl

theorem preserves_parseProlog : Preserves Unentered p.parseProlog := by
  have ofBooks : OfBooks Unentered :=
    fun s t keeps unentered => unentered_of_calls keeps.frames keeps.trace keeps.reported unentered
  have misc : Preserves Unentered p.skipMisc := by
    refine p.preserves_skipMisc ofBooks fun s event isMisc unentered => ?_
    cases event with
    | comment text => exact unentered.deliver fun _ => rfl
    | processingInstruction target data => exact unentered.deliver fun _ => rfl
    | _ => exact absurd isMisc id
  have started : Preserves Unentered (p.emit .startDocument) :=
    p.triple_deliver fun s unentered => unentered.deliver fun _ => rfl
  have doctype : Preserves Unentered p.parseDoctypeIfPresent :=
    Obeys.triple p.quietly_parseDoctypeIfPresent
      (fun s t unentered quiet _ =>
        unentered_of_calls quiet.validationStack quiet.trace quiet.reported unentered)
      fun _ _ _ _ _ => trivial
  unfold parseProlog
  refine triple_bind started fun _ => triple_bind (preserves_scan ofBooks _) fun _ => ?_
  exact triple_bind misc fun _ => triple_bind doctype fun _ => misc

include configured returns

/-- A run that returns has reported what its frames called for. -/
theorem parse_watched (validates : p.options.validation = .dtd) :
    Triple Unentered p.parse (fun _ s => Watched s.dtd 0 s) fun _ _ => True := by
  rw [parse_eq_prolog]
  refine triple_bind p.preserves_parseProlog fun _ s unentered => ?_
  have ofBooks := watched_ofBooks s.dtd 0
  have element : Preserves (Watched s.dtd 0) (p.parseElement (s.rest.length + 1)) :=
    p.watches_parseElement configured returns validates s.dtd _ 0
  have misc : Preserves (Watched s.dtd 0) p.skipMisc :=
    p.preserves_skipMisc ofBooks Watched.deliver_misc
  have rest : Triple (Watched s.dtd 0) (do
      p.parseElement (s.rest.length + 1)
      p.skipMisc
      if !(← look eof) then
        p.failHere .wellFormedness "extra content after document element"
      else
        p.emit .endDocument) (fun _ => Watched s.dtd 0) fun _ _ => True := by
    refine triple_bind element fun _ => triple_bind misc fun _ => triple_read_bind fun ended => ?_
    apply triple_ite
    · intro _
      exact p.preserves_failHere _ _
    · intro _
      exact p.triple_deliver fun s watched => watched.deliver_plain fun _ => rfl
  have current := rest.imp (fun _ here => here)
    (fun _ t (watched : Watched s.dtd 0 t) => (by
      rw [watched.current]
      exact watched : Watched t.dtd 0 t))
    fun _ _ _ => trivial
  exact current s unentered.watched

end Parser

/-- The errors reported in this state are those its events call for. -/
def VerdictsFollow (s : ParserState) : Prop :=
  s.reported.map XmlParseException.told = tracedErrors s.dtd s.events

theorem reported_eq_framedErrors {xml : Bytes} {handler : SaxHandler} {options : ParserOptions}
    {handle : List XmlParseException → Option Exception} (validates : options.validation = .dtd)
    (configured : options.recoverableErrorHandler = some handle)
    (returns : ∀ reported, handle reported = none)
    (accepted : (parseXmlDocument xml handler options).1 = .ok ())
    (declared : (parseXmlDocument xml handler options).2.dtd.hasDoctype = true) :
    (parseXmlDocument xml handler options).2.reported.map XmlParseException.told =
      framedErrors (parseXmlDocument xml handler options).2.dtd
        (parseXmlDocument xml handler options).2.events := by
  cases decoded : decodeDocument xml options with
  | error error =>
      rw [parseXmlDocument_of_error decoded] at accepted
      cases accepted
  | ok document =>
      rw [parseXmlDocument_of_ok decoded] at accepted declared ⊢
      have watched := Parser.parse_watched ⟨handler, options, document.endLocation⟩ configured
        returns validates { rest := document.chars } ⟨rfl, rfl, rfl⟩
      exact (watched.1 () _ (Prod.ext accepted rfl)).reported declared

/-- The errors of a run follow from its events unless some element violates the
DTD by nothing but the character data of its CDATA sections. -/
theorem verdictsFollow_iff (xml : Bytes) (handler : SaxHandler) (options : ParserOptions)
    (handle : List XmlParseException → Option Exception) (validates : options.validation = .dtd)
    (configured : options.recoverableErrorHandler = some handle)
    (returns : ∀ reported, handle reported = none)
    (accepted : (parseXmlDocument xml handler options).1 = .ok ())
    (declared : (parseXmlDocument xml handler options).2.dtd.hasDoctype = true) :
    VerdictsFollow (parseXmlDocument xml handler options).2 ↔
      ∀ element ∈ elementViews (parseXmlDocument xml handler options).2.events,
        ¬ element.OnlyCdataViolates (parseXmlDocument xml handler options).2.dtd := by
  unfold VerdictsFollow
  rw [reported_eq_framedErrors validates configured returns accepted declared]
  exact framedErrors_eq_iff _ _

/-- A validating run whose errors are recorded. -/
def reportingOptions : ParserOptions :=
  { validation := .dtd, recoverableErrorHandler := some fun _ => none }

def reportingRun (text : String) : Outcome :=
  parseXmlDocument (ascii text) .recording reportingOptions

theorem verdictsFollow_iff_sample :
    VerdictsFollow (reportingRun "<!DOCTYPE a [<!ELEMENT a EMPTY>]><b>x</b>").2 := by
  refine (verdictsFollow_iff _ .recording reportingOptions (fun _ => none) rfl rfl (fun _ => rfl)
    (by decide +kernel) (by decide +kernel)).mpr ?_
  intro element member hidden
  obtain ⟨found, _⟩ := hidden
  have plain : ∀ element ∈ elementViews (reportingRun "<!DOCTYPE a [<!ELEMENT a EMPTY>]><b>x</b>").2.events,
      hasCharacterData element.cdata = false := by decide +kernel
  rw [plain element member] at found
  cases found

theorem not_verdictsFollow :
    (reportingRun "<!DOCTYPE a [<!ELEMENT a EMPTY>]><a><![CDATA[x]]></a>").1 = .ok () ∧
      (reportingRun "<!DOCTYPE a [<!ELEMENT a EMPTY>]><a><![CDATA[x]]></a>").2.dtd.hasDoctype = true ∧
      ¬ VerdictsFollow (reportingRun "<!DOCTYPE a [<!ELEMENT a EMPTY>]><a><![CDATA[x]]></a>").2 := by
  unfold VerdictsFollow
  decide +kernel

end XmlParser
