import XmlParser.References
import Mathlib.Data.List.Chain

/-! The order of the events of one document: a grammar of event sequences, and
the machine that accepts their beginnings. -/

set_option autoImplicit false

namespace XmlParser

/-! ## Sequences of events -/

def Event.IsMisc : Event → Prop
  | .comment _ => True
  | .processingInstruction _ _ => True
  | _ => False

/-- An event inside an element that opens and closes nothing. -/
def Event.IsItem : Event → Prop
  | .characters _ => True
  | .comment _ => True
  | .processingInstruction _ _ => True
  | .cdata _ => True
  | _ => False

def Event.isOpening : Event → Bool
  | .startElement _ _ => true
  | _ => false

def Event.isClosing : Event → Bool
  | .endElement _ => true
  | _ => false

def Event.isText : Event → Bool
  | .characters _ => true
  | _ => false

/-- The events of an element around those of its content. -/
def bracket (name : QualifiedName) (attributes : List AttributeView) (inside : List Event) :
    List Event :=
  .startElement name attributes :: (inside ++ [.endElement name])

/-- Content whose elements are closed in order, each under its own name. -/
inductive Nested : List Event → Prop
  | nil : Nested []
  | item {events : List Event} {item : Event} :
      Nested events → item.IsItem → Nested (events ++ [item])
  | element {events inside : List Event} (name : QualifiedName)
      (attributes : List AttributeView) :
      Nested events → Nested inside → Nested (events ++ bracket name attributes inside)

def IsProlog (events : List Event) : Prop :=
  ∃ miscs : List Event, (∀ misc ∈ miscs, misc.IsMisc) ∧ events = .startDocument :: miscs

/-- A prologue, one element and misc items. -/
def IsUnfinished (events : List Event) : Prop :=
  ∃ prolog name attributes inside miscs, IsProlog prolog ∧ Nested inside ∧
    (∀ misc ∈ miscs, misc.IsMisc) ∧ events = prolog ++ bracket name attributes inside ++ miscs

/-- All events of a document. -/
def IsDocument (events : List Event) : Prop :=
  ∃ body, IsUnfinished body ∧ events = body ++ [.endDocument]

/-- The beginning of a document inside the elements of these names, the
innermost one first. -/
inductive Opened : List QualifiedName → List Event → Prop
  | root {prolog inside : List Event} (name : QualifiedName) (attributes : List AttributeView) :
      IsProlog prolog → Nested inside →
      Opened [name] (prolog ++ .startElement name attributes :: inside)
  | child {outer : List QualifiedName} {before inside : List Event} (name : QualifiedName)
      (attributes : List AttributeView) :
      Opened outer before → Nested inside →
      Opened (name :: outer) (before ++ .startElement name attributes :: inside)

/-! ## The machine -/

inductive Phase where
  | initial
  | prolog
  | inside (name : QualifiedName) (outer : List QualifiedName) (afterText : Bool)
  | epilog
  | finished
  deriving DecidableEq, Repr

namespace Phase

/-- The elements that are open. -/
def opened : Phase → List QualifiedName
  | .inside name outer _ => name :: outer
  | _ => []

/-- The phase behind an element inside `outer`. -/
def behind : List QualifiedName → Phase
  | [] => .epilog
  | name :: outer => .inside name outer false

def next : Phase → Event → Option Phase
  | .initial, .startDocument => some .prolog
  | .prolog, .comment _ => some .prolog
  | .prolog, .processingInstruction _ _ => some .prolog
  | .prolog, .startElement name _ => some (.inside name [] false)
  | .inside name outer _, .startElement child _ => some (.inside child (name :: outer) false)
  | .inside name outer _, .endElement closed => if closed = name then some (behind outer) else none
  | .inside name outer afterText, .characters text =>
      if afterText || text.isEmpty then none else some (.inside name outer true)
  | .inside name outer _, .comment _ => some (.inside name outer false)
  | .inside name outer _, .processingInstruction _ _ => some (.inside name outer false)
  | .inside name outer _, .cdata _ => some (.inside name outer false)
  | .epilog, .comment _ => some .epilog
  | .epilog, .processingInstruction _ _ => some .epilog
  | .epilog, .endDocument => some .finished
  | _, _ => none

/-- The phase after a sequence of events. -/
def after (events : List Event) : Option Phase := events.foldlM next .initial

end Phase

/-- What one event does to the phase. -/
inductive PhaseStep : Phase → Event → Phase → Prop
  | start : PhaseStep .initial .startDocument .prolog
  | beforeElement {misc : Event} : misc.IsMisc → PhaseStep .prolog misc .prolog
  | openRoot (name : QualifiedName) (attributes : List AttributeView) :
      PhaseStep .prolog (.startElement name attributes) (.inside name [] false)
  | openChild (name : QualifiedName) (attributes : List AttributeView) (parent : QualifiedName)
      (outer : List QualifiedName) (afterText : Bool) :
      PhaseStep (.inside parent outer afterText) (.startElement name attributes)
        (.inside name (parent :: outer) false)
  | close (name : QualifiedName) (outer : List QualifiedName) (afterText : Bool) :
      PhaseStep (.inside name outer afterText) (.endElement name) (.behind outer)
  | text {text : Bytes} (name : QualifiedName) (outer : List QualifiedName) : text ≠ [] →
      PhaseStep (.inside name outer false) (.characters text) (.inside name outer true)
  | item {item : Event} (name : QualifiedName) (outer : List QualifiedName) (afterText : Bool) :
      item.IsItem → item.isText = false →
      PhaseStep (.inside name outer afterText) item (.inside name outer false)
  | afterElement {misc : Event} : misc.IsMisc → PhaseStep .epilog misc .epilog
  | finish : PhaseStep .epilog .endDocument .finished

namespace Phase

theorem step_of_next {phase following : Phase} {event : Event}
    (moved : phase.next event = some following) : PhaseStep phase event following := by
  cases phase with
  | initial =>
      cases event with
      | startDocument =>
          cases moved
          exact .start
      | _ => cases moved
  | prolog =>
      cases event with
      | startElement name attributes =>
          cases moved
          exact .openRoot name attributes
      | comment text =>
          cases moved
          exact .beforeElement trivial
      | processingInstruction target data =>
          cases moved
          exact .beforeElement trivial
      | _ => cases moved
  | inside name outer afterText =>
      cases event with
      | startElement child attributes =>
          cases moved
          exact .openChild child attributes name outer afterText
      | endElement closed =>
          have moved : (if closed = name then some (behind outer) else none) = some following := moved
          split at moved
          · rename_i same
            cases moved
            subst same
            exact .close closed outer afterText
          · cases moved
      | characters text =>
          have moved : (if (afterText || text.isEmpty) = true then none
              else some (inside name outer true)) = some following := moved
          split at moved
          · cases moved
          · rename_i proper
            cases moved
            rw [Bool.or_eq_true, not_or, Bool.not_eq_true, List.isEmpty_iff] at proper
            rw [proper.1]
            exact .text name outer proper.2
      | comment text =>
          cases moved
          exact .item name outer afterText trivial rfl
      | processingInstruction target data =>
          cases moved
          exact .item name outer afterText trivial rfl
      | cdata text =>
          cases moved
          exact .item name outer afterText trivial rfl
      | _ => cases moved
  | epilog =>
      cases event with
      | comment text =>
          cases moved
          exact .afterElement trivial
      | processingInstruction target data =>
          cases moved
          exact .afterElement trivial
      | endDocument =>
          cases moved
          exact .finish
      | _ => cases moved
  | finished => cases event <;> cases moved

theorem after_snoc (events : List Event) (event : Event) :
    after (events ++ [event]) = (after events).bind fun phase => phase.next event := by
  unfold after
  rw [List.foldlM_append]
  cases List.foldlM next initial events with
  | none => rfl
  | some phase => simp

/-- What holds at the beginning and is kept by every step holds after every run. -/
theorem after_induction {motive : List Event → Phase → Prop} (start : motive [] .initial)
    (step : ∀ events phase event following, motive events phase → PhaseStep phase event following →
      motive (events ++ [event]) following) {events : List Event} {phase : Phase}
    (reached : after events = some phase) : motive events phase := by
  induction events using List.reverseRecOn generalizing phase with
  | nil =>
      cases reached
      exact start
  | append_singleton events event ih =>
      rw [after_snoc] at reached
      obtain ⟨before, reachedBefore, moved⟩ := Option.bind_eq_some_iff.mp reached
      exact step events before event phase (ih reachedBefore) (step_of_next moved)

/-! ## What the machine accepts -/

/-- The sequences that lead into a phase. -/
def Describes : Phase → List Event → Prop
  | .initial, events => events = []
  | .prolog, events => IsProlog events
  | .inside name outer _, events => Opened (name :: outer) events
  | .epilog, events => IsUnfinished events
  | .finished, events => IsDocument events

end Phase

theorem Opened.item {names : List QualifiedName} {events : List Event} {item : Event}
    (opened : Opened names events) (isItem : item.IsItem) : Opened names (events ++ [item]) := by
  cases opened with
  | root name attributes prolog inside =>
      rw [List.append_assoc, List.cons_append]
      exact .root name attributes prolog (.item inside isItem)
  | child name attributes outer inside =>
      rw [List.append_assoc, List.cons_append]
      exact .child name attributes outer (.item inside isItem)

theorem Opened.bracket {names : List QualifiedName} {events inside : List Event}
    (opened : Opened names events) (name : QualifiedName) (attributes : List AttributeView)
    (nested : Nested inside) : Opened names (events ++ bracket name attributes inside) := by
  cases opened with
  | root root rootAttributes prolog before =>
      rw [List.append_assoc, List.cons_append]
      exact .root root rootAttributes prolog (.element name attributes before nested)
  | child parent parentAttributes outer before =>
      rw [List.append_assoc, List.cons_append]
      exact .child parent parentAttributes outer (.element name attributes before nested)

theorem append_bracket (before inside : List Event) (name : QualifiedName)
    (attributes : List AttributeView) :
    before ++ .startElement name attributes :: inside ++ [.endElement name] =
      before ++ bracket name attributes inside := by
  rw [List.append_assoc]
  rfl

/-- The end of the innermost element. -/
theorem Opened.close {name : QualifiedName} {outer : List QualifiedName} {events : List Event}
    (opened : Opened (name :: outer) events) :
    (Phase.behind outer).Describes (events ++ [.endElement name]) := by
  cases opened with
  | @root prolog inside _ attributes isProlog nested =>
      refine ⟨prolog, name, attributes, inside, [], isProlog, nested, List.forall_mem_nil _, ?_⟩
      rw [append_bracket, List.append_nil]
  | child name attributes opened nested =>
      rw [append_bracket]
      cases outer with
      | nil => cases opened
      | cons parent outer => exact opened.bracket name attributes nested

namespace Phase

/-- The sequences are built along the steps of the machine. -/
theorem describes_after {events : List Event} {phase : Phase}
    (reached : after events = some phase) : phase.Describes events := by
  refine after_induction (motive := fun events phase => phase.Describes events) rfl ?_ reached
  intro events phase event following described step
  cases step with
  | start =>
      subst described
      exact ⟨[], List.forall_mem_nil _, rfl⟩
  | beforeElement isMisc =>
      obtain ⟨miscs, areMisc, rfl⟩ := described
      exact ⟨miscs ++ [event], List.forall_mem_append.mpr
        ⟨areMisc, List.forall_mem_singleton.mpr isMisc⟩, rfl⟩
  | openRoot name attributes => exact .root name attributes described .nil
  | openChild name attributes parent outer afterText => exact .child name attributes described .nil
  | close name outer afterText => exact Opened.close described
  | text name outer nonempty => exact Opened.item described trivial
  | item name outer afterText isItem notText => exact Opened.item described isItem
  | afterElement isMisc =>
      obtain ⟨prolog, name, attributes, inside, miscs, isProlog, nested, areMisc, rfl⟩ := described
      refine ⟨prolog, name, attributes, inside, miscs ++ [event], isProlog, nested, ?_, ?_⟩
      · exact List.forall_mem_append.mpr ⟨areMisc, List.forall_mem_singleton.mpr isMisc⟩
      · rw [List.append_assoc]
  | finish => exact ⟨events, described, rfl⟩

end Phase

/-- What has begun can be brought to an end. -/
theorem Opened.completes {names : List QualifiedName} {events : List Event}
    (opened : Opened names events) : ∃ rest, IsDocument (events ++ rest) := by
  induction names generalizing events with
  | nil => cases opened
  | cons name outer ih =>
      have closed := opened.close
      cases outer with
      | nil =>
          refine ⟨[.endElement name, .endDocument], _, closed, ?_⟩
          rw [List.append_assoc]
          rfl
      | cons parent outer =>
          obtain ⟨rest, complete⟩ := ih closed
          refine ⟨.endElement name :: rest, ?_⟩
          rw [List.append_assoc] at complete
          exact complete

namespace Phase

theorem completes {events : List Event} {phase : Phase} (described : phase.Describes events) :
    ∃ rest, IsDocument (events ++ rest) := by
  let name : QualifiedName := ⟨[], [], []⟩
  have fromProlog : ∀ prolog, IsProlog prolog →
      IsDocument (prolog ++ [.startElement name [], .endElement name, .endDocument]) := by
    intro prolog isProlog
    refine ⟨prolog ++ bracket name [] [], ⟨prolog, name, [], [], [], isProlog, .nil, ?_, ?_⟩, ?_⟩
    · exact List.forall_mem_nil _
    · rw [List.append_nil]
    · rw [List.append_assoc]
      rfl
  cases phase with
  | initial =>
      subst described
      exact ⟨_, fromProlog [.startDocument] ⟨[], List.forall_mem_nil _, rfl⟩⟩
  | prolog => exact ⟨_, fromProlog events described⟩
  | inside name outer afterText => exact Opened.completes described
  | epilog => exact ⟨[.endDocument], events, described, rfl⟩
  | finished => exact ⟨[], (List.append_nil events).symm ▸ described⟩

theorem no_endDocument {events : List Event} {phase : Phase}
    (reached : after events = some phase) (unfinished : phase ≠ .finished) :
    .endDocument ∉ events := by
  revert unfinished
  refine after_induction (motive := fun events phase => phase ≠ .finished → .endDocument ∉ events)
    (fun _ => List.not_mem_nil) ?_ reached
  intro events phase event following absent step unfinished member
  have early : phase ≠ .finished := by
    intro same
    subst same
    cases step
  cases List.mem_append.mp member with
  | inl before => exact absent early before
  | inr last =>
      rw [← List.mem_singleton.mp last] at step
      cases step with
      | beforeElement isMisc => exact isMisc
      | item name outer afterText isItem notText => exact isItem
      | afterElement isMisc => exact isMisc
      | finish => exact unfinished rfl

/-- Character data is never empty and never adjacent to other character data. -/
structure TextSeparate (events : List Event) : Prop where
  nonempty : ∀ text, .characters text ∈ events → text ≠ []
  apart : events.IsChain fun left right => ¬ (left.isText = true ∧ right.isText = true)

theorem textSeparate_after {events : List Event} {phase : Phase}
    (reached : after events = some phase) : TextSeparate events := by
  have whole : TextSeparate events ∧
      ∀ last ∈ events.getLast?, last.isText = true → ∃ name outer, phase = .inside name outer true := by
    refine after_induction (motive := fun events phase => TextSeparate events ∧
      ∀ last ∈ events.getLast?, last.isText = true → ∃ name outer, phase = .inside name outer true)
      ⟨⟨fun text member => (nomatch member), .nil⟩, fun last member => (nomatch member)⟩ ?_ reached
    intro events phase event following held step
    obtain ⟨separate, last⟩ := held
    have notText : event.isText = false ∨ ∃ text name outer, event = .characters text ∧ text ≠ [] ∧
        phase = .inside name outer false ∧ following = .inside name outer true := by
      cases step with
      | beforeElement isMisc =>
          cases event with
          | characters text => cases isMisc
          | _ => exact .inl rfl
      | afterElement isMisc =>
          cases event with
          | characters text => cases isMisc
          | _ => exact .inl rfl
      | text name outer nonempty => exact .inr ⟨_, name, outer, rfl, nonempty, rfl, rfl⟩
      | item name outer afterText isItem notText => exact .inl notText
      | _ => exact .inl rfl
    refine ⟨⟨?_, ?_⟩, ?_⟩
    · intro text member
      cases List.mem_append.mp member with
      | inl before => exact separate.nonempty text before
      | inr added =>
          rw [← List.mem_singleton.mp added] at notText
          cases notText with
          | inl none => cases none
          | inr one =>
              obtain ⟨_, _, _, same, nonempty, _⟩ := one
              cases same
              exact nonempty
    · refine List.isChain_append.mpr ⟨separate.apart, List.isChain_singleton _, ?_⟩
      intro left isLast right isFirst both
      cases isFirst
      cases notText with
      | inl none =>
          rw [none] at both
          cases both.2
      | inr one =>
          obtain ⟨_, name, outer, _, _, rfl, _⟩ := one
          obtain ⟨_, _, same⟩ := last left isLast both.1
          cases same
    · intro newest isLast isText
      rw [List.getLast?_append, List.getLast?_singleton, Option.some_or] at isLast
      cases isLast
      cases notText with
      | inl none =>
          rw [none] at isText
          cases isText
      | inr one =>
          obtain ⟨_, name, outer, _, _, _, rfl⟩ := one
          exact ⟨name, outer, rfl⟩
  exact whole.1

/-- The open elements are those opened and not yet closed. -/
theorem opened_length_after {events : List Event} {phase : Phase}
    (reached : after events = some phase) :
    phase.opened.length + events.countP Event.isClosing = events.countP Event.isOpening := by
  refine after_induction (motive := fun events phase =>
    phase.opened.length + events.countP Event.isClosing = events.countP Event.isOpening) rfl ?_ reached
  intro events phase event following counted step
  have misc : ∀ {event : Event}, event.IsMisc → event.isOpening = false ∧ event.isClosing = false := by
    intro event isMisc
    cases event with
    | comment text => exact ⟨rfl, rfl⟩
    | processingInstruction target data => exact ⟨rfl, rfl⟩
    | _ => cases isMisc
  have item : ∀ {event : Event}, event.IsItem → event.isOpening = false ∧ event.isClosing = false := by
    intro event isItem
    cases event with
    | startDocument => cases isItem
    | endDocument => cases isItem
    | startElement name attributes => cases isItem
    | endElement name => cases isItem
    | _ => exact ⟨rfl, rfl⟩
  rw [List.countP_append, List.countP_append, List.countP_singleton, List.countP_singleton]
  cases step with
  | start => exact counted
  | beforeElement isMisc =>
      rw [(misc isMisc).1, (misc isMisc).2]
      exact counted
  | openRoot name attributes =>
      have none : 0 + events.countP Event.isClosing = events.countP Event.isOpening := counted
      simp only [opened, Event.isOpening, Event.isClosing, List.length_cons, List.length_nil]
      simp only [if_true, Bool.false_eq_true, if_false]
      omega
  | openChild name attributes parent outer afterText =>
      simp only [opened, List.length_cons] at counted
      simp only [opened, Event.isOpening, Event.isClosing, List.length_cons]
      simp only [if_true, Bool.false_eq_true, if_false]
      omega
  | close name outer afterText =>
      simp only [opened, List.length_cons] at counted
      have behindLength : (behind outer).opened.length = outer.length := by
        cases outer with
        | nil => rfl
        | cons parent outer => rfl
      rw [behindLength]
      simp only [Event.isOpening, Event.isClosing, if_true, Bool.false_eq_true, if_false]
      omega
  | text name outer nonempty => exact counted
  | item name outer afterText isItem notText =>
      rw [(item isItem).1, (item isItem).2]
      exact counted
  | afterElement isMisc =>
      rw [(misc isMisc).1, (misc isMisc).2]
      exact counted
  | finish => exact counted

end Phase

end XmlParser
