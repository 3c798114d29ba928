import XmlParser.LockstepMembers

/-! Two parsers in lockstep on one text, of which the second one may stop early. -/

set_option autoImplicit false

namespace XmlParser

open XmlParser.Computation Comp

/-- Nothing is left out of the comparison, and the second run may stop in these ways. -/
def stopping (stops : Halt → List Event → Prop) : Setting where
  same := Eq
  stops := stops
  validates := True
  passes _ _ := True
  refl _ _ := rfl

theorem exact_stopping (stops : Halt → List Event → Prop) : (stopping stops).Exact := fun _ _ => id

/-- Two runs make the same calls and end in the same way, or the second one stops
after some of the calls. -/
inductive Follows (stops : Halt → List Event → Prop) (first second : Outcome) : Prop where
  | same (outcome : second.1 = first.1) (trace : second.2.trace = first.2.trace)
  | early {halt : Halt} (outcome : second.1 = .error halt) (stopped : stops halt second.2.events)
      (trace : second.2.trace <+: first.2.trace)

theorem Follows.accepted {stops : Halt → List Event → Prop} {first second : Outcome}
    (follows : Follows stops first second) (accepted : second.1 = .ok ()) :
    first.1 = .ok () ∧ first.2.trace = second.2.trace := by
  cases follows with
  | same outcome trace => exact ⟨outcome ▸ accepted, trace.symm⟩
  | early outcome stopped trace =>
      rw [outcome] at accepted
      cases accepted

theorem Follows.events_precede {stops : Halt → List Event → Prop} {first second : Outcome}
    (follows : Follows stops first second) : second.2.events <+: first.2.events := by
  cases follows with
  | same outcome trace =>
      have events : second.2.events = first.2.events := congrArg (List.map Delivery.event) trace
      exact events ▸ List.prefix_rfl
  | early outcome stopped trace => exact trace.map Delivery.event

theorem Follows.rejected {stops : Halt → List Event → Prop} {first second : Outcome} {halt : Halt}
    (follows : Follows stops first second) (accepted : first.1 = .ok ())
    (rejected : second.1 = .error halt) : stops halt second.2.events := by
  cases follows with
  | same outcome trace =>
      rw [outcome, accepted] at rejected
      cases rejected
  | early outcome stopped trace =>
      rw [outcome] at rejected
      cases rejected
      exact stopped

namespace Setting

variable {stops : Halt → List Event → Prop}

theorem eq_of_sameHalt {left right : Halt} (same : (stopping stops).SameHalt left right) : right = left := by
  cases same with
  | raised errors => rw [(exact_stopping stops).error errors]
  | broken notThrown => rfl
  | excused hidden locations => exact absurd trivial hidden

theorem eq_of_sameTrace {left right : List Delivery}
    (same : List.Forall₂ (stopping stops).SameDelivery left right) : right = left :=
  (eq_of_forall₂ (fun _ _ => (exact_stopping stops).delivery) same).symm

theorem follows_of_ends {left right : Outcome}
    (ended : Ends (compareStates (stopping stops)) (· = ·) left right) : Follows stops left right := by
  cases ended with
  | returned values states => exact .same rfl (eq_of_sameTrace states.trace)
  | threw errors states =>
      rw [eq_of_sameHalt errors]
      exact .same rfl (eq_of_sameTrace states.trace)
  | passed _ states => exact .same rfl (eq_of_sameTrace states.trace)
  | stopped early =>
      obtain ⟨stopped, ⟨before, isBefore, same⟩, _⟩ := early
      refine .early rfl stopped ?_
      rw [eq_of_sameTrace same]
      exact isBefore
  | parted gone => exact absurd trivial gone.1

/-- From one position, the run of the second parser follows that of the first. -/
theorem Alike.run_follows {p q : Parser} (alike : (stopping stops).Alike p q) (chars : List DecodedChar) :
    Follows stops (p.parse.run { rest := chars }) (q.parse.run { rest := chars }) := by
  have start : (stopping stops).Paired { rest := chars } { rest := chars } :=
    ⟨List.forall₂_same.mpr fun _ _ => ⟨rfl, rfl⟩, rfl, rfl, rfl, rfl, rfl, rfl, .nil, fun _ => .nil⟩
  exact follows_of_ends (alike.parse.ends _ _ start)

/-- The error handler is compared with itself. -/
theorem reportsAlike_refl (first second : ParserOptions) (validation : second.validation = first.validation)
    (handler : second.recoverableErrorHandler = first.recoverableErrorHandler) :
    (stopping stops).ReportsAlike first second := by
  refine .inl ⟨trivial, validation, ?_⟩
  rw [handler]
  cases first.recoverableErrorHandler with
  | none => exact .inl ⟨rfl, rfl⟩
  | some handle =>
      refine .inr ⟨handle, handle, rfl, rfl, fun left right same => ?_⟩
      rw [eq_of_forall₂ (fun _ _ => (exact_stopping stops).error) same]

end Setting

namespace SaxHandler

variable (handler : SaxHandler)

/-- The run is stopped by an answer of the handler. -/
def Stops (halt : Halt) (events : List Event) : Prop :=
  ∃ exception, handler.respond events = some exception ∧ halt = .thrown exception

theorem alike_recording (options : ParserOptions) (endLocation : SourceLocation) :
    (stopping handler.Stops).Alike ⟨.recording, options, endLocation⟩
      ⟨handler, options, endLocation⟩ where
  version := rfl
  namespaces := rfl
  allowExternalDtd := rfl
  externalDtdResolver := rfl
  passes _ _ _ := trivial
  maxDepth := .inl rfl
  maxTokenBytes := .inl rfl
  maxAttributesPerElement := .inl rfl
  maxEntityExpansions := .inl rfl
  maxDtdDeclarations := .inl rfl
  maxEntityReplacementBytes := .inl rfl
  maxExternalSubsetBytes := .inl rfl
  endLocation := rfl
  handler left right _ := by
    cases response : handler.respond right with
    | none => exact .inl rfl
    | some exception => exact .inr ⟨rfl, exception, rfl, exception, response, rfl⟩
  reports := Setting.reportsAlike_refl _ _ rfl rfl

/-- The run with a handler follows that of a recording one until the handler throws. -/
theorem follows_recording (xml : Bytes) (options : ParserOptions) :
    Follows handler.Stops (parseXmlDocument xml .recording options) (parseXmlDocument xml handler options) := by
  unfold parseXmlDocument
  cases decodeDocument xml options with
  | error error => exact .same rfl rfl
  | ok document => exact (handler.alike_recording options document.endLocation).run_follows document.chars

end SaxHandler

end XmlParser
