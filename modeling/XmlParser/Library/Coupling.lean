import XmlParser.Library.Computation
import Mathlib.Data.List.Forall2

/-! Two computations side by side: from related states both do the same, until
the second one stops early, or until the first one reaches a point behind which
nothing is compared. -/

set_option autoImplicit false

namespace XmlParser.Computation

/-- Two rounds decide the same. -/
inductive LoopStep.Same {β γ : Type} (carried : β → β → Prop) (result : γ → γ → Prop) :
    LoopStep β γ → LoopStep β γ → Prop where
  | next {left right : β} (same : carried left right) : Same carried result (.next left) (.next right)
  | done {left right : γ} (same : result left right) : Same carried result (.done left) (.done right)

namespace Comp

variable {σ τ ε α β γ : Type}

/-- What two runs are compared by: the states and errors that count as the same,
what the first run does on its own, what both may pass on from outside in a state, how the
second one may stop early, and where the first one leaves the comparison. Only a lax
comparison allows the last two. -/
structure Comparison (σ ε : Type) where
  lax : Prop
  Related : σ → σ → Prop
  Grows : σ → σ → Prop
  SameError : ε → ε → Prop
  Passed : ε → σ → Prop := fun _ _ => False
  Stopped : ε → σ → σ → Prop
  Parted : σ → Prop
  grows_refl : ∀ state, Grows state state
  grows_trans : ∀ {first second third}, Grows first second → Grows second third → Grows first third
  stopped_grows : ∀ {error source final target}, Stopped error source target → Grows source final →
    Stopped error final target
  parted_grows : ∀ {source final}, Parted source → Grows source final → Parted final
  stopped_lax : ∀ {error source target}, Stopped error source target → lax
  parted_lax : ∀ {source}, Parted source → lax

/-- In a lax comparison the relation on values is reflexive: the first run may
go on alone with any of them. -/
class Covers (comparison : Comparison σ ε) (same : α → α → Prop) : Prop where
  refl : comparison.lax → ∀ value, same value value

instance (comparison : Comparison σ ε) : Covers comparison (Eq : α → α → Prop) :=
  ⟨fun _ _ => rfl⟩

instance (comparison : Comparison σ ε) (carried : β → β → Prop) (result : γ → γ → Prop)
    [Covers comparison carried] [Covers comparison result] :
    Covers comparison (LoopStep.Same carried result) where
  refl lax step := by
    cases step with
    | next following => exact .next (Covers.refl lax following)
    | done value => exact .done (Covers.refl lax value)

instance (comparison : Comparison σ ε) (same : α → α → Prop) [Covers comparison same] :
    Covers comparison (List.Forall₂ same) where
  refl lax values := by
    induction values with
    | nil => exact .nil
    | cons value values ih => exact .cons (Covers.refl lax value) ih

/-- How two runs from related states may end. -/
inductive Ends (comparison : Comparison σ ε) (same : α → α → Prop) :
    Except ε α × σ → Except ε α × σ → Prop where
  | returned {left right : α} {source target : σ} (values : same left right)
      (states : comparison.Related source target) :
      Ends comparison same (.ok left, source) (.ok right, target)
  | threw {left right : ε} {source target : σ} (errors : comparison.SameError left right)
      (states : comparison.Related source target) :
      Ends comparison same (.error left, source) (.error right, target)
  | passed {error : ε} {source target : σ} (passes : comparison.Passed error source)
      (states : comparison.Related source target) :
      Ends comparison same (.error error, source) (.error error, target)
  | stopped {outcome : Except ε α} {error : ε} {source target : σ}
      (early : comparison.Stopped error source target) :
      Ends comparison same (outcome, source) (.error error, target)
  | parted {outcome other : Except ε α} {source target : σ} (left : comparison.Parted source) :
      Ends comparison same (outcome, source) (other, target)

structure Couples (comparison : Comparison σ ε) (same : α → α → Prop)
    (source target : Comp σ ε α) : Prop where
  grows : comparison.lax → Obeys comparison.Grows (fun _ => True) source
  ends : ∀ first second, comparison.Related first second →
    Ends comparison same (source.run first) (target.run second)

section Rules

variable {comparison : Comparison σ ε}

instance : Std.Refl comparison.Grows := ⟨comparison.grows_refl⟩

instance : IsTrans σ comparison.Grows := ⟨fun _ _ _ => comparison.grows_trans⟩

theorem couples_pure {same : α → α → Prop} {left right : α} (values : same left right) :
    Couples comparison same (pure left) (pure right) :=
  ⟨fun _ => obeys_pure left, fun _ _ related => .returned values related⟩

theorem couples_throw {same : α → α → Prop} {left right : ε}
    (errors : comparison.SameError left right) :
    Couples comparison same (throw left) (throw right) :=
  ⟨fun _ => obeys_throw trivial, fun _ _ related => .threw errors related⟩

theorem couples_modify {first second : σ → σ} (grows : ∀ state, comparison.Grows state (first state))
    (keeps : ∀ source target, comparison.Related source target →
      comparison.Related (first source) (second target)) :
    Couples comparison (· = ·) (modify first) (modify second) :=
  ⟨fun _ => obeys_modify grows, fun source target related => .returned rfl (keeps source target related)⟩

theorem couples_bind {same : α → α → Prop} [Covers comparison same] {wanted : β → β → Prop}
    {source target : Comp σ ε α} {left right : α → Comp σ ε β}
    (first : Couples comparison same source target)
    (second : ∀ value other, same value other → Couples comparison wanted (left value) (right other)) :
    Couples comparison wanted (source >>= left) (target >>= right) := by
  have continues : comparison.lax → ∀ value, Obeys comparison.Grows (fun _ => True) (left value) :=
    fun lax value => (second value value (Covers.refl lax value)).grows lax
  constructor
  · exact fun lax => obeys_bind (first.grows lax) (continues lax)
  · intro begun beside related
    have ended := first.ends begun beside related
    cases ranSource : source.run begun with
    | mk outcome next =>
        cases ranTarget : target.run beside with
        | mk other following =>
            rw [ranSource, ranTarget] at ended
            cases ended with
            | returned values states =>
                rw [run_bind_of_ok ranSource, run_bind_of_ok ranTarget]
                exact (second _ _ values).ends next following states
            | threw errors states =>
                rw [run_bind_of_error ranSource, run_bind_of_error ranTarget]
                exact .threw errors states
            | passed passes states =>
                rw [run_bind_of_error ranSource, run_bind_of_error ranTarget]
                exact .passed passes states
            | stopped early =>
                rw [run_bind_of_error ranTarget]
                cases outcome with
                | error error =>
                    rw [run_bind_of_error ranSource]
                    exact .stopped early
                | ok value =>
                    rw [run_bind_of_ok ranSource]
                    exact .stopped
                      (comparison.stopped_grows early (continues (comparison.stopped_lax early) value next).1)
            | parted gone =>
                have final : comparison.Parted ((source >>= left).run begun).2 := by
                  cases outcome with
                  | error error =>
                      rw [run_bind_of_error ranSource]
                      exact gone
                  | ok value =>
                      rw [run_bind_of_ok ranSource]
                      exact comparison.parted_grows gone (continues (comparison.parted_lax gone) value next).1
                exact .parted final

/-- The same where both first parts return one value. -/
theorem couples_bind_eq {wanted : β → β → Prop} {source target : Comp σ ε α}
    {left right : α → Comp σ ε β} (first : Couples comparison (· = ·) source target)
    (second : ∀ value, Couples comparison wanted (left value) (right value)) :
    Couples comparison wanted (source >>= left) (target >>= right) := by
  refine couples_bind first fun value other same => ?_
  subst same
  exact second value

theorem couples_read_bind {same : α → α → Prop} [Covers comparison same] {wanted : β → β → Prop}
    {first second : σ → α} {left right : α → Comp σ ε β}
    (views : ∀ source target, comparison.Related source target → same (first source) (second target))
    (rest : ∀ value other, same value other → Couples comparison wanted (left value) (right other)) :
    Couples comparison wanted (read first >>= left) (read second >>= right) := by
  refine couples_bind ⟨fun _ => obeys_read first, fun source target related => ?_⟩ rest
  exact .returned (views source target related) related

theorem couples_read_bind_eq {wanted : β → β → Prop} {first second : σ → α}
    {left right : α → Comp σ ε β}
    (views : ∀ source target, comparison.Related source target → first source = second target)
    (rest : ∀ value, Couples comparison wanted (left value) (right value)) :
    Couples comparison wanted (read first >>= left) (read second >>= right) := by
  refine couples_read_bind views fun value other same => ?_
  subst same
  exact rest value

/-- From the states in which something holds both computations do the same. -/
structure CouplesFrom (comparison : Comparison σ ε) (same : α → α → Prop) (holds : σ → Prop)
    (source target : Comp σ ε α) : Prop where
  grows : comparison.lax → Obeys comparison.Grows (fun _ => True) source
  ends : ∀ first second, holds first → comparison.Related first second →
    Ends comparison same (source.run first) (target.run second)

theorem Couples.always {same : α → α → Prop} {holds : σ → Prop} {source target : Comp σ ε α}
    (couples : Couples comparison same source target) : CouplesFrom comparison same holds source target :=
  ⟨couples.grows, fun first second _ => couples.ends first second⟩

/-- Both pass on what comes from outside. -/
theorem couplesFrom_pass {same : α → α → Prop} {holds : σ → Prop} {error : ε}
    (passes : ∀ state, holds state → comparison.Passed error state) :
    CouplesFrom comparison same holds (throw error) (throw error) :=
  ⟨fun _ => obeys_throw trivial, fun first _ here related => .passed (passes first here) related⟩

theorem couplesFrom_ite {same : α → α → Prop} {holds : σ → Prop} {condition : Prop} [Decidable condition]
    {first second left right : Comp σ ε α} (yes : condition → CouplesFrom comparison same holds first left)
    (no : ¬ condition → CouplesFrom comparison same holds second right) :
    CouplesFrom comparison same holds (if condition then first else second) (if condition then left else right) := by
  by_cases test : condition
  · rw [if_pos test, if_pos test]
    exact yes test
  · rw [if_neg test, if_neg test]
    exact no test

/-- What follows a read starts in the state that shows the value. -/
theorem couples_read_bind_from {wanted : β → β → Prop} {first second : σ → α}
    {left right : α → Comp σ ε β}
    (views : ∀ source target, comparison.Related source target → first source = second target)
    (rest : ∀ value, CouplesFrom comparison wanted (fun state => first state = value) (left value) (right value)) :
    Couples comparison wanted (read first >>= left) (read second >>= right) := by
  refine ⟨fun lax => obeys_bind (obeys_read first) fun value => (rest value).grows lax, fun source target related => ?_⟩
  rw [run_read_bind, run_read_bind, ← views source target related]
  exact (rest _).ends source target rfl related

theorem couples_ite {same : α → α → Prop} {condition : Prop} [Decidable condition]
    {first second left right : Comp σ ε α}
    (holds : condition → Couples comparison same first left)
    (fails : ¬ condition → Couples comparison same second right) :
    Couples comparison same (if condition then first else second)
      (if condition then left else right) := by
  by_cases test : condition
  · rw [if_pos test, if_pos test]
    exact holds test
  · rw [if_neg test, if_neg test]
    exact fails test

/-- The second run stops before it does anything. -/
theorem couples_stop {same : α → α → Prop} {source target : Comp σ ε α}
    (grows : comparison.lax → Obeys comparison.Grows (fun _ => True) source)
    (stops : ∀ first second, comparison.Related first second →
      ∃ error, target.run second = (.error error, second) ∧ comparison.Stopped error first second) :
    Couples comparison same source target := by
  refine ⟨grows, fun first second related => ?_⟩
  obtain ⟨error, threw, stopped⟩ := stops first second related
  rw [threw]
  exact .stopped (comparison.stopped_grows stopped (grows (comparison.stopped_lax stopped) first).1)

theorem couples_iterate {carried : β → β → Prop} [Covers comparison carried] {same : γ → γ → Prop}
    [Covers comparison same] {exhausted : ε} {body other : β → Comp σ ε (LoopStep β γ)}
    (exhausts : comparison.SameError exhausted exhausted)
    (round : ∀ left right, carried left right →
      Couples comparison (LoopStep.Same carried same) (body left) (other right))
    (fuel : Nat) {left right : β} (start : carried left right) :
    Couples comparison same (iterate exhausted body fuel left) (iterate exhausted other fuel right) := by
  induction fuel generalizing left right with
  | zero => exact couples_throw exhausts
  | succ fuel ih =>
      refine couples_bind (round left right start) fun step beside decided => ?_
      cases decided with
      | next following => exact ih following
      | done values => exact couples_pure values

/-- Loops whose sizes agree on related states make the same number of rounds. -/
theorem couples_loop {carried : β → β → Prop} [Covers comparison carried] {same : γ → γ → Prop}
    [Covers comparison same] {size : β → σ → Nat} {exhausted : ε} {body other : β → Comp σ ε (LoopStep β γ)}
    (sizes : ∀ left right source target, carried left right → comparison.Related source target →
      size left source = size right target)
    (exhausts : comparison.SameError exhausted exhausted)
    (round : ∀ left right, carried left right →
      Couples comparison (LoopStep.Same carried same) (body left) (other right))
    {left right : β} (start : carried left right) :
    Couples comparison same (loop size exhausted body left) (loop size exhausted other right) := by
  have rounds := fun fuel => couples_iterate exhausts round fuel start
  refine ⟨fun lax state => (rounds (size left state + 1)).grows lax state, fun source target related => ?_⟩
  have bounds := sizes left right source target start related
  have ended := (rounds (size left source + 1)).ends source target related
  simp only [loop]
  rw [bounds] at ended ⊢
  exact ended

/-- Loops that carry equal values. -/
theorem couples_loop_eq {same : γ → γ → Prop} [Covers comparison same] {size : β → σ → Nat} {exhausted : ε}
    {body other : β → Comp σ ε (LoopStep β γ)}
    (sizes : ∀ current source target, comparison.Related source target →
      size current source = size current target)
    (exhausts : comparison.SameError exhausted exhausted)
    (round : ∀ current, Couples comparison (LoopStep.Same (· = ·) same) (body current) (other current))
    (start : β) :
    Couples comparison same (loop size exhausted body start) (loop size exhausted other start) := by
  refine couples_loop ?_ exhausts ?_ (rfl : start = start)
  · intro left right source target equal
    subst equal
    exact sizes left source target
  · intro left right equal
    subst equal
    exact round left

theorem couples_whileLoop {size : σ → Nat} {exhausted : ε} {condition : σ → Bool}
    {body other : β → Comp σ ε β}
    (sizes : ∀ source target, comparison.Related source target → size source = size target)
    (conditions : ∀ source target, comparison.Related source target →
      condition source = condition target)
    (exhausts : comparison.SameError exhausted exhausted)
    (round : ∀ current, Couples comparison (· = ·) (body current) (other current)) (start : β) :
    Couples comparison (· = ·) (whileLoop size exhausted condition body start)
      (whileLoop size exhausted condition other start) := by
  refine couples_loop_eq (fun _ => sizes) exhausts (fun current => ?_) start
  refine couples_read_bind_eq conditions fun holds => couples_ite (fun _ => ?_) fun _ => ?_
  · exact couples_bind_eq (round current) fun following => couples_pure (.next rfl)
  · exact couples_pure (.done rfl)

theorem couples_onPart {inner : Comparison τ ε} {view : σ → τ} {update : τ → σ → σ}
    {same : α → α → Prop} {source target : Comp τ ε α} (couples : Couples inner same source target)
    (views : ∀ first second, comparison.Related first second → inner.Related (view first) (view second))
    (updates : ∀ first second left right, comparison.Related first second → inner.Related left right →
      comparison.Related (update left first) (update right second))
    (grows : ∀ part state, comparison.Grows state (update part state))
    (errors : ∀ left right, inner.SameError left right → comparison.SameError left right)
    (passed : ∀ error part state, inner.Passed error part → comparison.Passed error (update part state))
    (stops : ∀ error first second left right, comparison.Related first second →
      inner.Stopped error left right →
      comparison.Stopped error (update left first) (update right second))
    (parts : ∀ part state, inner.Parted part → comparison.Parted (update part state)) :
    Couples comparison same (onPart view update source) (onPart view update target) := by
  refine ⟨fun _ state => ⟨grows _ state, fun _ _ => trivial⟩, fun first second related => ?_⟩
  have ended := couples.ends (view first) (view second) (views first second related)
  simp only [onPart]
  cases ranSource : source.run (view first) with
  | mk outcome next =>
      cases ranTarget : target.run (view second) with
      | mk other following =>
          rw [ranSource, ranTarget] at ended
          cases ended with
          | returned values states => exact .returned values (updates _ _ _ _ related states)
          | threw same states => exact .threw (errors _ _ same) (updates _ _ _ _ related states)
          | passed passes states => exact .passed (passed _ _ _ passes) (updates _ _ _ _ related states)
          | stopped early => exact .stopped (stops _ _ _ _ _ related early)
          | parted gone => exact .parted (parts _ _ gone)

end Rules

end Comp

end XmlParser.Computation
