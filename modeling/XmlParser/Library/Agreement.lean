import XmlParser.Library.Computation

/-! Two computations that do the same wherever the first one ends in a state of some
kind, with one rule for each way to put them together. -/

set_option autoImplicit false

namespace XmlParser.Computation.Comp

variable {σ ε α β : Type}

/-- Wherever the first run ends in a state of this kind, the second one is the same. -/
def AgreesWhere (kind : σ → Prop) (first second : Comp σ ε α) : Prop :=
  ∀ state, kind (first.run state).2 → second.run state = first.run state

/-- Whatever the computation does, a state of this kind at its end was one before. -/
def Reflects (kind : σ → Prop) (source : Comp σ ε α) : Prop :=
  ∀ state, kind (source.run state).2 → kind state

variable {kind : σ → Prop}

theorem agreesWhere_of_eq {first second : Comp σ ε α} (same : second = first) : AgreesWhere kind first second :=
  fun _ _ => same ▸ rfl

theorem agreesWhere_read_bind {view : σ → α} {first second : α → Comp σ ε β}
    (agrees : ∀ value, AgreesWhere kind (first value) (second value)) :
    AgreesWhere kind (read view >>= first) (read view >>= second) :=
  fun state => agrees (view state) state

theorem agreesWhere_ite {condition : Prop} [Decidable condition] {first second other another : Comp σ ε α}
    (holds : condition → AgreesWhere kind first second) (fails : ¬ condition → AgreesWhere kind other another) :
    AgreesWhere kind (if condition then first else other) (if condition then second else another) := by
  by_cases test : condition
  · simpa only [if_pos test] using holds test
  · simpa only [if_neg test] using fails test

/-- Two sequences that begin alike. -/
theorem agreesWhere_bind {source : Comp σ ε α} {first second : α → Comp σ ε β}
    (agrees : ∀ value, AgreesWhere kind (first value) (second value)) :
    AgreesWhere kind (source >>= first) (source >>= second) := by
  intro state ends
  rw [run_bind] at ends ⊢
  rw [run_bind]
  cases ran : source.run state with
  | mk outcome next =>
      rw [ran] at ends
      cases outcome with
      | error error => rfl
      | ok value => exact agrees value next ends

/-- Two sequences that end alike, where the end keeps states of other kinds. -/
theorem agreesWhere_bind_of_reflects {first second : Comp σ ε α} {continuation : α → Comp σ ε β}
    (agrees : AgreesWhere kind first second) (reflects : ∀ value, Reflects kind (continuation value)) :
    AgreesWhere kind (first >>= continuation) (second >>= continuation) := by
  intro state ends
  rw [run_bind] at ends ⊢
  rw [run_bind]
  cases ran : first.run state with
  | mk outcome next =>
      rw [ran] at ends
      have same : second.run state = first.run state := by
        refine agrees state ?_
        rw [ran]
        cases outcome with
        | error error => exact ends
        | ok value => exact reflects value next ends
      rw [same, ran]

end XmlParser.Computation.Comp
