import XmlParser.Library.Triple

/-! Budgets: what the values in flight hold is paid for by the state, so that the size of
what a computation returns can be counted step by step. -/

set_option autoImplicit false

namespace XmlParser.Computation.Comp

variable {σ τ ε α β γ : Type}

/-- A property of states for each amount that values in flight may hold. -/
structure Budget (σ : Type) where
  within : Nat → σ → Prop
  less : ∀ {held more : Nat} {state : σ}, held ≤ more → within more state → within held state

namespace Budget

variable (budget : Budget σ)

/-- With so much held before, and whatever else is held aside, the value returned may
hold its size; a throw stays within the budget. -/
def Spends (held : Nat) (size : α → Nat) (source : Comp σ ε α) : Prop :=
  ∀ aside, Triple (budget.within (aside + held)) source (fun value => budget.within (aside + size value))
    fun _ => budget.within 0

variable {budget} {held : Nat} {size : α → Nat}

theorem Spends.imp {source : Comp σ ε α} (spends : budget.Spends held size source) {more : Nat}
    {smaller : α → Nat} (has : held ≤ more) (needs : ∀ value, smaller value ≤ size value) :
    budget.Spends more smaller source := by
  intro aside
  refine (spends aside).imp (fun _ => budget.less ?_) (fun value _ => budget.less ?_) fun _ _ here => here
  · exact Nat.add_le_add_left has aside
  · exact Nat.add_le_add_left (needs value) aside

/-- What else is held stays. -/
theorem Spends.frame {source : Comp σ ε α} (spends : budget.Spends held size source) (others : Nat) :
    budget.Spends (others + held) (fun value => others + size value) source := by
  intro aside
  simpa only [Nat.add_assoc] using spends (aside + others)

theorem spends_pure {value : α} (fits : size value ≤ held) : budget.Spends held size (pure value : Comp σ ε α) :=
  fun aside => triple_pure fun _ here => budget.less (Nat.add_le_add_left fits aside) here

theorem spends_throw (error : ε) : budget.Spends held size (throw error : Comp σ ε α) :=
  fun _ => triple_throw fun _ here => budget.less (Nat.zero_le _) here

theorem spends_modify {update : σ → σ} {left : Nat}
    (pays : ∀ aside state, budget.within (aside + held) state → budget.within (aside + left) (update state)) :
    budget.Spends held (fun _ => left) (modify update : Comp σ ε Unit) :=
  fun aside => triple_modify fun state here => pays aside state here

theorem spends_bind {source : Comp σ ε α} {continuation : α → Comp σ ε β} {result : β → Nat}
    (first : budget.Spends held size source)
    (second : ∀ value, budget.Spends (size value) result (continuation value)) :
    budget.Spends held result (source >>= continuation) :=
  fun aside => triple_bind (first aside) fun value => second value aside

theorem spends_read_bind {view : σ → α} {continuation : α → Comp σ ε β} {result : β → Nat}
    (second : ∀ value, budget.Spends held result (continuation value)) :
    budget.Spends held result (read view >>= continuation) :=
  fun aside => triple_read_bind fun value => second value aside

theorem spends_ite {condition : Prop} [Decidable condition] {first second : Comp σ ε α}
    (holds : condition → budget.Spends held size first) (fails : ¬ condition → budget.Spends held size second) :
    budget.Spends held size (if condition then first else second) :=
  fun aside => triple_ite (fun test => holds test aside) fun test => fails test aside

/-- What a round holds when it is over. -/
def stepSize (size : β → Nat) (result : γ → Nat) : LoopStep β γ → Nat
  | .next following => size following
  | .done value => result value

@[simp] theorem stepSize_next (size : β → Nat) (result : γ → Nat) (following : β) :
    stepSize size result (.next following) = size following := rfl

@[simp] theorem stepSize_done (size : β → Nat) (result : γ → Nat) (value : γ) :
    stepSize size result (.done value) = result value := rfl

theorem spends_loop {measure : β → σ → Nat} {exhausted : ε} {body : β → Comp σ ε (LoopStep β γ)}
    (size : β → Nat) {result : γ → Nat}
    (round : ∀ current, budget.Spends (size current) (stepSize size result) (body current)) (start : β) :
    budget.Spends (size start) result (loop measure exhausted body start) := by
  intro aside
  have paid : ∀ current, Triple (budget.within (aside + size current)) (body current)
      (RoundPost (fun current => budget.within (aside + size current)) fun value => budget.within (aside + result value))
      fun _ => budget.within 0 := by
    intro current
    refine (round current aside).imp (fun _ here => here) (fun step _ here => ?_) fun _ _ here => here
    cases step with
    | next following => exact here
    | done value => exact here
  exact triple_loop _ paid (fun _ _ here => budget.less (Nat.zero_le _) here) start

/-- Rounds that hold always the same. -/
theorem spends_loop_same {measure : β → σ → Nat} {exhausted : ε} {body : β → Comp σ ε (LoopStep β γ)}
    (round : ∀ current, budget.Spends held (fun _ => held) (body current)) (start : β) :
    budget.Spends held (fun _ => held) (loop measure exhausted body start) := by
  have paid : ∀ current, budget.Spends held (stepSize (fun _ => held) fun _ => held) (body current) := by
    intro current
    refine (round current).imp (Nat.le_refl _) fun step => ?_
    cases step with
    | next following => exact Nat.le_refl _
    | done value => exact Nat.le_refl _
  exact spends_loop (fun _ => held) paid start

end Budget

end XmlParser.Computation.Comp
