import XmlParser.Library.Computation

/-! One computation run inside another: what the first does in its own state is
what the second does in the view of that state. -/

set_option autoImplicit false

namespace XmlParser.Computation

/-- A round with another representation of what it hands to the next one. -/
def LoopStep.mapNext {β δ γ : Type} (carried : β → δ) : LoopStep β γ → LoopStep δ γ
  | .next following => .next (carried following)
  | .done result => .done result

namespace Comp

variable {σ τ ε α β γ δ : Type}

theorem eq_of_run {first second : Comp σ ε α} (same : ∀ state, first.run state = second.run state) :
    first = second := by
  change Comp.mk first.run = Comp.mk second.run
  exact congrArg Comp.mk (funext same)

/-- Whatever the source does, the target does in the view of its states. -/
def Simulates (view : σ → τ) (source : Comp σ ε α) (target : Comp τ ε α) : Prop :=
  ∀ state, target.run (view state) = ((source.run state).1, view (source.run state).2)

section Rules

variable {view : σ → τ}

theorem simulates_pure (value : α) :
    Simulates view (pure value : Comp σ ε α) (pure value) :=
  fun _ => rfl

theorem simulates_throw (error : ε) : Simulates view (throw error : Comp σ ε α) (throw error) :=
  fun _ => rfl

theorem simulates_read {first : σ → α} {second : τ → α} (same : ∀ state, first state = second (view state)) :
    Simulates view (read first : Comp σ ε α) (read second) := by
  intro state
  rw [run_read, run_read, same]

theorem simulates_modify {first : σ → σ} {second : τ → τ}
    (same : ∀ state, view (first state) = second (view state)) :
    Simulates view (modify first : Comp σ ε Unit) (modify second) := by
  intro state
  rw [run_modify, run_modify, same]

theorem simulates_bind {source : Comp σ ε α} {target : Comp τ ε α} {left : α → Comp σ ε β}
    {right : α → Comp τ ε β} (first : Simulates view source target)
    (second : ∀ value, Simulates view (left value) (right value)) :
    Simulates view (source >>= left) (target >>= right) := by
  intro state
  rw [run_bind, run_bind, first state]
  rcases source.run state with ⟨error | value, next⟩
  · rfl
  · exact second value next

theorem simulates_read_bind {first : σ → α} {second : τ → α} {left : α → Comp σ ε β} {right : α → Comp τ ε β}
    (same : ∀ state, first state = second (view state))
    (rest : ∀ value, Simulates view (left value) (right value)) :
    Simulates view (read first >>= left) (read second >>= right) :=
  simulates_bind (simulates_read same) rest

/-- The same where both go on from the two values they have read. -/
theorem simulates_read_bind_of {first : σ → α} {second : τ → γ} {left : α → Comp σ ε β} {right : γ → Comp τ ε β}
    (rest : ∀ state, Simulates view (left (first state)) (right (second (view state)))) :
    Simulates view (read first >>= left) (read second >>= right) := by
  intro state
  rw [run_read_bind, run_read_bind]
  exact rest state state

theorem simulates_ite {condition : Prop} [Decidable condition] {first second : Comp σ ε α}
    {left right : Comp τ ε α} (holds : condition → Simulates view first left)
    (fails : ¬ condition → Simulates view second right) :
    Simulates view (if condition then first else second) (if condition then left else right) := by
  by_cases test : condition
  · rw [if_pos test, if_pos test]
    exact holds test
  · rw [if_neg test, if_neg test]
    exact fails test

/-- Parts of two states, one seen through the other. -/
theorem simulates_onPart {part partOf : Type} {inner : part → partOf} {get : σ → part}
    {put : part → σ → σ} {getOf : τ → partOf} {putOf : partOf → τ → τ} {source : Comp part ε α}
    {target : Comp partOf ε α} (simulates : Simulates inner source target)
    (gets : ∀ state, getOf (view state) = inner (get state))
    (puts : ∀ changed state, putOf (inner changed) (view state) = view (put changed state)) :
    Simulates view (onPart get put source) (onPart getOf putOf target) := by
  intro state
  simp only [onPart]
  rw [gets, simulates (get state)]
  simp only [puts]

/-- Loops that may represent what they carry in two ways. -/
theorem simulates_loop (carried : β → δ) {size : β → σ → Nat} {sizeOf : δ → τ → Nat} {exhausted : ε}
    {body : β → Comp σ ε (LoopStep β γ)} {other : δ → Comp τ ε (LoopStep δ γ)}
    (sizes : ∀ current state, sizeOf (carried current) (view state) = size current state)
    (rounds : ∀ current, Simulates view (LoopStep.mapNext carried <$> body current) (other (carried current)))
    (start : β) :
    Simulates view (loop size exhausted body start) (loop sizeOf exhausted other (carried start)) := by
  have iterates : ∀ fuel current, Simulates view (iterate exhausted body fuel current)
      (iterate exhausted other fuel (carried current)) := by
    intro fuel
    induction fuel with
    | zero => exact fun current => simulates_throw exhausted
    | succ fuel ih =>
        intro current state
        have round := rounds current state
        rw [← bind_pure_comp, run_bind] at round
        rw [run_iterate_succ, run_iterate_succ, round]
        rcases (body current).run state with ⟨error | ⟨following | result⟩, next⟩
        · rfl
        · exact ih following next
        · rfl
  intro state
  simp only [loop, sizes]
  exact iterates _ start state

theorem simulates_loop_eq {size : β → σ → Nat} {sizeOf : β → τ → Nat} {exhausted : ε}
    {body : β → Comp σ ε (LoopStep β γ)} {other : β → Comp τ ε (LoopStep β γ)}
    (sizes : ∀ current state, sizeOf current (view state) = size current state)
    (rounds : ∀ current, Simulates view (body current) (other current)) (start : β) :
    Simulates view (loop size exhausted body start) (loop sizeOf exhausted other start) := by
  refine simulates_loop id sizes (fun current => ?_) start
  have same : (LoopStep.mapNext id : LoopStep β γ → LoopStep β γ) = id := by
    funext step
    cases step <;> rfl
  rw [same, id_map]
  exact rounds current

end Rules

theorem simulates_of_eq {source target : Comp σ ε α} (same : target = source) : Simulates id source target := by
  intro state
  rw [same]
  rfl

/-- Under the identity both computations are one. -/
theorem eq_of_simulates {source target : Comp σ ε α} (simulates : Simulates id source target) :
    target = source :=
  eq_of_run simulates

end Comp

end XmlParser.Computation
