import XmlParser.Library.Triple

/-! Which errors a computation may throw, whatever state it starts from. -/

set_option autoImplicit false

namespace XmlParser.Computation.Comp

variable {σ τ ε α β γ : Type}

/-- Whatever the state, only these errors are thrown. -/
def Throws (allowed : ε → Prop) (source : Comp σ ε α) : Prop :=
  ∀ state error final, source.run state = (.error error, final) → allowed error

section Throws

variable {allowed : ε → Prop}

theorem throws_pure (value : α) : Throws allowed (pure value : Comp σ ε α) := by
  intro state error final threw
  cases threw

theorem throws_read (view : σ → α) : Throws allowed (read view : Comp σ ε α) := by
  intro state error final threw
  cases threw

theorem throws_modify (update : σ → σ) : Throws allowed (modify update : Comp σ ε Unit) := by
  intro state error final threw
  cases threw

theorem throws_throw {error : ε} (isAllowed : allowed error) :
    Throws allowed (throw error : Comp σ ε α) := by
  intro state other final threw
  cases threw
  exact isAllowed

theorem throws_bind {source : Comp σ ε α} {continuation : α → Comp σ ε β}
    (first : Throws allowed source) (second : ∀ value, Throws allowed (continuation value)) :
    Throws allowed (source >>= continuation) := by
  intro state error final threw
  rcases bind_eq_error.mp threw with early | ⟨value, next, _, late⟩
  · exact first state error final early
  · exact second value next error final late

theorem throws_read_bind {view : σ → α} {continuation : α → Comp σ ε β}
    (second : ∀ value, Throws allowed (continuation value)) :
    Throws allowed (read view >>= continuation) :=
  throws_bind (throws_read view) second

theorem throws_ite {condition : Prop} [Decidable condition] {first second : Comp σ ε α}
    (holds : condition → Throws allowed first) (fails : ¬ condition → Throws allowed second) :
    Throws allowed (if condition then first else second) := by
  by_cases test : condition
  · rw [if_pos test]
    exact holds test
  · rw [if_neg test]
    exact fails test

theorem throws_iterate {exhausted : ε} {body : β → Comp σ ε (LoopStep β γ)} (isAllowed : allowed exhausted)
    (round : ∀ current, Throws allowed (body current)) (fuel : Nat) (start : β) :
    Throws allowed (iterate exhausted body fuel start) := by
  induction fuel generalizing start with
  | zero => exact throws_throw isAllowed
  | succ fuel ih =>
      refine throws_bind (round start) fun step => ?_
      cases step with
      | next following => exact ih following
      | done result => exact throws_pure result

/-- A loop throws what its rounds throw, or runs out of them. -/
theorem throws_loop {size : β → σ → Nat} {exhausted : ε} {body : β → Comp σ ε (LoopStep β γ)}
    (isAllowed : allowed exhausted) (round : ∀ current, Throws allowed (body current)) (start : β) :
    Throws allowed (loop size exhausted body start) :=
  fun state => throws_iterate isAllowed round (size start state + 1) start state

theorem throws_whileLoop {size : σ → Nat} {exhausted : ε} {condition : σ → Bool} {body : β → Comp σ ε β}
    (isAllowed : allowed exhausted) (round : ∀ current, Throws allowed (body current)) (start : β) :
    Throws allowed (whileLoop size exhausted condition body start) := by
  refine throws_loop isAllowed (fun current => throws_read_bind fun _ => throws_ite (fun _ => ?_) fun _ => ?_) start
  · exact throws_bind (round current) fun _ => throws_pure _
  · exact throws_pure _

theorem throws_onPart {view : σ → τ} {update : τ → σ → σ} {source : Comp τ ε α}
    (throws : Throws allowed source) : Throws allowed (onPart view update source) := by
  intro state error final threw
  obtain ⟨part, inside, _⟩ := run_onPart_eq_iff.mp threw
  exact throws (view state) error part inside

/-- A relation of states that every run keeps, and the errors that it may throw. -/
theorem Throws.triple {relation : σ → σ → Prop} {any : ε → Prop} {source : Comp σ ε α}
    {pre : σ → Prop} {post : α → σ → Prop} {failed : ε → σ → Prop} (throws : Throws allowed source)
    (obeys : Obeys relation any source)
    (returned : ∀ state final, pre state → relation state final → ∀ value, post value final)
    (threw : ∀ state final, pre state → relation state final → ∀ error, allowed error → failed error final) :
    Triple pre source post failed := by
  intro state before
  constructor
  · intro value final ran
    exact returned state final before (obeys.of_run ran) value
  · intro error final ran
    exact threw state final before (obeys.of_run ran) error (throws state error final ran)

end Throws

end XmlParser.Computation.Comp
