import XmlParser.Library.Computation

/-! Triples for computations that may throw: what holds before, what holds of
the value and the state after a return, and what holds after a throw. -/

set_option autoImplicit false

namespace XmlParser.Computation.Comp

variable {σ τ ε α β γ : Type}

/-- From a state with `pre`, a return meets `post` and a throw meets `failed`. -/
def Triple (pre : σ → Prop) (source : Comp σ ε α) (post : α → σ → Prop)
    (failed : ε → σ → Prop) : Prop :=
  ∀ state, pre state →
    (∀ value final, source.run state = (.ok value, final) → post value final) ∧
      ∀ error final, source.run state = (.error error, final) → failed error final

variable {pre : σ → Prop} {post : α → σ → Prop} {failed : ε → σ → Prop}

theorem triple_pure {value : α} (holds : ∀ state, pre state → post value state) :
    Triple pre (pure value : Comp σ ε α) post failed := by
  intro state before
  constructor
  · intro other final returned
    cases returned
    exact holds state before
  · intro error final threw
    cases threw

theorem triple_throw {error : ε} (holds : ∀ state, pre state → failed error state) :
    Triple pre (throw error : Comp σ ε α) post failed := by
  intro state before
  constructor
  · intro value final returned
    cases returned
  · intro other final threw
    cases threw
    exact holds state before

theorem triple_read {view : σ → α} (holds : ∀ state, pre state → post (view state) state) :
    Triple pre (read view) post failed := by
  intro state before
  constructor
  · intro value final returned
    cases returned
    exact holds state before
  · intro error final threw
    cases threw

theorem triple_modify {update : σ → σ} {after : Unit → σ → Prop}
    (holds : ∀ state, pre state → after () (update state)) :
    Triple pre (modify update : Comp σ ε Unit) after failed := by
  intro state before
  constructor
  · intro value final returned
    cases returned
    exact holds state before
  · intro error final threw
    cases threw

theorem triple_bind {source : Comp σ ε α} {continuation : α → Comp σ ε β}
    {between : α → σ → Prop} {after : β → σ → Prop} (first : Triple pre source between failed)
    (second : ∀ value, Triple (between value) (continuation value) after failed) :
    Triple pre (source >>= continuation) after failed := by
  intro state before
  obtain ⟨returns, throws⟩ := first state before
  constructor
  · intro result final returned
    obtain ⟨value, next, ran, rest⟩ := bind_eq_ok.mp returned
    exact (second value next (returns value next ran)).1 result final rest
  · intro error final threw
    cases bind_eq_error.mp threw with
    | inl early => exact throws error final early
    | inr late =>
        obtain ⟨value, next, ran, rest⟩ := late
        exact (second value next (returns value next ran)).2 error final rest

/-- A fact about the value that is passed on can be used behind it. -/
theorem triple_bind_fact {source : Comp σ ε α} {continuation : α → Comp σ ε β} {fact : α → Prop}
    {between : α → σ → Prop} {after : β → σ → Prop}
    (first : Triple pre source (fun value state => fact value ∧ between value state) failed)
    (second : ∀ value, fact value → Triple (between value) (continuation value) after failed) :
    Triple pre (source >>= continuation) after failed :=
  triple_bind first fun value state here => second value here.1 state here.2

theorem triple_of_fact {source : Comp σ ε α} {fact : Prop} (holds : fact → Triple pre source post failed) :
    Triple (fun state => fact ∧ pre state) source post failed :=
  fun state here => holds here.1 state here.2

theorem triple_exists {source : Comp σ ε α} {family : γ → σ → Prop}
    (holds : ∀ index, Triple (family index) source post failed) :
    Triple (fun state => ∃ index, family index state) source post failed := by
  intro state ⟨index, here⟩
  exact holds index state here

theorem triple_read_bind {view : σ → α} {continuation : α → Comp σ ε β} {after : β → σ → Prop}
    (holds : ∀ value, Triple pre (continuation value) after failed) :
    Triple pre (read view >>= continuation) after failed := by
  intro state before
  exact holds (view state) state before

/-- The same where the rest depends on what has been read. -/
theorem triple_read_bind_of_eq {view : σ → α} {continuation : α → Comp σ ε β} {after : β → σ → Prop}
    (holds : ∀ value, Triple (fun state => pre state ∧ view state = value) (continuation value)
      after failed) :
    Triple pre (read view >>= continuation) after failed := by
  intro state before
  exact holds (view state) state ⟨before, rfl⟩

theorem triple_ite {condition : Prop} [Decidable condition] {first second : Comp σ ε α}
    (holds : condition → Triple pre first post failed)
    (fails : ¬ condition → Triple pre second post failed) :
    Triple pre (if condition then first else second) post failed := by
  by_cases test : condition
  · rw [if_pos test]
    exact holds test
  · rw [if_neg test]
    exact fails test

/-- A branch on a test of the state. -/
theorem triple_branch {test : σ → Bool} {first second : Comp σ ε α}
    (holds : Triple (fun state => pre state ∧ test state = true) first post failed)
    (fails : Triple pre second post failed) :
    Triple pre (read test >>= fun value => if value = true then first else second) post failed := by
  intro state before
  have run : (read test >>= fun value => if value = true then first else second).run state =
      (if test state = true then first else second).run state := rfl
  rw [run]
  by_cases passes : test state = true
  · rw [if_pos passes]
    exact holds state ⟨before, passes⟩
  · rw [if_neg passes]
    exact fails state before

theorem Triple.imp {stronger : σ → Prop} {weaker : α → σ → Prop} {worse : ε → σ → Prop}
    {source : Comp σ ε α} (triple : Triple pre source post failed)
    (entails : ∀ state, stronger state → pre state)
    (returns : ∀ value state, post value state → weaker value state)
    (throws : ∀ error state, failed error state → worse error state) :
    Triple stronger source weaker worse := by
  intro state before
  obtain ⟨returned, threw⟩ := triple state (entails state before)
  exact ⟨fun value final ran => returns value final (returned value final ran),
    fun error final ran => throws error final (threw error final ran)⟩

/-- A triple about returns alone. -/
theorem triple_of_returns {source : Comp σ ε α}
    (holds : ∀ state value final, pre state → source.run state = (.ok value, final) →
      post value final) : Triple pre source post fun _ _ => True := by
  intro state before
  constructor
  · intro value final ran
    exact holds state value final before ran
  · intro error final _
    trivial

/-- What a state relation preserves is preserved by what obeys it. -/
theorem Obeys.triple {relation : σ → σ → Prop} {allowed : ε → Prop} {source : Comp σ ε α}
    (obeys : Obeys relation allowed source)
    (returns : ∀ state final, pre state → relation state final → ∀ value, post value final)
    (throws : ∀ state final, pre state → relation state final → ∀ error, failed error final) :
    Triple pre source post failed := by
  intro state before
  constructor
  · intro value final ran
    exact returns state final before (obeys.of_run ran) value
  · intro error final ran
    exact throws state final before (obeys.of_run ran) error

/-- What holds of a loop after a round: the invariant, or the postcondition. -/
def RoundPost (invariant : β → σ → Prop) (post : γ → σ → Prop) : LoopStep β γ → σ → Prop
  | .next following => invariant following
  | .done result => post result

theorem triple_iterate (invariant : β → σ → Prop) {after : γ → σ → Prop} {exhausted : ε}
    {body : β → Comp σ ε (LoopStep β γ)}
    (round : ∀ current, Triple (invariant current) (body current) (RoundPost invariant after) failed)
    (exhausts : ∀ current state, invariant current state → failed exhausted state) (fuel : Nat)
    (start : β) : Triple (invariant start) (iterate exhausted body fuel start) after failed := by
  induction fuel generalizing start with
  | zero => exact triple_throw (exhausts start)
  | succ fuel ih =>
      refine triple_bind (round start) fun step => ?_
      cases step with
      | next following => exact ih following
      | done result => exact triple_pure fun _ holds => holds

/-- The invariant rule. It needs no bound, as running out of rounds is a throw. -/
theorem triple_loop (invariant : β → σ → Prop) {after : γ → σ → Prop} {size : β → σ → Nat}
    {exhausted : ε} {body : β → Comp σ ε (LoopStep β γ)}
    (round : ∀ current, Triple (invariant current) (body current) (RoundPost invariant after) failed)
    (exhausts : ∀ current state, invariant current state → failed exhausted state) (start : β) :
    Triple (invariant start) (loop size exhausted body start) after failed :=
  fun state before =>
    triple_iterate invariant round exhausts (size start state + 1) start state before

/-- The same for rounds that shrink the state: these do not run out. -/
theorem triple_loop_of_shrinks (invariant : β → σ → Prop) {after : γ → σ → Prop} {size : β → σ → Nat}
    {exhausted : ε} {body : β → Comp σ ε (LoopStep β γ)} (shrinks : Shrinks size body)
    (round : ∀ current, Triple (invariant current) (body current) (RoundPost invariant after) failed)
    (start : β) : Triple (invariant start) (loop size exhausted body start) after failed := by
  intro state
  induction start, state using loop_induction shrinks with
  | round current state ih =>
      intro before
      obtain ⟨returns, throws⟩ := round current state before
      rw [run_loop shrinks]
      cases ran : (body current).run state with
      | mk outcome next =>
          cases outcome with
          | error error =>
              constructor
              · intro value final returned
                cases returned
              · intro other final threw
                cases threw
                exact throws error next ran
          | ok step =>
              have holds := returns step next ran
              cases step with
              | next following => exact ih following next ran holds
              | done result =>
                  constructor
                  · intro value final returned
                    cases returned
                    exact holds
                  · intro other final threw
                    cases threw

theorem triple_onPart {view : σ → τ} {update : τ → σ → σ} {source : Comp τ ε α} {before : τ → Prop}
    {after : α → τ → Prop} {threw : ε → τ → Prop} (inner : Triple before source after threw)
    (enters : ∀ state, pre state → before (view state))
    (returns : ∀ value part state, pre state → after value part → post value (update part state))
    (throws : ∀ error part state, pre state → threw error part → failed error (update part state)) :
    Triple pre (onPart view update source) post failed := by
  intro state begun
  obtain ⟨returned, raised⟩ := inner (view state) (enters state begun)
  constructor
  · intro value final ran
    obtain ⟨part, inside, rfl⟩ := run_onPart_eq_iff.mp ran
    exact returns value part state begun (returned value part inside)
  · intro error final ran
    obtain ⟨part, inside, rfl⟩ := run_onPart_eq_iff.mp ran
    exact throws error part state begun (raised error part inside)

end XmlParser.Computation.Comp
