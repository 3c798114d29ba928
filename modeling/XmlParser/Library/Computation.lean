import Mathlib.Tactic.Common

/-! Stateful computations that may throw, with the state kept after a throw.
Loops run on a size of the state; a loop whose rounds shrink that size
satisfies its own recursion equation, so later proofs never see the bound. -/

set_option autoImplicit false

namespace XmlParser.Computation

/-- A computation over a state `σ` that returns a value or throws an `ε`. The
state it has reached survives the throw. -/
structure Comp (σ ε α : Type) where
  run : σ → Except ε α × σ

/-- What one round of a loop decides. -/
inductive LoopStep (β γ : Type) where
  | next (state : β)
  | done (result : γ)

/-- The values with which a round asks for another one. -/
def LoopStep.Again {β γ : Type} (step : LoopStep β γ) : Prop := ∃ following, step = .next following

theorem LoopStep.not_again_done {β γ : Type} (result : γ) : ¬ (LoopStep.done result : LoopStep β γ).Again := by
  intro again
  obtain ⟨following, same⟩ := again
  cases same

namespace Comp

variable {σ τ ε α β γ : Type}

instance : Monad (Comp σ ε) where
  pure value := ⟨fun state => (.ok value, state)⟩
  bind source continuation := ⟨fun state =>
    match source.run state with
    | (.ok value, next) => (continuation value).run next
    | (.error error, next) => (.error error, next)⟩

/-- A value read from the current state. -/
def read (view : σ → α) : Comp σ ε α := ⟨fun state => (.ok (view state), state)⟩

/-- Replace the state. -/
def modify (update : σ → σ) : Comp σ ε Unit := ⟨fun state => (.ok (), update state)⟩

def throw (error : ε) : Comp σ ε α := ⟨fun state => (.error error, state)⟩

/-- Run a computation on one component of a larger state. -/
def onPart (view : σ → τ) (update : τ → σ → σ) (source : Comp τ ε α) : Comp σ ε α :=
  ⟨fun state => ((source.run (view state)).1, update (source.run (view state)).2 state)⟩

@[simp] theorem run_pure (value : α) (state : σ) :
    (pure value : Comp σ ε α).run state = (.ok value, state) := rfl

@[simp] theorem run_read (view : σ → α) (state : σ) :
    (read view : Comp σ ε α).run state = (.ok (view state), state) := rfl

@[simp] theorem run_modify (update : σ → σ) (state : σ) :
    (modify update : Comp σ ε Unit).run state = (.ok (), update state) := rfl

@[simp] theorem run_throw (error : ε) (state : σ) :
    (throw error : Comp σ ε α).run state = (.error error, state) := rfl

theorem run_bind (source : Comp σ ε α) (continuation : α → Comp σ ε β) (state : σ) :
    (source >>= continuation).run state =
      match source.run state with
      | (.ok value, next) => (continuation value).run next
      | (.error error, next) => (.error error, next) := rfl

@[simp] theorem run_read_bind (view : σ → α) (continuation : α → Comp σ ε β) (state : σ) :
    (read view >>= continuation).run state = (continuation (view state)).run state := rfl

@[simp] theorem run_modify_bind (update : σ → σ) (continuation : Unit → Comp σ ε β)
    (state : σ) :
    (modify update >>= continuation).run state = (continuation ()).run (update state) := rfl

@[simp] theorem run_throw_bind (error : ε) (continuation : α → Comp σ ε β) (state : σ) :
    (throw error >>= continuation).run state = (.error error, state) := rfl

theorem run_bind_of_ok {source : Comp σ ε α} {state next : σ} {value : α}
    (returned : source.run state = (.ok value, next)) (continuation : α → Comp σ ε β) :
    (source >>= continuation).run state = (continuation value).run next := by
  rw [run_bind, returned]

theorem run_bind_of_error {source : Comp σ ε α} {state next : σ} {error : ε}
    (threw : source.run state = (.error error, next)) (continuation : α → Comp σ ε β) :
    (source >>= continuation).run state = (.error error, next) := by
  rw [run_bind, threw]

/-- A sequence returns exactly when both of its parts do. -/
theorem bind_eq_ok {source : Comp σ ε α} {continuation : α → Comp σ ε β}
    {state final : σ} {result : β} :
    (source >>= continuation).run state = (.ok result, final) ↔
      ∃ value next, source.run state = (.ok value, next) ∧
        (continuation value).run next = (.ok result, final) := by
  constructor
  · intro returned
    rw [run_bind] at returned
    cases first : source.run state with
    | mk outcome next =>
        rw [first] at returned
        cases outcome with
        | error error => cases returned
        | ok value => exact ⟨value, next, rfl, returned⟩
  · rintro ⟨value, next, first, second⟩
    rw [run_bind_of_ok first, second]

/-- A sequence throws in its first part or, after that one returned, in its second. -/
theorem bind_eq_error {source : Comp σ ε α} {continuation : α → Comp σ ε β}
    {state final : σ} {error : ε} :
    (source >>= continuation).run state = (.error error, final) ↔
      source.run state = (.error error, final) ∨
        ∃ value next, source.run state = (.ok value, next) ∧
          (continuation value).run next = (.error error, final) := by
  constructor
  · intro threw
    rw [run_bind] at threw
    cases first : source.run state with
    | mk outcome next =>
        rw [first] at threw
        cases outcome with
        | error raised =>
            cases threw
            exact .inl rfl
        | ok value => exact .inr ⟨value, next, rfl, threw⟩
  · rintro (first | ⟨value, next, first, second⟩)
    · rw [run_bind_of_error first]
    · rw [run_bind_of_ok first, second]

instance : LawfulMonad (Comp σ ε) := by
  refine LawfulMonad.mk' _ ?_ ?_ ?_
  · intro α source
    change Comp.mk _ = source
    rcases source with ⟨run⟩
    congr 1
    funext state
    dsimp only
    rcases run state with ⟨_ | _, _⟩ <;> rfl
  · intros
    rfl
  · intro α β γ source first second
    change Comp.mk _ = Comp.mk _
    congr 1
    funext state
    simp only [run_bind]
    rcases source.run state with ⟨_ | _, _⟩ <;> rfl

theorem run_onPart_eq_iff {view : σ → τ} {update : τ → σ → σ} {source : Comp τ ε α}
    {state final : σ} {outcome : Except ε α} :
    (onPart view update source).run state = (outcome, final) ↔
      ∃ part, source.run (view state) = (outcome, part) ∧ final = update part state := by
  constructor
  · intro ran
    simp only [onPart, Prod.mk.injEq] at ran
    exact ⟨(source.run (view state)).2, Prod.ext ran.1 rfl, ran.2.symm⟩
  · rintro ⟨part, ran, rfl⟩
    simp only [onPart, ran]

/-! ## Loops -/

/-- At most `fuel` rounds of `body`; `exhausted` is thrown when they run out. -/
def iterate (exhausted : ε) (body : β → Comp σ ε (LoopStep β γ)) : Nat → β → Comp σ ε γ
  | 0, _ => throw exhausted
  | fuel + 1, current => do
      match ← body current with
      | .next following => iterate exhausted body fuel following
      | .done result => pure result

/-- Repeat `body` until it is done, for as many rounds as the start is large. -/
def loop (size : β → σ → Nat) (exhausted : ε) (body : β → Comp σ ε (LoopStep β γ))
    (start : β) : Comp σ ε γ :=
  ⟨fun state => (iterate exhausted body (size start state + 1) start).run state⟩

/-- One round of a loop that runs `body` while the condition holds of the state. -/
def whileRound (condition : σ → Bool) (body : β → Comp σ ε β) (current : β) :
    Comp σ ε (LoopStep β β) := do
  if ← read condition then
    let following ← body current
    pure (.next following)
  else
    pure (.done current)

/-- Repeat `body` while the condition holds of the state. -/
def whileLoop (size : σ → Nat) (exhausted : ε) (condition : σ → Bool)
    (body : β → Comp σ ε β) : β → Comp σ ε β :=
  loop (fun _ => size) exhausted (whileRound condition body)

/-- Every round of the loop that asks for another one has shrunk what is left. -/
def Shrinks (size : β → σ → Nat) (body : β → Comp σ ε (LoopStep β γ)) : Prop :=
  ∀ current state following next,
    (body current).run state = (.ok (.next following), next) →
      size following next < size current state

/-- The body of a conditional loop shrinks the state wherever it is run. -/
def Consumes (size : σ → Nat) (condition : σ → Bool) (body : β → Comp σ ε β) : Prop :=
  ∀ current state following next, condition state = true →
    (body current).run state = (.ok following, next) → size next < size state

section Loop

variable {size : β → σ → Nat} {exhausted : ε} {body : β → Comp σ ε (LoopStep β γ)}

theorem run_iterate_succ (fuel : Nat) (current : β) (state : σ) :
    (iterate exhausted body (fuel + 1) current).run state =
      match (body current).run state with
      | (.ok (.next following), next) => (iterate exhausted body fuel following).run next
      | (.ok (.done result), next) => (.ok result, next)
      | (.error error, next) => (.error error, next) := by
  rw [iterate, run_bind]
  rcases (body current).run state with ⟨_ | ⟨_ | _⟩, _⟩ <;> rfl

/-- Rounds beyond the size of the state change nothing. -/
theorem run_iterate_enough (shrinks : Shrinks size body) (left right : Nat)
    (current : β) (state : σ) (leftEnough : size current state < left)
    (rightEnough : size current state < right) :
    (iterate exhausted body left current).run state =
      (iterate exhausted body right current).run state := by
  induction left generalizing right current state with
  | zero => omega
  | succ left ih =>
      cases right with
      | zero => omega
      | succ right =>
          rw [run_iterate_succ, run_iterate_succ]
          cases ran : (body current).run state with
          | mk outcome next =>
              cases outcome with
              | error error => rfl
              | ok step =>
                  cases step with
                  | done result => rfl
                  | next following =>
                      have smaller := shrinks _ _ _ _ ran
                      exact ih right following next (by omega) (by omega)

/-- The recursion equation of a loop whose rounds shrink the state. -/
theorem run_loop (shrinks : Shrinks size body) (current : β) (state : σ) :
    (loop size exhausted body current).run state =
      match (body current).run state with
      | (.ok (.next following), next) => (loop size exhausted body following).run next
      | (.ok (.done result), next) => (.ok result, next)
      | (.error error, next) => (.error error, next) := by
  rw [loop, run_iterate_succ]
  cases ran : (body current).run state with
  | mk outcome next =>
      cases outcome with
      | error error => rfl
      | ok step =>
          cases step with
          | done result => rfl
          | next following =>
              have smaller := shrinks _ _ _ _ ran
              change (iterate exhausted body (size current state) following).run next =
                (iterate exhausted body (size following next + 1) following).run next
              exact run_iterate_enough shrinks _ _ following next (by omega) (by omega)

theorem run_loop_of_next (shrinks : Shrinks size body) {current following : β}
    {state next : σ} (ran : (body current).run state = (.ok (.next following), next)) :
    (loop size exhausted body current).run state =
      (loop size exhausted body following).run next := by
  rw [run_loop shrinks, ran]

theorem run_loop_of_done (shrinks : Shrinks size body) {current : β} {result : γ}
    {state next : σ} (ran : (body current).run state = (.ok (.done result), next)) :
    (loop size exhausted body current).run state = (.ok result, next) := by
  rw [run_loop shrinks, ran]

theorem run_loop_of_error (shrinks : Shrinks size body) {current : β} {error : ε}
    {state next : σ} (ran : (body current).run state = (.error error, next)) :
    (loop size exhausted body current).run state = (.error error, next) := by
  rw [run_loop shrinks, ran]

/-- Induction over the rounds of a loop: a property of the start of a round may
assume it of the start of the following round. -/
theorem loop_induction (shrinks : Shrinks size body) {motive : β → σ → Prop}
    (round : ∀ current state,
      (∀ following next, (body current).run state = (.ok (.next following), next) →
        motive following next) → motive current state)
    (current : β) (state : σ) : motive current state := by
  generalize bound : size current state = limit
  induction limit using Nat.strongRecOn generalizing current state with
  | ind limit ih =>
      apply round
      intro following next ran
      exact ih (size following next) (bound ▸ shrinks _ _ _ _ ran) following next rfl

end Loop

section WhileLoop

variable {size : σ → Nat} {exhausted : ε} {condition : σ → Bool} {body : β → Comp σ ε β}

theorem run_whileRound (current : β) (state : σ) :
    (whileRound condition body current).run state =
      if condition state then
        match (body current).run state with
        | (.ok following, next) => (.ok (.next following), next)
        | (.error error, next) => (.error error, next)
      else (.ok (.done current), state) := by
  rw [whileRound, run_read_bind]
  cases condition state with
  | false => rfl
  | true =>
      simp only [if_true, run_bind]
      rcases (body current).run state with ⟨_ | _, _⟩ <;> rfl

theorem whileRound_shrinks (consumes : Consumes size condition body) :
    Shrinks (fun _ => size) (whileRound condition body) := by
  intro current state following next ran
  rw [run_whileRound] at ran
  cases holds : condition state with
  | false => simp [holds] at ran
  | true =>
      cases inner : (body current).run state with
      | mk outcome after =>
          cases outcome with
          | error error => simp [holds, inner] at ran
          | ok value =>
              simp only [holds, inner, if_true, Prod.mk.injEq, Except.ok.injEq,
                LoopStep.next.injEq] at ran
              obtain ⟨rfl, rfl⟩ := ran
              exact consumes current state value after holds inner

theorem run_whileLoop_of_false (consumes : Consumes size condition body) {current : β}
    {state : σ} (stops : condition state = false) :
    (whileLoop size exhausted condition body current).run state = (.ok current, state) := by
  apply run_loop_of_done (whileRound_shrinks consumes)
  rw [run_whileRound, stops]
  rfl

theorem run_whileLoop_of_true (consumes : Consumes size condition body) {current : β}
    {state : σ} (holds : condition state = true) :
    (whileLoop size exhausted condition body current).run state =
      (body current >>= whileLoop size exhausted condition body).run state := by
  rw [run_bind, whileLoop, run_loop (whileRound_shrinks consumes), run_whileRound, holds]
  rcases (body current).run state with ⟨_ | _, _⟩ <;> rfl

end WhileLoop

/-! ## What holds of every run -/

/-- Whatever the outcome, the final state is related to the initial one, and
what is thrown is allowed. -/
def Obeys (relation : σ → σ → Prop) (allowed : ε → Prop) (source : Comp σ ε α) : Prop :=
  ∀ state, relation state (source.run state).2 ∧
    ∀ error, (source.run state).1 = .error error → allowed error

section Obeys

variable {relation : σ → σ → Prop} {allowed : ε → Prop}

theorem Obeys.of_run {source : Comp σ ε α} (obeys : Obeys relation allowed source)
    {state final : σ} {outcome : Except ε α} (ran : source.run state = (outcome, final)) :
    relation state final := by
  have kept := (obeys state).1
  rw [ran] at kept
  exact kept

theorem Obeys.of_error {source : Comp σ ε α} (obeys : Obeys relation allowed source)
    {state final : σ} {error : ε} (threw : source.run state = (.error error, final)) :
    allowed error :=
  (obeys state).2 error (by rw [threw])

theorem Obeys.mono {wider : σ → σ → Prop} {admitted : ε → Prop} {source : Comp σ ε α}
    (obeys : Obeys relation allowed source)
    (related : ∀ state final, relation state final → wider state final)
    (admits : ∀ error, allowed error → admitted error) : Obeys wider admitted source :=
  fun state => ⟨related _ _ (obeys state).1, fun error threw => admits _ ((obeys state).2 error threw)⟩

theorem obeys_pure [Std.Refl relation] (value : α) :
    Obeys relation allowed (pure value : Comp σ ε α) :=
  fun state => ⟨Std.Refl.refl state, fun _ threw => by cases threw⟩

theorem obeys_read [Std.Refl relation] (view : σ → α) :
    Obeys relation allowed (read view : Comp σ ε α) :=
  fun state => ⟨Std.Refl.refl state, fun _ threw => by cases threw⟩

theorem obeys_throw [Std.Refl relation] {error : ε} (isAllowed : allowed error) :
    Obeys relation allowed (throw error : Comp σ ε α) :=
  fun state => ⟨Std.Refl.refl state, fun _ threw => by cases threw; exact isAllowed⟩

theorem obeys_modify {update : σ → σ} (related : ∀ state, relation state (update state)) :
    Obeys relation allowed (modify update : Comp σ ε Unit) :=
  fun state => ⟨related state, fun _ threw => by cases threw⟩

theorem obeys_bind [IsTrans σ relation] {source : Comp σ ε α} {continuation : α → Comp σ ε β}
    (first : Obeys relation allowed source)
    (second : ∀ value, Obeys relation allowed (continuation value)) :
    Obeys relation allowed (source >>= continuation) := by
  intro state
  rw [run_bind]
  cases ran : source.run state with
  | mk outcome next =>
      have step := first.of_run ran
      cases outcome with
      | error error =>
          refine ⟨step, fun other threw => ?_⟩
          cases threw
          exact first.of_error ran
      | ok value =>
          obtain ⟨kept, isAllowed⟩ := second value next
          exact ⟨IsTrans.trans _ _ _ step kept, isAllowed⟩

/-- A sequence whose second part is judged from the state before the first. -/
theorem obeys_bind_of_run {source : Comp σ ε α} {continuation : α → Comp σ ε β}
    (first : Obeys relation allowed source)
    (second : ∀ state value next, source.run state = (.ok value, next) →
      relation state ((continuation value).run next).2 ∧
        ∀ error, ((continuation value).run next).1 = .error error → allowed error) :
    Obeys relation allowed (source >>= continuation) := by
  intro state
  rw [run_bind]
  cases ran : source.run state with
  | mk outcome next =>
      cases outcome with
      | error error =>
          refine ⟨first.of_run ran, fun other threw => ?_⟩
          cases threw
          exact first.of_error ran
      | ok value => exact second state value next ran

theorem obeys_ite {condition : Prop} [Decidable condition] {first second : Comp σ ε α}
    (holds : condition → Obeys relation allowed first)
    (fails : ¬ condition → Obeys relation allowed second) :
    Obeys relation allowed (if condition then first else second) := by
  by_cases test : condition
  · rw [if_pos test]
    exact holds test
  · rw [if_neg test]
    exact fails test

/-- A loop whose rounds shrink the state throws only what its rounds throw. -/
theorem obeys_loop [IsTrans σ relation] {size : β → σ → Nat} {exhausted : ε}
    {body : β → Comp σ ε (LoopStep β γ)} (shrinks : Shrinks size body)
    (round : ∀ current, Obeys relation allowed (body current)) (start : β) :
    Obeys relation allowed (loop size exhausted body start) := by
  intro state
  induction start, state using loop_induction shrinks with
  | round current state ih =>
      rw [run_loop shrinks]
      cases ran : (body current).run state with
      | mk outcome next =>
          have step := (round current).of_run ran
          cases outcome with
          | error error =>
              refine ⟨step, fun other threw => ?_⟩
              cases threw
              exact (round current).of_error ran
          | ok decided =>
              cases decided with
              | done result =>
                  refine ⟨step, fun _ threw => ?_⟩
                  cases threw
              | next following =>
                  obtain ⟨kept, isAllowed⟩ := ih following next ran
                  exact ⟨IsTrans.trans _ _ _ step kept, isAllowed⟩

theorem obeys_whileLoop [Std.Refl relation] [IsTrans σ relation] {size : σ → Nat}
    {exhausted : ε} {condition : σ → Bool} {body : β → Comp σ ε β}
    (consumes : Consumes size condition body)
    (round : ∀ current, Obeys relation allowed (body current)) (start : β) :
    Obeys relation allowed (whileLoop size exhausted condition body start) := by
  refine obeys_loop (whileRound_shrinks consumes) (fun current => ?_) start
  refine obeys_bind (obeys_read _) fun holds => ?_
  refine obeys_ite (fun _ => ?_) (fun _ => obeys_pure _)
  exact obeys_bind (round current) fun following => obeys_pure _

end Obeys

theorem obeys_onPart {inner : τ → τ → Prop} {relation : σ → σ → Prop} {allowed : ε → Prop}
    {view : σ → τ} {update : τ → σ → σ} {source : Comp τ ε α}
    (obeys : Obeys inner allowed source)
    (lift : ∀ state part, inner (view state) part → relation state (update part state)) :
    Obeys relation allowed (onPart view update source) :=
  fun state => ⟨lift state _ (obeys (view state)).1, (obeys (view state)).2⟩

/-! ## Progress -/

/-- Returning one of the values asked about has shrunk the state. -/
def Progresses (size : σ → Nat) (asked : α → Prop) (source : Comp σ ε α) : Prop :=
  ∀ state value final, source.run state = (.ok value, final) → asked value →
    size final < size state

/-- A computation that obeys a relation and makes progress. -/
structure Advances (size : σ → Nat) (relation : σ → σ → Prop) (allowed : ε → Prop)
    (asked : α → Prop) (source : Comp σ ε α) : Prop where
  obeys : Obeys relation allowed source
  progresses : Progresses size asked source

section Advances

variable {size : σ → Nat} {relation : σ → σ → Prop} {allowed : ε → Prop}

theorem advances_pure [Std.Refl relation] {asked : α → Prop} {value : α}
    (unasked : ¬ asked value) :
    Advances size relation allowed asked (pure value : Comp σ ε α) := by
  refine ⟨obeys_pure value, ?_⟩
  intro state other final returned isAsked
  cases returned
  exact absurd isAsked unasked

theorem advances_throw [Std.Refl relation] {asked : α → Prop} {error : ε}
    (isAllowed : allowed error) :
    Advances size relation allowed asked (throw error : Comp σ ε α) := by
  refine ⟨obeys_throw isAllowed, ?_⟩
  intro state value final returned
  cases returned

theorem Advances.mono {wider : σ → σ → Prop} {admitted : ε → Prop} {asked : α → Prop}
    {source : Comp σ ε α} (advances : Advances size relation allowed asked source)
    (related : ∀ state final, relation state final → wider state final)
    (admits : ∀ error, allowed error → admitted error) :
    Advances size wider admitted asked source :=
  ⟨advances.obeys.mono related admits, advances.progresses⟩

theorem advances_ite {asked : α → Prop} {condition : Prop} [Decidable condition]
    {first second : Comp σ ε α}
    (holds : condition → Advances size relation allowed asked first)
    (fails : ¬ condition → Advances size relation allowed asked second) :
    Advances size relation allowed asked (if condition then first else second) := by
  by_cases test : condition
  · rw [if_pos test]
    exact holds test
  · rw [if_neg test]
    exact fails test

variable [IsTrans σ relation]

/-- Progress of the first part of a sequence. -/
theorem advances_bind (bounded : ∀ state final, relation state final → size final ≤ size state)
    {asked : β → Prop} {source : Comp σ ε α} {continuation : α → Comp σ ε β}
    (first : Advances size relation allowed (fun _ => True) source)
    (second : ∀ value, Obeys relation allowed (continuation value)) :
    Advances size relation allowed asked (source >>= continuation) := by
  refine ⟨obeys_bind first.obeys second, ?_⟩
  intro state result final returned _
  obtain ⟨value, next, ran, rest⟩ := bind_eq_ok.mp returned
  have before := first.progresses state value next ran trivial
  have after := bounded next final ((second value).of_run rest)
  omega

/-- Progress of the second part of a sequence. -/
theorem advances_bind_right
    (bounded : ∀ state final, relation state final → size final ≤ size state)
    {asked : β → Prop} {source : Comp σ ε α} {continuation : α → Comp σ ε β}
    (first : Obeys relation allowed source)
    (second : ∀ value, Advances size relation allowed asked (continuation value)) :
    Advances size relation allowed asked (source >>= continuation) := by
  refine ⟨obeys_bind first fun value => (second value).obeys, ?_⟩
  intro state result final returned isAsked
  obtain ⟨value, next, ran, rest⟩ := bind_eq_ok.mp returned
  have before := bounded state next (first.of_run ran)
  have after := (second value).progresses next result final rest isAsked
  omega

end Advances

theorem shrinks_of_advances {size : σ → Nat} {relation : σ → σ → Prop} {allowed : ε → Prop}
    {body : β → Comp σ ε (LoopStep β γ)}
    (advances : ∀ current, Advances size relation allowed LoopStep.Again (body current)) :
    Shrinks (fun _ => size) body :=
  fun current state following next ran =>
    (advances current).progresses state (.next following) next ran ⟨following, rfl⟩

/-- A loop whose rounds advance obeys what they obey. -/
theorem obeys_loop_of_advances {size : σ → Nat} {relation : σ → σ → Prop} {allowed : ε → Prop}
    [IsTrans σ relation] {exhausted : ε} {body : β → Comp σ ε (LoopStep β γ)}
    (advances : ∀ current, Advances size relation allowed LoopStep.Again (body current))
    (start : β) :
    Obeys relation allowed (loop (fun _ => size) exhausted body start) :=
  obeys_loop (shrinks_of_advances advances) (fun current => (advances current).obeys) start

end Comp

end XmlParser.Computation
