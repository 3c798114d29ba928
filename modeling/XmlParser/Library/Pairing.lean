import XmlParser.Library.Triple

/-! Two computations over states of different kinds, with what holds of both states
before, after a return and after a throw. The second one may stop where the first one
goes on; then the first one must not undo what it had reached. -/

set_option autoImplicit false

namespace XmlParser.Computation.Comp

variable {σ τ ε α β γ δ α' β' : Type}

/-- How the two runs may end. -/
inductive Meets (failed stopped : ε → σ → τ → Prop) (post : α → β → σ → τ → Prop) :
    Except ε α × σ → Except ε β × τ → Prop where
  | returned {left : α} {right : β} {s : σ} {t : τ} (holds : post left right s t) :
      Meets failed stopped post (.ok left, s) (.ok right, t)
  | threw {error : ε} {s : σ} {t : τ} (holds : failed error s t) :
      Meets failed stopped post (.error error, s) (.error error, t)
  | stopped {outcome : Except ε α} {error : ε} {s : σ} {t : τ} (early : stopped error s t) :
      Meets failed stopped post (outcome, s) (.error error, t)

/-- From states that are paired by `pre` the runs end in this way. -/
def Pairs (failed stopped : ε → σ → τ → Prop) (pre : σ → τ → Prop) (source : Comp σ ε α) (target : Comp τ ε β)
    (post : α → β → σ → τ → Prop) : Prop :=
  ∀ s t, pre s t → Meets failed stopped post (source.run s) (target.run t)

/-- Whatever the first computation does, the second one stays stopped. -/
def StaysStopped (stopped : ε → σ → τ → Prop) (source : Comp σ ε α) : Prop :=
  ∀ error s t, stopped error s t → stopped error (source.run s).2 t

/-- The second computation does not stop early. -/
def NeverStops (_ : ε) (_ : σ) (_ : τ) : Prop := False

variable {failed stopped : ε → σ → τ → Prop} {pre : σ → τ → Prop}

theorem pairs_pure {left : α} {right : β} {post : α → β → σ → τ → Prop}
    (holds : ∀ s t, pre s t → post left right s t) : Pairs failed stopped pre (pure left) (pure right) post :=
  fun s t paired => .returned (holds s t paired)

theorem pairs_throw {error : ε} {post : α → β → σ → τ → Prop} (holds : ∀ s t, pre s t → failed error s t) :
    Pairs failed stopped pre (throw error : Comp σ ε α) (throw error : Comp τ ε β) post :=
  fun s t paired => .threw (holds s t paired)

theorem pairs_modify {first : σ → σ} {second : τ → τ} {post : Unit → Unit → σ → τ → Prop}
    (holds : ∀ s t, pre s t → post () () (first s) (second t)) :
    Pairs failed stopped pre (modify first) (modify second) post :=
  fun s t paired => .returned (holds s t paired)

/-- Both read the same. -/
theorem pairs_read_bind_eq {first : σ → α} {second : τ → α} {left : α → Comp σ ε γ} {right : α → Comp τ ε δ}
    {post : γ → δ → σ → τ → Prop} (same : ∀ s t, pre s t → second t = first s)
    (holds : ∀ value, Pairs failed stopped pre (left value) (right value) post) :
    Pairs failed stopped pre (read first >>= left) (read second >>= right) post := by
  intro s t paired
  rw [run_read_bind, run_read_bind, same s t paired]
  exact holds (first s) s t paired

theorem pairs_ite {condition : Prop} [Decidable condition] {first other : Comp σ ε α} {second another : Comp τ ε β}
    {post : α → β → σ → τ → Prop} (holds : condition → Pairs failed stopped pre first second post)
    (fails : ¬ condition → Pairs failed stopped pre other another post) :
    Pairs failed stopped pre (if condition then first else other) (if condition then second else another) post := by
  by_cases test : condition
  · simpa only [if_pos test] using holds test
  · simpa only [if_neg test] using fails test

theorem Pairs.imp {before : σ → τ → Prop} {post after : α → β → σ → τ → Prop} {source : Comp σ ε α}
    {target : Comp τ ε β} (pairs : Pairs failed stopped pre source target post)
    (weaker : ∀ s t, before s t → pre s t) (stronger : ∀ left right s t, post left right s t → after left right s t) :
    Pairs failed stopped before source target after := by
  intro s t paired
  have met := pairs s t (weaker s t paired)
  generalize source.run s = ran at met ⊢
  generalize target.run t = beside at met ⊢
  cases met with
  | returned holds => exact .returned (stronger _ _ _ _ holds)
  | threw holds => exact .threw holds
  | stopped early => exact .stopped early

/-- Two sequences; behind a first part that stops early the rest must leave it so. -/
theorem pairs_bind_of_stays {source : Comp σ ε α} {target : Comp τ ε β} {left : α → Comp σ ε γ}
    {right : β → Comp τ ε δ} {between : α → β → σ → τ → Prop} {post : γ → δ → σ → τ → Prop}
    (first : Pairs failed stopped pre source target between) (stays : ∀ value, StaysStopped stopped (left value))
    (second : ∀ value other, Pairs failed stopped (between value other) (left value) (right other) post) :
    Pairs failed stopped pre (source >>= left) (target >>= right) post := by
  intro s t paired
  have met := first s t paired
  rw [run_bind, run_bind]
  generalize source.run s = ran at met
  generalize target.run t = beside at met
  cases met with
  | returned holds => exact second _ _ _ _ holds
  | threw holds => exact .threw holds
  | @stopped outcome error next beside early =>
      cases outcome with
      | error error => exact .stopped early
      | ok value => exact .stopped (stays value error next beside early)

/-- Two sequences whose first parts do not stop early. -/
theorem pairs_bind {source : Comp σ ε α} {target : Comp τ ε β} {left : α → Comp σ ε γ} {right : β → Comp τ ε δ}
    {between : α → β → σ → τ → Prop} {post : γ → δ → σ → τ → Prop}
    (first : Pairs failed NeverStops pre source target between)
    (second : ∀ value other, Pairs failed stopped (between value other) (left value) (right other) post) :
    Pairs failed stopped pre (source >>= left) (target >>= right) post := by
  intro s t paired
  have met := first s t paired
  rw [run_bind, run_bind]
  generalize source.run s = ran at met
  generalize target.run t = beside at met
  cases met with
  | returned holds => exact second _ _ _ _ holds
  | threw holds => exact .threw holds
  | stopped early => exact early.elim

theorem Pairs.of_never {source : Comp σ ε α} {target : Comp τ ε β} {post : α → β → σ → τ → Prop}
    (pairs : Pairs failed NeverStops pre source target post) : Pairs failed stopped pre source target post := by
  intro s t paired
  have met := pairs s t paired
  generalize source.run s = ran at met ⊢
  generalize target.run t = beside at met ⊢
  cases met with
  | returned holds => exact .returned holds
  | threw holds => exact .threw holds
  | stopped early => exact early.elim

/-- What the first computation alone returns is returned beside the second one, too. -/
theorem Pairs.and_returns {post : α → β → σ → τ → Prop} {before : σ → Prop} {after : α → σ → Prop}
    {threw : ε → σ → Prop} {source : Comp σ ε α} {target : Comp τ ε β}
    (pairs : Pairs failed stopped pre source target post) (alone : Triple before source after threw)
    (enters : ∀ s t, pre s t → before s) :
    Pairs failed stopped pre source target fun left right s t => post left right s t ∧ after left s := by
  intro s t paired
  have met := pairs s t paired
  have returns := (alone s (enters s t paired)).1
  generalize source.run s = ran at met returns ⊢
  generalize target.run t = beside at met ⊢
  cases met with
  | returned holds => exact .returned ⟨holds, returns _ _ rfl⟩
  | threw holds => exact .threw holds
  | stopped early => exact .stopped early

/-- What a pair of rounds leaves: both go on, or both are done. -/
def RoundsPost (carried : β → σ → τ → Prop) (post : γ → δ → σ → τ → Prop) :
    LoopStep β γ → LoopStep β δ → σ → τ → Prop
  | .next left, .next right, s, t => left = right ∧ carried left s t
  | .done left, .done right, s, t => post left right s t
  | _, _, _, _ => False

theorem staysStopped_pure (value : α) : StaysStopped stopped (pure value : Comp σ ε α) := fun _ _ _ early => early

theorem staysStopped_throw (error : ε) : StaysStopped stopped (throw error : Comp σ ε α) := fun _ _ _ early => early

theorem staysStopped_bind {source : Comp σ ε α} {continuation : α → Comp σ ε γ}
    (first : StaysStopped stopped source) (second : ∀ value, StaysStopped stopped (continuation value)) :
    StaysStopped stopped (source >>= continuation) := by
  intro error s t early
  have ended := first error s t early
  rw [run_bind]
  generalize source.run s = ran at ended
  obtain ⟨outcome, next⟩ := ran
  cases outcome with
  | error other => exact ended
  | ok value => exact second value error next t ended

theorem staysStopped_iterate {exhausted : ε} {body : β → Comp σ ε (LoopStep β γ)}
    (round : ∀ current, StaysStopped stopped (body current)) (fuel : Nat) (start : β) :
    StaysStopped stopped (iterate exhausted body fuel start) := by
  induction fuel generalizing start with
  | zero => exact staysStopped_throw exhausted
  | succ fuel ih =>
      refine staysStopped_bind (round start) fun step => ?_
      cases step with
      | next following => exact ih following
      | done result => exact staysStopped_pure result

theorem pairs_iterate {carried : β → σ → τ → Prop} {post : γ → δ → σ → τ → Prop} {exhausted : ε}
    {body : β → Comp σ ε (LoopStep β γ)} {other : β → Comp τ ε (LoopStep β δ)}
    (exhausts : ∀ current s t, carried current s t → failed exhausted s t)
    (stays : ∀ current, StaysStopped stopped (body current))
    (round : ∀ current, Pairs failed stopped (carried current) (body current) (other current)
      (RoundsPost carried post)) (fuel : Nat) (start : β) :
    Pairs failed stopped (carried start) (iterate exhausted body fuel start) (iterate exhausted other fuel start)
      post := by
  induction fuel generalizing start with
  | zero => exact pairs_throw fun s t paired => exhausts start s t paired
  | succ fuel ih =>
      refine pairs_bind_of_stays (round start) (fun step => ?_) fun step beside => ?_
      · cases step with
        | next following => exact staysStopped_iterate stays fuel following
        | done result => exact staysStopped_pure result
      · cases step with
        | next left =>
            cases beside with
            | next right =>
                intro s t paired
                obtain ⟨rfl, holds⟩ := paired
                exact ih left s t holds
            | done right => exact fun _ _ paired => paired.elim
        | done left =>
            cases beside with
            | next right => exact fun _ _ paired => paired.elim
            | done right => exact pairs_pure fun _ _ paired => paired

/-- Loops that are as large at the start make the same number of rounds. -/
theorem pairs_loop (carried : β → σ → τ → Prop) {post : γ → δ → σ → τ → Prop} {exhausted : ε} {size : β → σ → Nat}
    {other : β → τ → Nat} {body : β → Comp σ ε (LoopStep β γ)} {another : β → Comp τ ε (LoopStep β δ)} {start : β}
    (sizes : ∀ s t, carried start s t → other start t = size start s)
    (exhausts : ∀ current s t, carried current s t → failed exhausted s t)
    (stays : ∀ current, StaysStopped stopped (body current))
    (round : ∀ current, Pairs failed stopped (carried current) (body current) (another current)
      (RoundsPost carried post)) :
    Pairs failed stopped (carried start) (loop size exhausted body start) (loop other exhausted another start)
      post := by
  intro s t paired
  have met := pairs_iterate exhausts stays round (size start s + 1) start s t paired
  simp only [loop]
  rw [sizes s t paired]
  exact met

/-- One computation on parts that are the same in both states. -/
theorem pairs_onPart {ρ : Type} {view : σ → ρ} {beside : τ → ρ} {update : ρ → σ → σ} {change : ρ → τ → τ}
    {post : α → α → σ → τ → Prop} (source : Comp ρ ε α) (same : ∀ s t, pre s t → beside t = view s)
    (returns : ∀ value part s t, pre s t → post value value (update part s) (change part t))
    (throws : ∀ error part s t, pre s t → failed error (update part s) (change part t)) :
    Pairs failed stopped pre (onPart view update source) (onPart beside change source) post := by
  intro s t paired
  simp only [onPart]
  rw [same s t paired]
  cases source.run (view s) with
  | mk outcome part =>
      cases outcome with
      | ok value => exact .returned (returns value part s t paired)
      | error error => exact .threw (throws error part s t paired)

end XmlParser.Computation.Comp
