import XmlParser.Library.Triple

/-! A computation on a whole input and on the front of it: what it returns on the
whole it returns on the front as well, unless it fails there or comes to its end. -/

set_option autoImplicit false

namespace XmlParser.Computation.Comp

variable {σ τ ε α β γ : Type}

/-- How the state on the whole input continues the one on its front, and with
what a run on the front may fail. -/
structure Cutting (σ ε : Type) where
  Continues : σ → σ → Prop
  Refuses : ε → Prop

/-- How a run on the front may end when the one on the whole input has returned. -/
inductive CutEnds (cutting : Cutting σ ε) (starved : α → σ → Prop) (value : α) (final : σ) :
    Except ε α × σ → Prop where
  | kept {front : σ} (continues : cutting.Continues final front) :
      CutEnds cutting starved value final (.ok value, front)
  | starved {other : α} {front : σ} (ended : starved other front) :
      CutEnds cutting starved value final (.ok other, front)
  | refused {error : ε} {front : σ} (refuses : cutting.Refuses error) :
      CutEnds cutting starved value final (.error error, front)

/-- The first computation runs on the whole input, the second one on its front. -/
def Cuts (cutting : Cutting σ ε) (starved : α → σ → Prop) (source target : Comp σ ε α) : Prop :=
  ∀ whole front value final, cutting.Continues whole front →
    source.run whole = (.ok value, final) → CutEnds cutting starved value final (target.run front)

/-- The run on the front does not return at its end. -/
def Never : α → σ → Prop := fun _ _ => False

/-- A run on the front alone. -/
abbrev Alone (cutting : Cutting σ ε) (pre : σ → Prop) (target : Comp σ ε α)
    (starved : α → σ → Prop) : Prop :=
  Triple pre target starved fun error _ => cutting.Refuses error

variable {cutting : Cutting σ ε}

section Alone

variable {pre : σ → Prop} {starved : α → σ → Prop}

theorem alone_of_never {target : Comp σ ε α} (fails : Alone cutting pre target Never) :
    Alone cutting pre target starved :=
  fails.imp (fun _ holds => holds) (fun _ _ never => never.elim) fun _ _ refuses => refuses

theorem alone_bind_of_never {source : Comp σ ε β} {continuation : β → Comp σ ε α}
    (fails : Alone cutting pre source Never) : Alone cutting pre (source >>= continuation) starved :=
  triple_bind fails fun _ _ never => never.elim

end Alone

section Rules

variable {starved : α → σ → Prop}

theorem cuts_pure (value : α) : Cuts cutting starved (pure value) (pure value) := by
  intro whole front other final continues returned
  cases returned
  exact .kept continues

theorem cuts_throw (error : ε) (target : Comp σ ε α) : Cuts cutting starved (throw error) target := by
  intro whole front value final continues returned
  cases returned

theorem cuts_modify {starved : Unit → σ → Prop} {first second : σ → σ}
    (keeps : ∀ whole front, cutting.Continues whole front → cutting.Continues (first whole) (second front)) :
    Cuts cutting starved (modify first) (modify second) := by
  intro whole front value final continues returned
  cases returned
  exact .kept (keeps whole front continues)

theorem Cuts.imp {weaker : α → σ → Prop} {source target : Comp σ ε α}
    (cuts : Cuts cutting starved source target)
    (entails : ∀ value front, starved value front → weaker value front) :
    Cuts cutting weaker source target := by
  intro whole front value final continues returned
  have ended := cuts whole front value final continues returned
  revert ended
  generalize target.run front = ran
  intro ended
  cases ended with
  | kept continues => exact .kept continues
  | starved ended => exact .starved (entails _ _ ended)
  | refused refuses => exact .refused refuses

theorem Cuts.of_never {source target : Comp σ ε α} (cuts : Cuts cutting Never source target) :
    Cuts cutting starved source target :=
  cuts.imp fun _ _ never => never.elim

theorem cuts_bind {between : β → σ → Prop} {source target : Comp σ ε β} {left right : β → Comp σ ε α}
    (first : Cuts cutting between source target)
    (second : ∀ value, Cuts cutting starved (left value) (right value))
    (alone : ∀ value, Alone cutting (between value) (right value) starved) :
    Cuts cutting starved (source >>= left) (target >>= right) := by
  intro whole front value final continues returned
  obtain ⟨middle, next, ran, rest⟩ := bind_eq_ok.mp returned
  have ended := first whole front middle next continues ran
  cases ranTarget : target.run front with
  | mk outcome reached =>
      rw [ranTarget] at ended
      cases ended with
      | kept continues =>
          rw [run_bind_of_ok ranTarget]
          exact second middle next reached value final continues rest
      | starved ended =>
          rename_i other
          rw [run_bind_of_ok ranTarget]
          obtain ⟨returns, throws⟩ := alone other reached ended
          cases ranRest : (right other).run reached with
          | mk outcome last =>
              cases outcome with
              | ok result => exact .starved (returns result last ranRest)
              | error error => exact .refused (throws error last ranRest)
      | refused refuses =>
          rw [run_bind_of_error ranTarget]
          exact .refused refuses

/-- The same where the first part does not return at the end of the front. -/
theorem cuts_bind_never {source target : Comp σ ε β} {left right : β → Comp σ ε α}
    (first : Cuts cutting Never source target)
    (second : ∀ value, Cuts cutting starved (left value) (right value)) :
    Cuts cutting starved (source >>= left) (target >>= right) :=
  cuts_bind first second fun _ _ never => never.elim

/-- A test that may come out differently where the front is too short for it. -/
theorem cuts_read_bind {first second : σ → β} {left right : β → Comp σ ε α} (short : σ → Prop)
    (views : ∀ whole front, cutting.Continues whole front → first whole = second front ∨ short front)
    (kept : ∀ value, Cuts cutting starved (left value) (right value))
    (alone : ∀ value, Alone cutting (fun front => short front ∧ second front = value) (right value) starved) :
    Cuts cutting starved (read first >>= left) (read second >>= right) := by
  intro whole front value final continues returned
  rw [run_read_bind] at returned ⊢
  cases views whole front continues with
  | inl same =>
      rw [same] at returned
      exact kept _ whole front value final continues returned
  | inr isShort =>
      obtain ⟨returns, throws⟩ := alone _ front ⟨isShort, rfl⟩
      cases ran : (right (second front)).run front with
      | mk outcome last =>
          cases outcome with
          | ok result => exact .starved (returns result last ran)
          | error error => exact .refused (throws error last ran)

theorem cuts_read_bind_eq {first second : σ → β} {left right : β → Comp σ ε α}
    (views : ∀ whole front, cutting.Continues whole front → first whole = second front)
    (rest : ∀ value, Cuts cutting starved (left value) (right value)) :
    Cuts cutting starved (read first >>= left) (read second >>= right) :=
  cuts_read_bind (fun _ => False) (fun whole front continues => .inl (views whole front continues)) rest
    fun _ _ short => short.1.elim

/-- Nothing depends on what has been read. -/
theorem cuts_read_bind_any {first second : σ → β} {left right : β → Comp σ ε α}
    (rest : ∀ value other, Cuts cutting starved (left value) (right other)) :
    Cuts cutting starved (read first >>= left) (read second >>= right) := by
  intro whole front value final continues returned
  rw [run_read_bind] at returned ⊢
  exact rest _ _ whole front value final continues returned

theorem cuts_ite {condition : Prop} [Decidable condition] {first second left right : Comp σ ε α}
    (holds : condition → Cuts cutting starved first left)
    (fails : ¬ condition → Cuts cutting starved second right) :
    Cuts cutting starved (if condition then first else second) (if condition then left else right) := by
  by_cases test : condition
  · rw [if_pos test, if_pos test]
    exact holds test
  · rw [if_neg test, if_neg test]
    exact fails test

/-- Loops need not be bounded alike: only the run on the front may run out of rounds. -/
theorem cuts_iterate (invariant : β → σ → Prop) {ended : γ → σ → Prop} {exhausted : ε}
    {body next : β → Comp σ ε (LoopStep β γ)}
    (round : ∀ current, Cuts cutting (RoundPost invariant ended) (body current) (next current))
    (alone : ∀ current, Alone cutting (invariant current) (next current) (RoundPost invariant ended))
    (exhausts : cutting.Refuses exhausted) (fuel bound : Nat) (start : β) :
    Cuts cutting ended (iterate exhausted body fuel start) (iterate exhausted next bound start) := by
  induction bound generalizing fuel start with
  | zero =>
      intro whole front value final continues returned
      exact .refused exhausts
  | succ bound ih =>
      cases fuel with
      | zero => exact cuts_throw exhausted _
      | succ fuel =>
          refine cuts_bind (round start) (fun step => ?_) fun step => ?_
          · cases step with
            | next following => exact ih fuel following
            | done result => exact cuts_pure result
          · cases step with
            | next following =>
                exact triple_iterate invariant alone (fun _ _ _ => exhausts) bound following
            | done result => exact triple_pure fun _ holds => holds

theorem cuts_loop (invariant : β → σ → Prop) {ended : γ → σ → Prop} {size : β → σ → Nat} {exhausted : ε}
    {body next : β → Comp σ ε (LoopStep β γ)}
    (round : ∀ current, Cuts cutting (RoundPost invariant ended) (body current) (next current))
    (alone : ∀ current, Alone cutting (invariant current) (next current) (RoundPost invariant ended))
    (exhausts : cutting.Refuses exhausted) (start : β) :
    Cuts cutting ended (loop size exhausted body start) (loop size exhausted next start) :=
  fun whole front =>
    cuts_iterate invariant round alone exhausts (size start whole + 1) (size start front + 1) start
      whole front

/-- A loop whose rounds do not return at the end of the front. -/
theorem cuts_loop_never {size : β → σ → Nat} {exhausted : ε}
    {body next : β → Comp σ ε (LoopStep β γ)}
    (round : ∀ current, Cuts cutting Never (body current) (next current))
    (exhausts : cutting.Refuses exhausted) (start : β) :
    Cuts cutting Never (loop size exhausted body start) (loop size exhausted next start) :=
  cuts_loop Never (fun current => (round current).of_never) (fun _ _ never => never.elim) exhausts start

/-- The condition of a loop may come out differently where the front is too
short for it; from there the loop goes on alone. -/
theorem cuts_whileLoop (short : σ → Prop) {ended : β → σ → Prop} {size : σ → Nat} {exhausted : ε}
    {condition : σ → Bool} {body next : β → Comp σ ε β}
    (conditions : ∀ whole front, cutting.Continues whole front →
      condition whole = condition front ∨ short front)
    (round : ∀ current, Cuts cutting Never (body current) (next current))
    (alone : ∀ current, Alone cutting (fun front => short front ∧ condition front = true) (next current)
      fun _ => short)
    (ends : ∀ current front, short front → condition front = false → ended current front)
    (exhausts : cutting.Refuses exhausted) (start : β) :
    Cuts cutting ended (whileLoop size exhausted condition body start)
      (whileLoop size exhausted condition next start) := by
  have rest : ∀ current holds, Alone cutting (fun front => short front ∧ condition front = holds)
      (if holds then next current >>= fun following => pure (.next following) else pure (.done current))
      (RoundPost (fun _ => short) ended) := by
    intro current holds
    cases holds with
    | true => exact triple_bind (alone current) fun following => triple_pure fun _ isShort => isShort
    | false => exact triple_pure fun front stops => ends current front stops.1 stops.2
  refine cuts_loop (fun _ => short) (fun current => ?_) (fun current => ?_) exhausts start
  · refine cuts_read_bind short conditions (fun holds => cuts_ite (fun _ => ?_) fun _ => ?_) (rest current)
    · exact cuts_bind_never (round current) fun following => cuts_pure _
    · exact cuts_pure _
  · exact triple_read_bind_of_eq (rest current)

theorem cuts_onPart {inner : Cutting τ ε} {within : α → τ → Prop} {view : σ → τ} {update : τ → σ → σ}
    {source target : Comp τ ε α} (cuts : Cuts inner within source target)
    (views : ∀ whole front, cutting.Continues whole front → inner.Continues (view whole) (view front))
    (updates : ∀ whole front left right, cutting.Continues whole front → inner.Continues left right →
      cutting.Continues (update left whole) (update right front))
    (refuses : ∀ error, inner.Refuses error → cutting.Refuses error)
    (ends : ∀ value part front, within value part → starved value (update part front)) :
    Cuts cutting starved (onPart view update source) (onPart view update target) := by
  intro whole front value final continues returned
  obtain ⟨part, ran, rfl⟩ := run_onPart_eq_iff.mp returned
  have ended := cuts _ _ value part (views whole front continues) ran
  simp only [onPart]
  cases ranTarget : target.run (view front) with
  | mk outcome reached =>
      rw [ranTarget] at ended
      cases ended with
      | kept continued => exact .kept (updates whole front _ _ continues continued)
      | starved ended => exact .starved (ends _ _ _ ended)
      | refused refused => exact .refused (refuses _ refused)

end Rules

end XmlParser.Computation.Comp
