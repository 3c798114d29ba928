import Mathlib.Data.List.Basic

/-! Calls answered one by one, until an answer is an interruption. An answer may
depend on all calls made so far. -/

set_option autoImplicit false

namespace XmlParser.Calls

variable {α ε : Type}

/-- The calls up to the first one that is interrupted, and its answer. -/
def firstInterrupt (answer : List α → Option ε) : List α → List α → Option (List α × ε)
  | _, [] => none
  | earlier, call :: later =>
      match answer (earlier ++ [call]) with
      | some interruption => some (earlier ++ [call], interruption)
      | none => firstInterrupt answer (earlier ++ [call]) later

variable {answer : List α → Option ε} {earlier front later : List α}

@[simp] theorem firstInterrupt_nil : firstInterrupt answer earlier [] = none := rfl

theorem firstInterrupt_cons_some {call : α} {interruption : ε}
    (answered : answer (earlier ++ [call]) = some interruption) :
    firstInterrupt answer earlier (call :: later) = some (earlier ++ [call], interruption) := by
  simp [firstInterrupt, answered]

theorem firstInterrupt_cons_none {call : α} (answered : answer (earlier ++ [call]) = none) :
    firstInterrupt answer earlier (call :: later) = firstInterrupt answer (earlier ++ [call]) later := by
  simp [firstInterrupt, answered]

/-- What interrupts the calls in front interrupts all of them. -/
theorem firstInterrupt_append_some {result : List α × ε}
    (interrupted : firstInterrupt answer earlier front = some result) :
    firstInterrupt answer earlier (front ++ later) = some result := by
  induction front generalizing earlier with
  | nil => cases interrupted
  | cons call front ih =>
      cases answered : answer (earlier ++ [call]) with
      | some interruption =>
          rw [firstInterrupt_cons_some answered] at interrupted
          rw [List.cons_append, firstInterrupt_cons_some answered, interrupted]
      | none =>
          rw [firstInterrupt_cons_none answered] at interrupted
          rw [List.cons_append, firstInterrupt_cons_none answered, ih interrupted]

theorem firstInterrupt_append_none (passed : firstInterrupt answer earlier front = none) :
    firstInterrupt answer earlier (front ++ later) = firstInterrupt answer (earlier ++ front) later := by
  induction front generalizing earlier with
  | nil => simp
  | cons call front ih =>
      cases answered : answer (earlier ++ [call]) with
      | some interruption =>
          rw [firstInterrupt_cons_some answered] at passed
          cases passed
      | none =>
          rw [firstInterrupt_cons_none answered] at passed
          simp [firstInterrupt_cons_none answered, ih passed]

/-- Nothing interrupts calls that are all answered without. -/
theorem firstInterrupt_eq_none (passed : ∀ calls, calls ≠ [] → calls <+: front → answer (earlier ++ calls) = none) :
    firstInterrupt answer earlier front = none := by
  induction front generalizing earlier with
  | nil => rfl
  | cons call front ih =>
      have first : answer (earlier ++ [call]) = none := passed [call] (List.cons_ne_nil _ _) (by simp)
      rw [firstInterrupt_cons_none first]
      refine ih fun calls _ isPrefix => ?_
      simpa using passed (call :: calls) (List.cons_ne_nil _ _) (by simpa using isPrefix)

/-- The last of some calls is the first one that is interrupted. -/
theorem firstInterrupt_concat {call : α} {interruption : ε} (passed : firstInterrupt answer [] front = none)
    (answered : answer (front ++ [call]) = some interruption) :
    firstInterrupt answer [] (front ++ [call]) = some (front ++ [call], interruption) := by
  rw [firstInterrupt_append_none passed, List.nil_append, firstInterrupt_cons_some answered]

/-- Calls that pass are answered, the last one included. -/
theorem answer_of_passed (nonempty : front ≠ []) (passed : firstInterrupt answer earlier front = none) :
    answer (earlier ++ front) = none := by
  induction front generalizing earlier with
  | nil => exact absurd rfl nonempty
  | cons call front ih =>
      cases answered : answer (earlier ++ [call]) with
      | some interruption =>
          rw [firstInterrupt_cons_some answered] at passed
          cases passed
      | none =>
          rw [firstInterrupt_cons_none answered] at passed
          cases front with
          | nil => exact answered
          | cons next front => simpa using ih (List.cons_ne_nil next front) passed

/-- How a series of calls ends, and which were made: as without interruption, or
by the first interruption. -/
def interrupted {ω : Type} (answer : List α → Option ε) (raise : ε → ω) (run : ω × List α) : ω × List α :=
  match firstInterrupt answer [] run.2 with
  | none => run
  | some (calls, interruption) => (raise interruption, calls)

/-- Some of the calls are handed on, the others are answered without. -/
def handedOn (passes : α → Bool) (answer : List α → Option ε) (calls : List α) : Option ε :=
  match calls.getLast? with
  | none => none
  | some call => if passes call then answer (calls.filter passes) else none

theorem handedOn_append (passes : α → Bool) (answer : List α → Option ε) (calls : List α) (call : α) :
    handedOn passes answer (calls ++ [call]) =
      if passes call then answer (calls.filter passes ++ [call]) else none := by
  cases isHeard : passes call with
  | false => simp [handedOn, isHeard]
  | true => simp [handedOn, isHeard]

/-- Whoever gets some of the calls interrupts them where it interrupts these alone. -/
theorem firstInterrupt_handedOn (passes : α → Bool) (answer : List α → Option ε) (earlier later : List α) :
    (firstInterrupt (handedOn passes answer) earlier later).map (fun result => (result.1.filter passes, result.2)) =
      firstInterrupt answer (earlier.filter passes) (later.filter passes) := by
  induction later generalizing earlier with
  | nil => rfl
  | cons call later ih =>
      have answered := handedOn_append passes answer earlier call
      cases isHeard : passes call with
      | false =>
          rw [isHeard, if_neg Bool.false_ne_true] at answered
          rw [firstInterrupt_cons_none answered, ih]
          simp [isHeard]
      | true =>
          rw [isHeard, if_pos rfl] at answered
          rw [List.filter_cons_of_pos isHeard]
          cases result : answer (earlier.filter passes ++ [call]) with
          | some interruption =>
              rw [firstInterrupt_cons_some (answered.trans result), firstInterrupt_cons_some result]
              simp [isHeard]
          | none =>
              rw [firstInterrupt_cons_none (answered.trans result), firstInterrupt_cons_none result, ih]
              simp [isHeard]

theorem interrupted_handedOn {ω : Type} (passes : α → Bool) (answer : List α → Option ε) (raise : ε → ω)
    (run : ω × List α) :
    let heard := interrupted (handedOn passes answer) raise run
    (heard.1, heard.2.filter passes) = interrupted answer raise (run.1, run.2.filter passes) := by
  have same := firstInterrupt_handedOn passes answer [] run.2
  rw [List.filter_nil] at same
  dsimp only [interrupted]
  rw [← same]
  cases firstInterrupt (handedOn passes answer) [] run.2 with
  | none => rfl
  | some result => rfl

end XmlParser.Calls
