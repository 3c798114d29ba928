import XmlParser.Library.Computation

/-! Reads of a text by position that fail out of range, and the loops that step
through a text with a position. -/

set_option autoImplicit false

namespace XmlParser.Computation.Comp

variable {σ ε α β : Type}

/-! ## Reads -/

/-- `text[index]` -/
def get (fault : ε) (text : List α) (index : Nat) : Comp σ ε α :=
  match text[index]? with
  | some item => pure item
  | none => throw fault

/-- `text.back()` -/
def last (fault : ε) (text : List α) : Comp σ ε α :=
  match text.getLast? with
  | some item => pure item
  | none => throw fault

/-- `text.substr(position, count)`: it may take fewer than `count` items, but it
must not begin behind the end. -/
def slice (fault : ε) (text : List α) (position count : Nat) : Comp σ ε (List α) :=
  if position > text.length then throw fault else pure ((text.drop position).take count)

/-- A view of `count` items from `position` on, all of them inside the text. -/
def window (fault : ε) (text : List α) (position count : Nat) : Comp σ ε (List α) :=
  if position + count > text.length then throw fault else pure ((text.drop position).take count)

/-- `text.find(item, position)` -/
def find [BEq α] (text : List α) (item : α) (position : Nat) : Option Nat :=
  ((text.drop position).findIdx? (· == item)).map (position + ·)

/-! ## Loops over positions -/

/-- Whether the items from a position on are those of a keyword, compared up to
the first difference. -/
def matchesFrom [BEq β] (fault : ε) (view : α → β) (text : List α) : List β → Nat → Comp σ ε Bool
  | [], _ => pure true
  | expected :: keyword, index => do
      if view (← get fault text index) == expected then
        matchesFrom fault view text keyword (index + 1)
      else
        pure false

/-- `for (; count > 0; --count, ++index) { value = step(value, text[index]); }` -/
def forRange (fault : ε) (step : β → α → Comp σ ε β) (text : List α) :
    (count index : Nat) → β → Comp σ ε β
  | 0, _, value => pure value
  | count + 1, index, value => do
      let item ← get fault text index
      let value ← step value item
      forRange fault step text count (index + 1) value

/-- One round of `while (index < text.size() && test(text[index])) { ++index; }`. -/
def seekRound (fault : ε) (test : α → Bool) (text : List α) (index : Nat) :
    Comp σ ε (LoopStep Nat Nat) :=
  if index < text.length then do
    if test (← get fault text index) then pure (.next (index + 1)) else pure (.done index)
  else
    pure (.done index)

def seek (fault exhausted : ε) (test : α → Bool) (text : List α) : Nat → Comp σ ε Nat :=
  loop (fun index _ => text.length - index) exhausted (seekRound fault test text)

/-! ## Reads in range -/

section InRange

variable {fault : ε} {text : List α}

theorem get_of_drop {index : Nat} {item : α} {rest : List α} (isRest : text.drop index = item :: rest) :
    (get fault text index : Comp σ ε α) = pure item := by
  have found : text[index]? = some item := by
    rw [← List.head?_drop, isRest, List.head?_cons]
  unfold get
  rw [found]

theorem drop_eq_cons {index : Nat} (inside : index < text.length) :
    ∃ item, text.drop index = item :: text.drop (index + 1) :=
  ⟨text[index], List.drop_eq_getElem_cons inside⟩

theorem drop_succ_of_drop {index : Nat} {item : α} {rest : List α} (isRest : text.drop index = item :: rest) :
    text.drop (index + 1) = rest := by
  rw [← List.drop_drop, isRest, List.drop_one, List.tail_cons]

theorem last_of_getLast? {item : α} (isLast : text.getLast? = some item) :
    (last fault text : Comp σ ε α) = pure item := by
  unfold last
  rw [isLast]

theorem slice_of_le {position : Nat} (inside : position ≤ text.length) (count : Nat) :
    (slice fault text position count : Comp σ ε (List α)) = pure ((text.drop position).take count) :=
  if_neg (Nat.not_lt.mpr inside)

theorem window_of_le {position count : Nat} (inside : position + count ≤ text.length) :
    (window fault text position count : Comp σ ε (List α)) = pure ((text.drop position).take count) :=
  if_neg (Nat.not_lt.mpr inside)

theorem findIdx?_eq_takeWhile [BEq α] [LawfulBEq α] (text : List α) (item : α) :
    text.findIdx? (· == item) =
      if text.contains item then some (text.takeWhile (· != item)).length else none := by
  induction text with
  | nil => rfl
  | cons first text ih =>
      rw [List.findIdx?_cons, ih, List.contains_cons, BEq.comm (a := item)]
      cases same : first == item with
      | true => simp [bne, same]
      | false => cases text.contains item <;> simp [bne, same]

theorem find_eq [BEq α] [LawfulBEq α] (item : α) (position : Nat) :
    find text item position =
      if (text.drop position).contains item then
        some (position + ((text.drop position).takeWhile (· != item)).length)
      else none := by
  unfold find
  rw [findIdx?_eq_takeWhile]
  split <;> rfl

/-- A keyword that fits into the rest of the text is compared inside it. -/
theorem matchesFrom_of_le [BEq β] [LawfulBEq β] {view : α → β} {keyword : List β} {index : Nat}
    (inside : index + keyword.length ≤ text.length) :
    (matchesFrom fault view text keyword index : Comp σ ε Bool) =
      pure (keyword.isPrefixOf ((text.drop index).map view)) := by
  induction keyword generalizing index with
  | nil => rfl
  | cons expected keyword ih =>
      rw [List.length_cons] at inside
      obtain ⟨item, isRest⟩ := drop_eq_cons (show index < text.length by omega)
      rw [matchesFrom, get_of_drop isRest, pure_bind, ih (by omega), isRest, List.map_cons, List.isPrefixOf,
        BEq.comm]
      cases expected == view item <;> rfl

theorem forRange_of_le {step : β → α → Comp σ ε β} {count index : Nat} (inside : index + count ≤ text.length)
    (value : β) :
    forRange fault step text count index value = ((text.drop index).take count).foldlM step value := by
  induction count generalizing index value with
  | zero => rfl
  | succ count ih =>
      obtain ⟨item, isRest⟩ := drop_eq_cons (show index < text.length by omega)
      rw [forRange, get_of_drop isRest, pure_bind, isRest, List.take_succ_cons, List.foldlM_cons]
      exact bind_congr fun following => ih (by omega) following

theorem iterate_seekRound {exhausted : ε} {test : α → Bool} (fuel : Nat) {index : Nat}
    (enough : text.length - index < fuel) :
    (iterate exhausted (seekRound fault test text) fuel index : Comp σ ε Nat) =
      pure (index + ((text.drop index).takeWhile test).length) := by
  induction fuel generalizing index with
  | zero => omega
  | succ fuel ih =>
      rw [iterate, seekRound]
      by_cases inside : index < text.length
      · obtain ⟨item, isRest⟩ := drop_eq_cons inside
        rw [if_pos inside, get_of_drop isRest, pure_bind, isRest, List.takeWhile_cons]
        cases test item with
        | false => rfl
        | true =>
            simp only [if_true, pure_bind, List.length_cons]
            rw [ih (by omega), Nat.add_right_comm, Nat.add_assoc]
      · rw [if_neg inside, pure_bind, List.drop_eq_nil_of_le (Nat.le_of_not_lt inside)]
        rfl

/-- The position behind the items that pass the test. -/
theorem seek_eq {exhausted : ε} (test : α → Bool) (index : Nat) :
    (seek fault exhausted test text index : Comp σ ε Nat) =
      pure (index + ((text.drop index).takeWhile test).length) := by
  unfold seek loop
  exact iterate_seekRound (text.length - index + 1) (Nat.lt_succ_self _)

end InRange

end XmlParser.Computation.Comp
