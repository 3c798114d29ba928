import XmlParser.Subsets

/-! The offsets that the reader of external element declarations computes. -/

set_option autoImplicit false

namespace XmlParser

open XmlParser.Computation Comp

/-! ## Local variables -/

/-- `name_start` -/
def nameStartOf (declaration : Bytes) : Nat :=
  skipFrom (· == 0x20) declaration (ascii "<!ELEMENT").length

/-- `cursor` behind the second loop. -/
def nameEndOf (declaration : Bytes) : Nat :=
  skipFrom (· != 0x20) declaration (nameStartOf declaration)

/-- `cursor` behind the third loop. -/
def modelStartOf (declaration : Bytes) : Nat :=
  skipFrom (· == 0x20) declaration (nameEndOf declaration)

/-- `declaration.size() - cursor - 1` -/
def modelLengthOf (declaration : Bytes) : Nat :=
  sizeSub (sizeSub declaration.length (modelStartOf declaration)) 1

def nameOf (declaration : Bytes) : Bytes :=
  substr declaration (nameStartOf declaration) (nameEndOf declaration - nameStartOf declaration)

def modelOf (declaration : Bytes) : Bytes :=
  substr declaration (modelStartOf declaration) (modelLengthOf declaration)

theorem Parser.parseExternalElementDeclaration_eq (p : Parser) (declaration : Bytes) :
    p.parseExternalElementDeclaration declaration = (do
      p.enforceDtdDeclarationLimit
      if declaration.getLast? != some 0x3E then
        p.failHere .validity "invalid external element declaration"
      else
        declareElement (nameOf declaration) (modelOf declaration) (← look p.location)) := by
  unfold parseExternalElementDeclaration
  refine congrArg _ (funext fun _ => ?_)
  dsimp only
  rw [nameOf, modelOf, modelLengthOf, modelStartOf, nameEndOf, nameStartOf]

/-- The loops stop in front of the last character, nothing wraps, and `>` is in neither
part. -/
structure WithinDeclaration (declaration : Bytes) : Prop where
  nameStart : nameStartOf declaration < declaration.length
  nameEnd : nameEndOf declaration < declaration.length
  modelStart : modelStartOf declaration < declaration.length
  noWrap : modelStartOf declaration + modelLengthOf declaration + 1 = declaration.length
  name : 0x3E ∉ nameOf declaration
  model : 0x3E ∉ modelOf declaration

/-- There is a U+0020 behind the name. -/
def NameEnds (declaration : Bytes) : Prop :=
  0x20 ∈ (declaration.drop (ascii "<!ELEMENT").length).dropWhile (· == 0x20)

instance : DecidablePred NameEnds := fun _ => inferInstanceAs (Decidable (_ ∈ _))

/-! ## Slices -/

/-- The slice that a round hands over, and what it leaves of the text. -/
def handedSlice? (subset : Bytes) : Option (Bytes × Bytes) :=
  let rest := subset.dropWhile isAsciiSpace
  if (ascii "<!ELEMENT").isPrefixOf rest && rest.contains 0x3E then
    let close := (rest.takeWhile (· != 0x3E)).length
    some (rest.take (close + 1), rest.drop (close + 1))
  else none

/-- The slices that a run of `parse_external_subset_text` hands to
`parse_external_element_declaration`. -/
inductive Hands (p : Parser) : Bytes → ParserState → Bytes → Prop where
  | now {subset slice after : Bytes} {s : ParserState} :
      handedSlice? subset = some (slice, after) → Hands p subset s slice
  | later {subset after slice : Bytes} {s t : ParserState} :
      (p.externalSubsetRound subset).run s = (.ok (.next after), t) →
      Hands p after t slice → Hands p subset s slice

namespace Parser

variable (p : Parser)

/-- A round hands over that slice, or does not change the state. -/
theorem externalSubsetRound_eq_handed (subset : Bytes) :
    match handedSlice? subset with
    | some (slice, after) =>
        p.externalSubsetRound subset =
          p.parseExternalElementDeclaration slice >>= fun _ => pure (.next after)
    | none => ∀ s, ((p.externalSubsetRound subset).run s).2 = s ∧
        ∀ after, ((p.externalSubsetRound subset).run s).1 ≠ .ok (.next after) := by
  unfold handedSlice? externalSubsetRound
  dsimp only
  generalize subset.dropWhile isAsciiSpace = rest
  cases starts : (ascii "<!ELEMENT").isPrefixOf rest with
  | true =>
      have nonempty : rest.isEmpty = false := by
        cases rest with
        | nil => cases starts
        | cons => rfl
      rw [nonempty, if_neg Bool.false_ne_true, if_pos rfl]
      cases closed : rest.contains 0x3E with
      | true => rfl
      | false => exact fun _ => ⟨rfl, nofun⟩
  | false =>
      cases rest with
      | nil => exact fun _ => ⟨rfl, nofun⟩
      | cons => exact fun _ => ⟨rfl, nofun⟩

end Parser

/-- A text up to its first `>`, and what is behind it. -/
theorem split_close {front : Bytes} (absent : 0x3E ∉ front) (after : Bytes) :
    let text := front ++ 0x3E :: after
    let close := (text.takeWhile (· != 0x3E)).length
    text.take (close + 1) = front ++ [0x3E] ∧ text.drop (close + 1) = after := by
  have open' : ∀ byte ∈ front, (byte != 0x3E) = true :=
    fun byte member => bne_iff_ne.mpr fun same => absent (same ▸ member)
  dsimp only
  rw [List.takeWhile_append_of_pos open', List.takeWhile_cons_of_neg (by decide), List.append_nil,
    List.take_length_add_append, List.drop_length_add_append]
  exact ⟨rfl, rfl⟩

theorem handedSlice?_eq_some {subset slice after : Bytes}
    (handed : handedSlice? subset = some (slice, after)) :
    slice.length + after.length ≤ subset.length ∧
      ∃ body, 0x3E ∉ body ∧ slice = ascii "<!ELEMENT" ++ (body ++ [0x3E]) := by
  unfold handedSlice? at handed
  have shorter := (List.dropWhile_suffix isAsciiSpace (l := subset)).length_le
  dsimp only at handed
  generalize subset.dropWhile isAsciiSpace = rest at handed shorter
  split at handed
  · rename_i tests
    rw [Bool.and_eq_true, List.isPrefixOf_iff_prefix, List.contains_iff_mem] at tests
    obtain ⟨⟨text, rfl⟩, closed⟩ := tests
    have keyword : 0x3E ∉ ascii "<!ELEMENT" := by decide +kernel
    have inText : 0x3E ∈ text := (List.mem_append.mp closed).resolve_left keyword
    obtain ⟨body, behind, rfl, absent⟩ := List.eq_append_cons_of_mem inText
    have front : 0x3E ∉ ascii "<!ELEMENT" ++ body := fun member =>
      (List.mem_append.mp member).elim keyword absent
    obtain ⟨taken, dropped⟩ := split_close front behind
    rw [← List.append_assoc] at handed shorter
    rw [taken, dropped] at handed
    cases handed
    refine ⟨?_, body, absent, List.append_assoc _ _ _⟩
    rw [List.length_append, List.length_cons] at shorter
    rw [List.length_append, List.length_singleton]
    omega
  · cases handed

/-! ## The loops -/

theorem skipFrom_lt_iff {test : UInt8 → Bool} {text : Bytes} {cursor : Nat} :
    skipFrom test text cursor < text.length ↔ (text.drop cursor).dropWhile test ≠ [] := by
  rw [← drop_skipFrom, Ne, List.drop_eq_nil_iff, Nat.not_le]

theorem nameOf_eq (declaration : Bytes) :
    nameOf declaration = (declaration.drop (nameStartOf declaration)).takeWhile (· != 0x20) :=
  substr_skipFrom _ _ _

/-- The loop over the name stops inside the declaration if and only if a U+0020 ends the name. -/
theorem nameEndOf_lt_iff {declaration : Bytes} :
    nameEndOf declaration < declaration.length ↔ NameEnds declaration := by
  unfold nameEndOf NameEnds nameStartOf
  rw [skipFrom_lt_iff, drop_skipFrom, Ne, List.dropWhile_eq_nil_iff]
  simp

theorem dropWhile_close {test : UInt8 → Bool} (stops : test 0x3E = false) (text : Bytes) :
    (text ++ [0x3E]).dropWhile test = text.dropWhile test ++ [0x3E] := by
  rw [List.dropWhile_append]
  split
  · rename_i empty
    rw [List.isEmpty_iff.mp empty, List.nil_append, List.dropWhile_cons_of_neg (by rw [stops]; decide)]
  · rfl

/-- What the offsets find in a declaration with a U+0020 behind its name. -/
theorem parts_of_split {body name behind declaration : Bytes}
    (isDeclaration : declaration = ascii "<!ELEMENT" ++ (body ++ [0x3E]))
    (split : body.dropWhile (· == 0x20) = name ++ 0x20 :: behind) (noSpace : 0x20 ∉ name) :
    declaration.drop (nameStartOf declaration) = name ++ 0x20 :: behind ++ [0x3E] ∧
      nameOf declaration = name ∧
      declaration.drop (modelStartOf declaration) = behind.dropWhile (· == 0x20) ++ [0x3E] := by
  have start : declaration.drop (ascii "<!ELEMENT").length = body ++ [0x3E] := by
    rw [isDeclaration, List.drop_left]
  have isNamed : declaration.drop (nameStartOf declaration) = name ++ 0x20 :: behind ++ [0x3E] := by
    rw [nameStartOf, drop_skipFrom, start, dropWhile_close rfl, split]
  have words : ∀ byte ∈ name, (byte != 0x20) = true :=
    fun byte member => bne_iff_ne.mpr fun same => noSpace (same ▸ member)
  refine ⟨isNamed, ?_, ?_⟩
  · rw [nameOf_eq, isNamed, List.append_assoc, List.takeWhile_append_of_pos words,
      List.cons_append, List.takeWhile_cons_of_neg (by decide), List.append_nil]
  · rw [modelStartOf, drop_skipFrom, nameEndOf, drop_skipFrom, isNamed, List.append_assoc,
      List.dropWhile_append_of_pos words, List.cons_append, List.dropWhile_cons_of_neg (by decide),
      List.dropWhile_cons_of_pos rfl, dropWhile_close rfl]

theorem nameEnds_iff {body declaration : Bytes}
    (isDeclaration : declaration = ascii "<!ELEMENT" ++ (body ++ [0x3E])) :
    NameEnds declaration ↔ 0x20 ∈ body.dropWhile (· == 0x20) := by
  have differs : ¬ (0x20 : UInt8) = 0x3E := by decide
  rw [NameEnds, isDeclaration, List.drop_left, dropWhile_close rfl, List.mem_append, List.mem_singleton,
    or_iff_left differs]

/-- With a U+0020 behind the name the offsets stay inside the declaration, and without
one they do not. -/
theorem withinDeclaration_iff {body : Bytes} (absent : 0x3E ∉ body) {declaration : Bytes}
    (isDeclaration : declaration = ascii "<!ELEMENT" ++ (body ++ [0x3E]))
    (small : declaration.length < 2 ^ 64) :
    WithinDeclaration declaration ↔ NameEnds declaration := by
  constructor
  · intro within
    exact nameEndOf_lt_iff.mp within.nameEnd
  · intro ends
    obtain ⟨name, behind, split, noSpace⟩ := List.eq_append_cons_of_mem ((nameEnds_iff isDeclaration).mp ends)
    have inBody : ∀ byte ∈ name ++ 0x20 :: behind, byte ∈ body := by
      rw [← split]
      exact fun byte member => (List.dropWhile_suffix _).subset member
    obtain ⟨isNamed, isName, isModel⟩ := parts_of_split isDeclaration split noSpace
    have modelStart : modelStartOf declaration < declaration.length := by
      rw [← Nat.not_le, ← List.drop_eq_nil_iff, isModel]
      exact List.append_ne_nil_of_right_ne_nil _ (List.cons_ne_nil _ _)
    exact {
      nameStart := by
        rw [← Nat.not_le, ← List.drop_eq_nil_iff, isNamed]
        exact List.append_ne_nil_of_right_ne_nil _ (List.cons_ne_nil _ _)
      nameEnd := nameEndOf_lt_iff.mpr ends
      modelStart
      noWrap := by
        unfold modelLengthOf sizeSub
        omega
      name := by
        rw [isName]
        exact fun member => absent (inBody _ (List.mem_append_left _ member))
      model := by
        rw [modelOf, modelLengthOf, substr_last small, isModel, List.dropLast_concat]
        intro member
        have behindName := (List.dropWhile_suffix _).subset member
        exact absent (inBody _ (List.mem_append_right _ (List.mem_cons_of_mem _ behindName))) }

/-- A declaration that the offsets leave is not entered: its model is empty. -/
theorem Parser.parseExternalElementDeclaration_ne_ok (p : Parser) {declaration : Bytes}
    (unended : ¬ NameEnds declaration) (s t : ParserState) :
    (p.parseExternalElementDeclaration declaration).run s ≠ (.ok (), t) := by
  have beyond : declaration.length ≤ modelStartOf declaration := by
    have nameEnd := mt nameEndOf_lt_iff.mp unended
    unfold modelStartOf skipFrom
    omega
  have noModel : modelOf declaration = [] := by
    rw [modelOf, substr, List.drop_eq_nil_of_le beyond, List.take_nil]
  rw [p.parseExternalElementDeclaration_eq, noModel]
  intro ran
  obtain ⟨_, _, _, ran⟩ := bind_eq_ok.mp ran
  split at ran
  · rw [failHere, run_look_bind] at ran
    cases ran
  · rw [run_look_bind] at ran
    obtain ⟨_, declared, isDeclared, _⟩ := declareElement_eq_ok_iff.mp ran
    rw [elementModel_nil] at isDeclared
    cases isDeclared

/-! ## Runs -/

theorem handed_of_hands {p : Parser} {subset slice : Bytes} {s : ParserState}
    (hands : Hands p subset s slice) :
    slice.length ≤ subset.length ∧
      ∃ body, 0x3E ∉ body ∧ slice = ascii "<!ELEMENT" ++ (body ++ [0x3E]) := by
  induction hands with
  | now handed =>
      obtain ⟨shorter, body⟩ := handedSlice?_eq_some handed
      exact ⟨by omega, body⟩
  | @later subset after slice s t ran _ ih =>
      refine ⟨Nat.le_trans ih.1 ?_, ih.2⟩
      have round := p.externalSubsetRound_eq_handed subset
      cases handed : handedSlice? subset with
      | none =>
          rw [handed] at round
          exact absurd (congrArg Prod.fst ran) ((round s).2 after)
      | some pair =>
          obtain ⟨first, behind⟩ := pair
          rw [handed] at round
          dsimp only at round
          rw [round] at ran
          obtain ⟨_, _, _, ended⟩ := bind_eq_ok.mp ran
          cases ended
          have shorter := (handedSlice?_eq_some handed).1
          omega

/-- The offsets stay inside a declaration that a run hands over if and only if there is a
U+0020 behind its name. -/
theorem withinDeclaration_iff_nameEnds (p : Parser) {subset slice : Bytes} {s : ParserState}
    (small : subset.length < 2 ^ 64) (hands : Hands p subset s slice) :
    WithinDeclaration slice ↔ NameEnds slice := by
  obtain ⟨shorter, body, absent, isSlice⟩ := handed_of_hands hands
  exact withinDeclaration_iff absent isSlice (Nat.lt_of_le_of_lt shorter small)

/-- A parser with the default options. -/
def defaultParser : Parser :=
  { options := {}, handler := ⟨fun _ => none⟩, endLocation := ⟨0, 1, 1⟩ }

theorem withinDeclaration_iff_nameEnds_sample : WithinDeclaration (ascii "<!ELEMENT a\t (b)>") := by
  have hands : Hands defaultParser (ascii " <!ELEMENT a\t (b)>") { rest := [] } (ascii "<!ELEMENT a\t (b)>") :=
    @Hands.now defaultParser _ _ [] _ (by decide +kernel)
  exact (withinDeclaration_iff_nameEnds defaultParser (by decide +kernel) hands).mpr (by decide +kernel)

/-- Without a model the name takes in the closing `>` and the length of the model wraps. -/
theorem not_withinDeclaration_of_hands :
    Hands defaultParser (ascii "<!ELEMENT a>") { rest := [] } (ascii "<!ELEMENT a>") ∧
      nameOf (ascii "<!ELEMENT a>") = ascii "a>" ∧
      modelStartOf (ascii "<!ELEMENT a>") = (ascii "<!ELEMENT a>").length ∧
      modelLengthOf (ascii "<!ELEMENT a>") = 2 ^ 64 - 1 ∧
      ¬ WithinDeclaration (ascii "<!ELEMENT a>") := by
  refine ⟨@Hands.now defaultParser _ _ [] _ (by decide +kernel), by decide +kernel, by decide +kernel, by decide +kernel, ?_⟩
  intro within
  exact absurd within.name (by decide +kernel)

end XmlParser
