import XmlParser.EntityTables

/-! How far the limit on replacement texts holds for what references are replaced by. -/

set_option autoImplicit false

namespace XmlParser

open XmlParser.Computation Comp Macros

namespace Parser

variable (p : Parser)

/-- The literal bytes behind the last reference of a text fit in what the limit
leaves over the expansion of what precedes them. -/
def LeavesRoom (entities : List (Bytes × Bytes)) (count : Nat) (text : Bytes) : Prop :=
  ∀ expansion tail, (p.entitySystem entities).Valid expansion → 0 < expansion.calls →
    text = (p.entitySystem entities).text expansion ++ tail → 0x26 ∉ tail →
    count + expansion.calls ≤ p.options.maxEntityExpansions →
    expansion.value.length ≤ p.options.maxEntityReplacementBytes →
    expansion.value.length + tail.length ≤ p.options.maxEntityReplacementBytes

variable {p} {entities : List (Bytes × Bytes)}

theorem value_of_calls_eq_zero {expansion : Expansion UInt8} (none : expansion.calls = 0) :
    expansion.value = (p.entitySystem entities).text expansion := by
  induction expansion with
  | nil => rfl
  | symbol a rest ih => exact congrArg (a :: ·) (ih none)
  | constant name value rest => simp [Expansion.calls] at none
  | call name inner rest => simp [Expansion.calls] at none

/-- A call for a text that is within the limit returns texts within the limit if
and only if there is room for the bytes behind the last reference. -/
theorem expandEntityText_within_iff {start : SourceLocation} {fuel depth count : Nat} {text : Bytes}
    (small : text.length ≤ p.options.maxEntityReplacementBytes)
    (enough : p.options.maxEntityExpansions < fuel + count) (deep : depth ≤ count)
    (room : count ≤ p.options.maxEntityExpansions) :
    (∀ value after, (p.expandEntityText entities start fuel depth text).run count = (.ok value, after) →
        value.length ≤ p.options.maxEntityReplacementBytes) ↔
      p.LeavesRoom entities count text := by
  constructor
  · intro within expansion tail valid _ split literal counted fits
    have expands : p.Expands entities 0 text (expansion.value ++ tail) expansion.calls :=
      ⟨expansion, tail, valid, literal, split, rfl, rfl, fun _ => by omega⟩
    have returned := (@expandEntityText_eq_ok_iff p entities start fuel depth count _ text _ enough deep
      room).mpr ⟨_, expands, rfl, counted⟩
    rw [← List.length_append]
    exact within _ _ returned
  · intro leaves value after returned
    obtain ⟨calls, expands, rfl, counted⟩ := (expandEntityText_eq_ok_iff enough deep room).mp returned
    obtain ⟨expansion, tail, valid, literal, rfl, rfl, rfl, fits⟩ := expands
    rw [List.length_append]
    by_cases none : expansion.calls = 0
    · rw [value_of_calls_eq_zero none, ← List.length_append]
      exact small
    · have nonempty : expansion ≠ .nil := by
        intro empty
        subst empty
        exact none rfl
      have bounded := fits nonempty
      exact leaves expansion tail valid (Nat.pos_of_ne_zero none) rfl literal counted (by omega)

/-- What a reference to a declared entity is replaced by, and what each call for the
replacement text returns, is within the limit if and only if there is room for the
bytes behind the last reference of that text. A predefined name stands for one byte
whatever the table says. -/
theorem referenceWithinLimit_iff (p : Parser) {entities : List (Bytes × Bytes)}
    (declared : p.Declared entities) {name : Grammar.Text} {replacement : Bytes}
    (closed : 0x3B ∉ name) (found : lookupKey (toAscii name) entities = some replacement) :
    (∀ (s : ParserState) (after : List DecodedChar), s.dtd.entities = entities →
      Starts s.rest (0x26 :: (name ++ [0x3B])) after →
      ((∀ value t, p.parseReference.run s = (.ok value, t) →
          value.length ≤ p.options.maxEntityReplacementBytes) ↔
        (name.length ≤ p.options.maxTokenBytes →
          s.entityExpansions + 1 ≤ p.options.maxEntityExpansions →
          match predefined (toAscii name) with
          | some _ => 1 ≤ p.options.maxEntityReplacementBytes
          | none => p.LeavesRoom entities (s.entityExpansions + 1) replacement))) ∧
    ∀ (start : SourceLocation) (fuel depth count : Nat),
      p.options.maxEntityExpansions < fuel + count → depth ≤ count →
      count ≤ p.options.maxEntityExpansions →
      ((∀ value after,
          (p.expandEntityText entities start fuel depth replacement).run count = (.ok value, after) →
            value.length ≤ p.options.maxEntityReplacementBytes) ↔
        p.LeavesRoom entities count replacement) := by
  have small := declared.replacement found
  refine ⟨fun s after isTable starts => ?_, fun start fuel depth count enough deep room =>
    expandEntityText_within_iff small enough deep room⟩
  subst isTable
  have resolves : ∀ start, p.resolveReference s.dtd.entities (toAscii name) start =
      match predefined (toAscii name) with
      | some value => pure value
      | none => p.expandEntityText s.dtd.entities start (p.options.maxEntityExpansions + 2) 0 replacement := by
    intro start
    unfold resolveReference
    cases predefined (toAscii name) with
    | some value => rfl
    | none =>
        dsimp only
        rw [if_neg (mt beq_iff_eq.mp (declared.head found)), found]
  have returns : (∀ value t, p.parseReference.run s = (.ok value, t) →
        value.length ≤ p.options.maxEntityReplacementBytes) ↔
      (name.length ≤ p.options.maxTokenBytes → s.entityExpansions + 1 ≤ p.options.maxEntityExpansions →
        ∀ value count, (p.resolveReference s.dtd.entities (toAscii name) (p.location s.rest)).run
            (s.entityExpansions + 1) = (.ok value, count) →
          value.length ≤ p.options.maxEntityReplacementBytes) := by
    constructor
    · intro within short room value count resolved
      exact within value _ ((p.parseReference_eq_ok_iff starts closed).mpr ⟨short, room, count, resolved, rfl⟩)
    · intro within value t returned
      obtain ⟨short, room, count, resolved, _⟩ := (p.parseReference_eq_ok_iff starts closed).mp returned
      exact within short room value count resolved
  rw [returns, resolves]
  refine imp_congr_right fun short => imp_congr_right fun room => ?_
  cases known : predefined (toAscii name) with
  | some value =>
      obtain ⟨c, member, rfl⟩ := predefined_eq_some known
      have one : ∀ c ∈ [0x3C, 0x3E, 0x26, 0x27, 0x22], (utf8 [c]).length = 1 := by decide
      constructor
      · intro within
        rw [← one c member]
        exact within _ _ rfl
      · intro positive value count returned
        cases returned
        rw [one c member]
        exact positive
  | none => exact expandEntityText_within_iff small (by omega) (Nat.zero_le _) room

/-- A parser that allows replacement texts of up to ten bytes. -/
def tenBytes : Parser := ⟨.recording, { maxEntityReplacementBytes := 10 }, ⟨0, 1, 1⟩⟩

def sampleTable : List (Bytes × Bytes) :=
  [(ascii "b", ascii "bbbbbbbbbb"), (ascii "a", ascii "&b;cccccc")]

theorem declared_sampleTable : tenBytes.Declared sampleTable := by
  have first : tenBytes.Declared [(ascii "b", ascii "bbbbbbbbbb")] :=
    @Declared.of_text tenBytes "<!ENTITY b 'bbbbbbbbbb'>" [] _ .empty (by decide) (by decide)
  exact @Declared.of_text tenBytes "<!ENTITY a '&b;cccccc'>" _ _ first (by decide) (by decide)

theorem referenceWithinLimit_iff_sample :
    tenBytes.LeavesRoom sampleTable 1 (ascii "bbbbbbbbbb") ∧
      ¬ tenBytes.LeavesRoom sampleTable 1 (ascii "&b;cccccc") := by
  constructor
  · have exactly := (referenceWithinLimit_iff tenBytes declared_sampleTable (show 0x3B ∉ u32 "b" by decide)
      (show lookupKey _ sampleTable = some (ascii "bbbbbbbbbb") by decide)).2 ⟨0, 1, 1⟩ 100001 0 1
      (by decide) (by decide) (by decide)
    apply exactly.mp
    intro value after returned
    have known : (tenBytes.expandEntityText sampleTable ⟨0, 1, 1⟩ 100001 0 (ascii "bbbbbbbbbb")).run 1 =
        (.ok (ascii "bbbbbbbbbb"), 1) := by decide
    rw [known] at returned
    cases returned
    decide
  · have exactly := (referenceWithinLimit_iff tenBytes declared_sampleTable (show 0x3B ∉ u32 "a" by decide)
      (show lookupKey _ sampleTable = some (ascii "&b;cccccc") by decide)).1
      (withTable "&a;" sampleTable) [] rfl (starts_withTable "&a;" sampleTable)
    intro leaves
    have within := exactly.mpr fun _ _ => leaves
    have known : (tenBytes.parseReference.run (withTable "&a;" sampleTable)).1 =
        .ok (ascii "bbbbbbbbbbcccccc") := by decide
    have bounded := within _ _ (Prod.ext known rfl)
    exact absurd bounded (by decide)

/-- With that limit a reference is replaced by sixteen bytes. -/
theorem not_referenceWithinLimit :
    tenBytes.Declared sampleTable ∧
      lookupKey (toAscii (u32 "a")) sampleTable = some (ascii "&b;cccccc") ∧
      (tenBytes.parseReference.run (withTable "&a;" sampleTable)).1 = .ok (ascii "bbbbbbbbbbcccccc") ∧
      ¬ (ascii "bbbbbbbbbbcccccc").length ≤ tenBytes.options.maxEntityReplacementBytes :=
  ⟨declared_sampleTable, by decide, by decide, by decide⟩

end Parser

end XmlParser
