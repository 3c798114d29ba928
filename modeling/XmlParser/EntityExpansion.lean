import XmlParser.Accepting
import XmlParser.Library.Macros

/-! `expand_entity_text` evaluates replacement texts: it returns what the
references in them stand for, and counts them. -/

set_option autoImplicit false

namespace XmlParser

open XmlParser.Computation Comp Macros

/-! ## Character references as bytes -/

theorem digitOf_asciiByte_toNat (byte : UInt8) : digitOf (asciiByte byte.toNat) = digitOf byte := by
  have tests : ∀ value < 256, digitOf (asciiByte value) = digitOf (UInt8.ofNat value) := by
    decide +kernel
  have test := tests byte.toNat byte.toNat_lt
  rwa [UInt8.ofNat_toNat] at test

theorem asciiByte_toNat_eq_iff (byte : UInt8) {x : Nat} (small : x < 0x80) (known : x ≠ 0x3F) :
    asciiByte byte.toNat = UInt8.ofNat x ↔ byte = UInt8.ofNat x := by
  rw [asciiByte_eq_iff small known]
  constructor
  · intro same
    rw [← same, UInt8.ofNat_toNat]
  · intro same
    rw [same, (ascii_tests x small).2]

theorem accumulateDigits_toAscii (base : Nat) (bytes : Bytes) (value : Nat) :
    accumulateDigits base (toAscii (bytes.map UInt8.toNat)) value = accumulateDigits base bytes value := by
  induction bytes generalizing value with
  | nil => rfl
  | cons byte bytes ih =>
      rw [List.map_cons, toAscii_eq_map, List.map_cons, ← toAscii_eq_map]
      unfold accumulateDigits
      simp only [digitOf_asciiByte_toNat, ih]

theorem isHexadecimal_toAscii (bytes : Bytes) :
    isHexadecimal (toAscii (bytes.map UInt8.toNat)) = isHexadecimal bytes := by
  unfold isHexadecimal
  rw [toAscii_eq_map]
  rcases bytes with _ | ⟨hash, _ | ⟨x, rest⟩⟩
  · rfl
  · rfl
  · have lower := asciiByte_toNat_eq_iff x (show 0x78 < 0x80 by decide) (by decide)
    have upper := asciiByte_toNat_eq_iff x (show 0x58 < 0x80 by decide) (by decide)
    have sameLower : (asciiByte x.toNat == 0x78) = (x == 0x78) := by
      rw [Bool.eq_iff_iff, beq_iff_eq, beq_iff_eq]
      exact lower
    have sameUpper : (asciiByte x.toNat == 0x58) = (x == 0x58) := by
      rw [Bool.eq_iff_iff, beq_iff_eq, beq_iff_eq]
      exact upper
    simp [sameLower, sameUpper]

/-- What the bytes of a character reference stand for. -/
def characterReference? (version : XmlVersion) (name : Bytes) : Option Bytes :=
  match looseCharRef? (name.map UInt8.toNat) with
  | none => none
  | some c => if isValidXmlChar c version then some (utf8 [c]) else none

theorem characterReference?_eq_some_iff {version : XmlVersion} {name value : Bytes} :
    characterReference? version name = some value ↔
      ∃ c, looseCharRef? (name.map UInt8.toNat) = some c ∧ isValidXmlChar c version = true ∧
        value = utf8 [c] := by
  unfold characterReference?
  cases read : looseCharRef? (name.map UInt8.toNat) with
  | none => simp
  | some c =>
      constructor
      · intro same
        dsimp only at same
        split at same
        · rename_i valid
          cases same
          exact ⟨c, rfl, valid, rfl⟩
        · cases same
      · intro denotes
        obtain ⟨_, same, valid, rfl⟩ := denotes
        cases same
        exact if_pos valid

theorem characterReference?_head {version : XmlVersion} {name value : Bytes}
    (read : characterReference? version name = some value) : name.head? = some 0x23 := by
  obtain ⟨c, read, _, _⟩ := characterReference?_eq_some_iff.mp read
  have head := looseCharRef?_head read
  cases name with
  | nil => cases head
  | cons byte rest =>
      rw [List.map_cons, List.head?_cons, Option.some.injEq] at head
      rw [List.head?_cons, ← UInt8.ofNat_toNat (x := byte), head]
      rfl

namespace Parser

variable (p : Parser)

theorem parseCharacterReference_toAscii {σ : Type} (name : Bytes) (start : SourceLocation) :
    (p.parseCharacterReference (toAscii (name.map UInt8.toNat)) start : Comp σ Halt Bytes) =
      p.parseCharacterReference name start := by
  unfold parseCharacterReference
  have length : (toAscii (name.map UInt8.toNat)).length = name.length := by simp [toAscii]
  have drop : ∀ offset, (toAscii (name.map UInt8.toNat)).drop offset =
      toAscii ((name.drop offset).map UInt8.toNat) := by
    intro offset
    rw [toAscii_eq_map, toAscii_eq_map, List.map_drop, List.map_drop]
  simp only [isHexadecimal_toAscii, length, drop, accumulateDigits_toAscii]

theorem parseCharacterReference_bytes_eq_ok_iff {σ : Type} {name : Bytes}
    (marked : name.head? = some 0x23) {start : SourceLocation} {s t : σ} {value : Bytes} :
    (p.parseCharacterReference name start).run s = (.ok value, t) ↔
      characterReference? p.options.version name = some value ∧ t = s := by
  have head : (name.map UInt8.toNat).head? = some 0x23 := by
    rw [List.head?_map, marked]
    rfl
  rw [← p.parseCharacterReference_toAscii, p.parseCharacterReference_eq_ok_iff head,
    characterReference?_eq_some_iff]
  exact And.comm

/-! ## References in replacement texts -/

/-- The notation and the meaning of references in replacement texts. -/
def entitySystem (entities : List (Bytes × Bytes)) : System UInt8 where
  opening := 0x26
  closing := 0x3B
  constant name :=
    match predefined name with
    | some value => some value
    | none => characterReference? p.options.version name
  body name := if name.head? = some 0x23 then none else lookupKey name entities

variable {entities : List (Bytes × Bytes)} {start : SourceLocation}
  {nested : Bytes → Comp Nat Halt Bytes}

theorem toAscii_append (left right : List Nat) : toAscii (left ++ right) = toAscii left ++ toAscii right :=
  List.map_append

theorem not_mem_toAscii {text : List Nat} {c : Nat} (small : c < 0x80) (known : c ≠ 0x3F) (absent : c ∉ text) :
    UInt8.ofNat c ∉ toAscii text := by
  intro member
  rw [toAscii_eq_map] at member
  obtain ⟨other, inText, same⟩ := List.mem_map.mp member
  exact absent ((asciiByte_eq_iff small known).mp same ▸ inText)

theorem closed_toAscii {name : List Nat} (closed : 0x3B ∉ name) : 0x3B ∉ toAscii name :=
  not_mem_toAscii (by decide) (by decide) closed

variable {p} in
theorem toAscii_reference (name : List Nat) :
    toAscii (0x26 :: (name ++ [0x3B])) = (p.entitySystem entities).reference (toAscii name) := by
  change toAscii ([0x26] ++ (name ++ [0x3B])) = _
  rw [toAscii_append, toAscii_append]
  rfl

/-- What a name stands for, and how many references that takes. -/
def Denotes (entities : List (Bytes × Bytes)) (name value : Bytes) (calls : Nat) : Prop :=
  ((p.entitySystem entities).constant name = some value ∧ calls = 0) ∨
    ((p.entitySystem entities).constant name = none ∧
      ∃ expansion, (p.entitySystem entities).body name = some ((p.entitySystem entities).text expansion) ∧
        (p.entitySystem entities).Valid expansion ∧ value = expansion.value ∧ calls = expansion.calls)

theorem expandReference_eq_ok_iff {name value : Bytes} {before after : Nat} :
    (p.expandReference entities start nested name).run before = (.ok value, after) ↔
      ((p.entitySystem entities).constant name = some value ∧ after = before) ∨
        ((p.entitySystem entities).constant name = none ∧
          ∃ body, (p.entitySystem entities).body name = some body ∧
            (nested body).run before = (.ok value, after)) := by
  unfold expandReference entitySystem
  dsimp only
  cases known : predefined name with
  | some constant => simp [eq_comm]
  | none =>
      dsimp only
      by_cases marked : name.head? = some 0x23
      · rw [if_pos (beq_iff_eq.mpr marked), if_pos marked,
          p.parseCharacterReference_bytes_eq_ok_iff marked]
        simp
      · rw [if_neg (mt beq_iff_eq.mp marked), if_neg marked]
        have unread : characterReference? p.options.version name = none := by
          rw [Option.eq_none_iff_forall_ne_some]
          intro value read
          exact marked (characterReference?_head read)
        rw [unread]
        cases found : lookupKey name entities with
        | none => simp
        | some replacement => simp

/-- The round on a reference. -/
theorem expandRound_reference {name : Bytes} (closed : 0x3B ∉ name) (more expanded : Bytes) :
    p.expandRound entities start nested (0x26 :: (name ++ 0x3B :: more), expanded) = (do
      p.countExpansion start
      let value ← p.expandReference entities start nested name
      if (expanded ++ value).length > p.options.maxEntityReplacementBytes then
        failAt .resourceLimit start "entity replacement exceeds max_entity_replacement_bytes"
      else
        pure (.next (more, expanded ++ value))) := by
  have passes : ∀ byte ∈ name, (byte != 0x3B) = true := by
    intro byte member
    rw [bne_iff_ne]
    exact fun same => closed (same ▸ member)
  have taken : (name ++ 0x3B :: more).takeWhile (· != 0x3B) = name := by
    rw [List.takeWhile_append_of_pos passes, List.takeWhile_cons_of_neg (by decide), List.append_nil]
  have dropped : (name ++ 0x3B :: more).drop (name.length + 1) = more := by simp
  rw [expandRound, if_neg (by decide), if_neg (by simp), taken]
  dsimp only
  rw [dropped]

theorem expandRound_reference_eq_ok_iff {rest expanded : Bytes} {before after : Nat}
    {step : LoopStep (Bytes × Bytes) Bytes} :
    (p.expandRound entities start nested (0x26 :: rest, expanded)).run before = (.ok step, after) ↔
      ∃ name more value, rest = name ++ 0x3B :: more ∧ 0x3B ∉ name ∧
        before + 1 ≤ p.options.maxEntityExpansions ∧
        (p.expandReference entities start nested name).run (before + 1) = (.ok value, after) ∧
        (expanded ++ value).length ≤ p.options.maxEntityReplacementBytes ∧
        step = .next (more, expanded ++ value) := by
  constructor
  · intro ran
    by_cases ended : 0x3B ∈ rest
    · obtain ⟨name, more, rfl, closed⟩ := List.eq_append_cons_of_mem ended
      rw [p.expandRound_reference closed] at ran
      obtain ⟨_, between, counted, ran⟩ := bind_eq_ok.mp ran
      obtain ⟨rfl, room⟩ := p.countExpansion_eq_ok_iff.mp counted
      obtain ⟨value, _, expands, ran⟩ := bind_eq_ok.mp ran
      split at ran
      · cases ran
      · rename_i small
        cases ran
        exact ⟨name, more, value, rfl, closed, room, expands, Nat.not_lt.mp small, rfl⟩
    · rw [expandRound, if_neg (by decide), if_pos (by simpa using ended)] at ran
      cases ran
  · intro reads
    obtain ⟨name, more, value, rfl, closed, room, expands, small, rfl⟩ := reads
    rw [p.expandRound_reference closed]
    apply bind_eq_ok.mpr
    refine ⟨(), _, p.countExpansion_eq_ok_iff.mpr ⟨rfl, room⟩, bind_eq_ok.mpr ⟨value, after, expands, ?_⟩⟩
    rw [if_neg (Nat.not_lt.mpr small)]
    rfl

/-- What the loop makes of a text behind so many expanded bytes: the expansion of
a front of the text, within the limit, and the literal bytes behind it. -/
def Expands (entities : List (Bytes × Bytes)) (already : Nat) (text value : Bytes) (calls : Nat) :
    Prop :=
  ∃ expansion tail, (p.entitySystem entities).Valid expansion ∧ 0x26 ∉ tail ∧
    text = (p.entitySystem entities).text expansion ++ tail ∧ value = expansion.value ++ tail ∧
    calls = expansion.calls ∧
    (expansion ≠ .nil → already + expansion.value.length ≤ p.options.maxEntityReplacementBytes)

variable {p}

theorem Expands.exists_expansion {already calls : Nat} {text value : Bytes}
    (expands : p.Expands entities already text value calls) :
    ∃ expansion, (p.entitySystem entities).Valid expansion ∧
      (p.entitySystem entities).text expansion = text ∧ expansion.value = value ∧
      expansion.calls = calls := by
  obtain ⟨expansion, tail, valid, literal, rfl, rfl, rfl, _⟩ := expands
  exact ⟨expansion.followedBy tail, valid.followedBy literal, by simp, by simp, by simp⟩

theorem expands_nil {already calls : Nat} {value : Bytes} :
    p.Expands entities already [] value calls ↔ value = [] ∧ calls = 0 := by
  constructor
  · intro expands
    obtain ⟨expansion, valid, spelled, rfl, rfl⟩ := expands.exists_expansion
    cases expansion with
    | nil => exact ⟨rfl, rfl⟩
    | symbol a rest => cases spelled
    | constant name value rest => cases spelled
    | call name inner rest => cases spelled
  · intro empty
    obtain ⟨rfl, rfl⟩ := empty
    exact ⟨.nil, [], trivial, List.not_mem_nil, rfl, rfl, rfl, fun nonempty => absurd rfl nonempty⟩

/-- A byte that is not an ampersand stands for itself. -/
theorem expands_cons {already calls : Nat} {ch : UInt8} (other : ch ≠ 0x26) {rest value : Bytes} :
    p.Expands entities already (ch :: rest) value calls ↔
      ∃ later, value = ch :: later ∧ p.Expands entities (already + 1) rest later calls := by
  constructor
  · intro expands
    obtain ⟨expansion, tail, valid, literal, spelled, rfl, rfl, fits⟩ := expands
    cases expansion with
    | nil =>
        rw [System.text, List.nil_append] at spelled
        subst spelled
        rw [List.mem_cons, not_or] at literal
        exact ⟨rest, rfl, .nil, rest, trivial, literal.2, rfl, rfl, rfl, fun nonempty => absurd rfl nonempty⟩
    | symbol a inner =>
        cases spelled
        refine ⟨inner.value ++ tail, rfl, inner, tail, valid.2, literal, rfl, rfl, rfl, fun _ => ?_⟩
        have small := fits (by rintro ⟨⟩)
        rw [Expansion.value, List.length_cons] at small
        omega
    | constant name value inner =>
        cases spelled
        exact absurd rfl other
    | call name nested inner =>
        cases spelled
        exact absurd rfl other
  · intro expands
    obtain ⟨_, rfl, expansion, tail, valid, literal, rfl, rfl, rfl, fits⟩ := expands
    by_cases empty : expansion = .nil
    · subst empty
      have more : (0x26 : UInt8) ∉ ch :: tail := by
        rw [List.mem_cons, not_or]
        exact ⟨Ne.symm other, literal⟩
      exact ⟨.nil, ch :: tail, trivial, more, rfl, rfl, rfl, fun nonempty => absurd rfl nonempty⟩
    · refine ⟨.symbol ch expansion, tail, ⟨other, valid⟩, literal, rfl, rfl, rfl, fun _ => ?_⟩
      have small := fits empty
      rw [Expansion.value, List.length_cons]
      omega

/-- A reference stands for what its name denotes, and what is behind it for itself. -/
theorem expands_reference {already calls : Nat} {rest value : Bytes} :
    p.Expands entities already (0x26 :: rest) value calls ↔
      ∃ name more, rest = name ++ 0x3B :: more ∧ 0x3B ∉ name ∧
        ∃ first inner, p.Denotes entities name first inner ∧
          already + first.length ≤ p.options.maxEntityReplacementBytes ∧
          ∃ later outer, p.Expands entities (already + first.length) more later outer ∧
            value = first ++ later ∧ calls = inner + 1 + outer := by
  constructor
  · intro expands
    obtain ⟨expansion, tail, valid, literal, spelled, rfl, rfl, fits⟩ := expands
    cases expansion with
    | nil =>
        rw [System.text, List.nil_append] at spelled
        exact absurd (spelled ▸ List.mem_cons_self) literal
    | symbol a outer =>
        cases spelled
        exact absurd rfl valid.1
    | constant name first outer =>
        obtain ⟨closed, known, valid⟩ := valid
        have small := fits (by rintro ⟨⟩)
        rw [Expansion.value, List.length_append] at small
        refine ⟨name, (p.entitySystem entities).text outer ++ tail, ?_, closed, first, 0,
          .inl ⟨known, rfl⟩, by omega, outer.value ++ tail, outer.calls, ?_, List.append_assoc _ _ _, ?_⟩
        · simpa [System.text, System.reference, entitySystem] using spelled
        · exact ⟨outer, tail, valid, literal, rfl, rfl, rfl, fun _ => by omega⟩
        · simp [Expansion.calls]
    | call name inner outer =>
        obtain ⟨closed, unknown, declared, validInner, valid⟩ := valid
        have small := fits (by rintro ⟨⟩)
        rw [Expansion.value, List.length_append] at small
        refine ⟨name, (p.entitySystem entities).text outer ++ tail, ?_, closed, inner.value, inner.calls,
          .inr ⟨unknown, inner, declared, validInner, rfl, rfl⟩, by omega, outer.value ++ tail,
          outer.calls, ?_, List.append_assoc _ _ _, ?_⟩
        · simpa [System.text, System.reference, entitySystem] using spelled
        · exact ⟨outer, tail, valid, literal, rfl, rfl, rfl, fun _ => by omega⟩
        · rw [Expansion.calls]
          omega
  · intro reads
    obtain ⟨name, more, rfl, closed, first, inner, denotes, small, _, _, expands, rfl, rfl⟩ := reads
    obtain ⟨outer, tail, valid, literal, rfl, rfl, rfl, fits⟩ := expands
    have bounded : already + (first ++ outer.value).length ≤ p.options.maxEntityReplacementBytes := by
      rw [List.length_append]
      by_cases empty : outer = .nil
      · subst empty
        exact small
      · have both := fits empty
        omega
    rcases denotes with ⟨known, rfl⟩ | ⟨unknown, expansion, declared, validInner, rfl, rfl⟩
    · refine ⟨.constant name first outer, tail, ⟨closed, known, valid⟩, literal, ?_, ?_, ?_, fun _ => bounded⟩
      · simp [System.text, System.reference, entitySystem]
      · exact (List.append_assoc _ _ _).symm
      · simp [Expansion.calls]
    · refine ⟨.call name expansion outer, tail, ⟨closed, unknown, declared, validInner, valid⟩, literal,
        ?_, ?_, ?_, fun _ => bounded⟩
      · simp [System.text, System.reference, entitySystem]
      · exact (List.append_assoc _ _ _).symm
      · rw [Expansion.calls]
        omega

/-- A text within the limit is expanded just as it denotes. -/
theorem expands_of_valid {expansion : Expansion UInt8}
    (valid : (p.entitySystem entities).Valid expansion)
    (small : expansion.value.length ≤ p.options.maxEntityReplacementBytes) :
    p.Expands entities 0 ((p.entitySystem entities).text expansion) expansion.value expansion.calls :=
  ⟨expansion, [], valid, List.not_mem_nil, (List.append_nil _).symm, (List.append_nil _).symm, rfl,
    fun _ => (Nat.zero_add _).symm ▸ small⟩

variable (p)

/-- What a computation of nested expansions has to do, from a count on. -/
def Evaluates (entities : List (Bytes × Bytes)) (nested : Bytes → Comp Nat Halt Bytes) (lower : Nat) :
    Prop :=
  ∀ text before value after, lower ≤ before → before ≤ p.options.maxEntityExpansions →
    ((nested text).run before = (.ok value, after) ↔
      ∃ calls, p.Expands entities 0 text value calls ∧ after = before + calls ∧
        after ≤ p.options.maxEntityExpansions)

variable {p}

/-- A reference that has been replaced has been counted with all that it took. -/
theorem denotes_of_expandReference {lower before after : Nat} {name value : Bytes}
    (evaluates : p.Evaluates entities nested lower) (reached : lower ≤ before)
    (room : before ≤ p.options.maxEntityExpansions)
    (returned : (p.expandReference entities start nested name).run before = (.ok value, after)) :
    ∃ calls, p.Denotes entities name value calls ∧ after = before + calls ∧
      after ≤ p.options.maxEntityExpansions := by
  rcases p.expandReference_eq_ok_iff.mp returned with ⟨known, rfl⟩ | ⟨unknown, body, declared, ran⟩
  · exact ⟨0, .inl ⟨known, rfl⟩, rfl, room⟩
  · obtain ⟨calls, expands, counted, fits⟩ := (evaluates _ _ _ _ reached room).mp ran
    obtain ⟨expansion, valid, rfl, rfl, rfl⟩ := expands.exists_expansion
    exact ⟨_, .inr ⟨unknown, expansion, declared, valid, rfl, rfl⟩, counted, fits⟩

/-- What a reference is replaced by, if that leaves room. -/
theorem expandReference_eq_ok_iff_denotes {lower before after already : Nat} {name value : Bytes}
    (evaluates : p.Evaluates entities nested lower) (reached : lower ≤ before)
    (room : before ≤ p.options.maxEntityExpansions)
    (small : already + value.length ≤ p.options.maxEntityReplacementBytes) :
    (p.expandReference entities start nested name).run before = (.ok value, after) ↔
      ∃ calls, p.Denotes entities name value calls ∧ after = before + calls ∧
        after ≤ p.options.maxEntityExpansions := by
  constructor
  · exact denotes_of_expandReference evaluates reached room
  · intro denotes
    rw [p.expandReference_eq_ok_iff]
    obtain ⟨calls, ⟨known, rfl⟩ | ⟨unknown, expansion, declared, valid, rfl, rfl⟩, counted, fits⟩ := denotes
    · exact .inl ⟨known, counted⟩
    · refine .inr ⟨unknown, _, declared, (evaluates _ _ _ _ reached room).mpr ?_⟩
      exact ⟨_, expands_of_valid valid (by omega), counted, fits⟩

/-- A round on an ampersand takes a reference for what its name denotes. -/
theorem expandRound_eq_ok_iff_denotes {lower before after : Nat} {rest expanded : Bytes}
    {step : LoopStep (Bytes × Bytes) Bytes} (evaluates : p.Evaluates entities nested (lower + 1))
    (reached : lower ≤ before) :
    (p.expandRound entities start nested (0x26 :: rest, expanded)).run before = (.ok step, after) ↔
      ∃ name more first inner, rest = name ++ 0x3B :: more ∧ 0x3B ∉ name ∧
        p.Denotes entities name first inner ∧
        expanded.length + first.length ≤ p.options.maxEntityReplacementBytes ∧
        after = before + 1 + inner ∧ after ≤ p.options.maxEntityExpansions ∧
        step = .next (more, expanded ++ first) := by
  rw [p.expandRound_reference_eq_ok_iff]
  constructor
  · intro reads
    obtain ⟨name, more, first, split, closed, room, denoted, small, rfl⟩ := reads
    rw [List.length_append] at small
    obtain ⟨inner, denotes, counted, fits⟩ :=
      (expandReference_eq_ok_iff_denotes evaluates (by omega) room small).mp denoted
    exact ⟨name, more, first, inner, split, closed, denotes, small, counted, fits, rfl⟩
  · intro reads
    obtain ⟨name, more, first, inner, split, closed, denotes, small, counted, fits, rfl⟩ := reads
    have room : before + 1 ≤ p.options.maxEntityExpansions := by omega
    refine ⟨name, more, first, split, closed, room, ?_, ?_, rfl⟩
    · exact (expandReference_eq_ok_iff_denotes evaluates (by omega) room small).mpr
        ⟨inner, denotes, counted, fits⟩
    · rw [List.length_append]
      exact small

/-- The loop expands what is left of the text, behind what it has expanded already. -/
theorem expandLoop_eq_ok_iff {lower : Nat} (evaluates : p.Evaluates entities nested (lower + 1))
    {text expanded value : Bytes} {before after : Nat} (reached : lower ≤ before)
    (room : before ≤ p.options.maxEntityExpansions) :
    (loop (fun current _ => current.1.length) Halt.outOfFuel (p.expandRound entities start nested)
        (text, expanded)).run before = (.ok value, after) ↔
      ∃ later calls, p.Expands entities expanded.length text later calls ∧ value = expanded ++ later ∧
        after = before + calls ∧ after ≤ p.options.maxEntityExpansions := by
  have shrinks := p.expandRound_shrinks entities start nested
  generalize bound : text.length = limit
  induction limit using Nat.strongRecOn generalizing text expanded before with
  | ind limit ih =>
      cases text with
      | nil =>
          have done : (p.expandRound entities start nested ([], expanded)).run before =
              (.ok (.done expanded), before) := rfl
          rw [run_loop_of_done shrinks done]
          simp only [expands_nil]
          constructor
          · intro returned
            cases returned
            exact ⟨[], 0, ⟨rfl, rfl⟩, (List.append_nil _).symm, rfl, room⟩
          · intro expands
            obtain ⟨_, _, ⟨rfl, rfl⟩, rfl, rfl, _⟩ := expands
            rw [List.append_nil]
      | cons ch rest =>
          rw [List.length_cons] at bound
          by_cases ampersand : ch = 0x26
          · subst ampersand
            constructor
            · intro returned
              cases ran : (p.expandRound entities start nested (0x26 :: rest, expanded)).run before with
              | mk outcome between =>
                  cases outcome with
                  | error error =>
                      rw [run_loop_of_error shrinks ran] at returned
                      cases returned
                  | ok step =>
                      obtain ⟨name, more, first, inner, rfl, closed, denotes, small, rfl, fits, rfl⟩ :=
                        (expandRound_eq_ok_iff_denotes evaluates reached).mp ran
                      rw [run_loop_of_next shrinks ran] at returned
                      rw [List.length_append, List.length_cons] at bound
                      obtain ⟨later, outer, expands, rfl, rfl, limited⟩ :=
                        (ih more.length (by omega) (by omega) fits rfl).mp returned
                      rw [List.length_append] at expands
                      refine ⟨first ++ later, inner + 1 + outer, expands_reference.mpr ?_,
                        List.append_assoc _ _ _, by omega, limited⟩
                      exact ⟨name, more, rfl, closed, first, inner, denotes, small, later, outer, expands,
                        rfl, rfl⟩
            · intro expands
              obtain ⟨_, _, expands, rfl, rfl, limited⟩ := expands
              obtain ⟨name, more, rfl, closed, first, inner, denotes, small, later, outer, behind, rfl,
                rfl⟩ := expands_reference.mp expands
              have ran : (p.expandRound entities start nested (0x26 :: (name ++ 0x3B :: more), expanded)).run
                  before = (.ok (.next (more, expanded ++ first)), before + 1 + inner) :=
                (expandRound_eq_ok_iff_denotes evaluates reached).mpr
                  ⟨name, more, first, inner, rfl, closed, denotes, small, rfl, by omega, rfl⟩
              rw [← List.length_append] at behind
              rw [List.length_append, List.length_cons] at bound
              rw [run_loop_of_next shrinks ran]
              apply (ih more.length (by omega) (by omega) (by omega) rfl).mpr
              exact ⟨later, outer, behind, (List.append_assoc _ _ _).symm, by omega, limited⟩
          · have shorter : rest.length < limit := by omega
            have behind := @ih rest.length shorter rest (expanded ++ [ch]) before reached room rfl
            rw [run_loop_of_next shrinks (p.expandRound_of_ne entities start nested ampersand rest
              expanded before)]
            refine behind.trans ?_
            simp only [expands_cons ampersand, List.length_append, List.length_singleton]
            constructor
            · intro expands
              obtain ⟨later, calls, expands, rfl, counted⟩ := expands
              exact ⟨ch :: later, calls, ⟨later, rfl, expands⟩, by simp, counted⟩
            · intro expands
              obtain ⟨_, calls, ⟨later, rfl, expands⟩, rfl, counted⟩ := expands
              exact ⟨later, calls, expands, by simp, counted⟩

/-- What a call returns: the expansion of its text, all but the literal bytes at the
end within the limit. The bound on the nesting is never met, since every level counts. -/
theorem expandEntityText_eq_ok_iff {fuel depth before after : Nat} {text value : Bytes}
    (enough : p.options.maxEntityExpansions < fuel + before) (deep : depth ≤ before)
    (room : before ≤ p.options.maxEntityExpansions) :
    (p.expandEntityText entities start fuel depth text).run before = (.ok value, after) ↔
      ∃ calls, p.Expands entities 0 text value calls ∧ after = before + calls ∧
        after ≤ p.options.maxEntityExpansions := by
  induction fuel generalizing depth text before value after with
  | zero => omega
  | succ fuel ih =>
      have evaluates : p.Evaluates entities (p.expandEntityText entities start fuel (depth + 1))
          (before + 1) := by
        intro text between value after reached room
        exact ih (by omega) (by omega) room
      unfold expandEntityText
      rw [if_neg (by omega), expandLoop_eq_ok_iff evaluates (Nat.le_refl _) room]
      simp only [List.nil_append, List.length_nil]
      constructor
      · intro expands
        obtain ⟨_, calls, expands, rfl, counted⟩ := expands
        exact ⟨calls, expands, counted⟩
      · intro expands
        obtain ⟨calls, expands, counted⟩ := expands
        exact ⟨value, calls, expands, rfl, counted⟩

end Parser

end XmlParser
