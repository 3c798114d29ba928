import XmlParser.EntityTables
import XmlParser.Library.Coupling
import XmlParser.Limits

/-! A reference on its own and the same reference as the replacement text of an
entity: both are resolved alike, but for the kind of the error of an undeclared name. -/

set_option autoImplicit false

namespace XmlParser

open XmlParser.Computation Comp

/-! ## Two expansions of one text -/

/-- Two errors that count as the same. -/
def Halt.Alike (first second : Halt) : Prop :=
  (∃ kind here there message, first = .thrown (.xmlParse ⟨kind, here, message⟩) ∧
    second = .thrown (.xmlParse ⟨kind, there, message⟩)) ∨
    (¬ first.IsThrown ∧ ¬ second.IsThrown)

theorem notThrown_outOfFuel : ¬ Halt.outOfFuel.IsThrown := by
  intro thrown
  obtain ⟨_, same⟩ := thrown
  cases same

/-- Two counts at a fixed distance. The second run may stop at a limit, the first
one is compared while its count is within the limit. -/
def compareCounts (limit behind ahead : Nat) : Comparison Nat Halt where
  lax := True
  Related first second := first + behind = second + ahead
  Grows first second := first ≤ second
  SameError := Halt.Alike
  Stopped halt _ _ := ∃ location message, halt = .thrown (.xmlParse ⟨.resourceLimit, location, message⟩)
  Parted count := limit < count
  grows_refl := Nat.le_refl
  grows_trans := Nat.le_trans
  stopped_grows stopped _ := stopped
  parted_grows := Nat.lt_of_lt_of_le
  stopped_lax _ := trivial
  parted_lax _ := trivial

namespace Parser

variable (p : Parser) {behind ahead : Nat} {entities : List (Bytes × Bytes)}
  {here there : SourceLocation} {first second : Bytes → Comp Nat Halt Bytes}

/-- Side by side, from counts at a distance. -/
abbrev CouplesCounts {α : Type} (behind ahead : Nat) (same : α → α → Prop)
    (source target : Comp Nat Halt α) : Prop :=
  Couples (compareCounts p.options.maxEntityExpansions behind ahead) same source target

theorem couples_failsAt {α : Type} {same : α → α → Prop} (kind : ErrorKind) (message : String) :
    p.CouplesCounts behind ahead same (failAt kind here message) (failAt kind there message) :=
  couples_throw (.inl ⟨kind, here, there, message, rfl, rfl⟩)

/-- The second computation starts with a limit that is met. -/
theorem couples_limited {α : Type} {same : α → α → Prop} {source : Comp Nat Halt α}
    (counts : Counts source) (message : String) :
    p.CouplesCounts behind ahead same source (failAt .resourceLimit there message) := by
  apply couples_stop
  · intro _
    exact counts.mono (fun _ _ grows => grows) fun _ _ => trivial
  · intro _ _ _
    exact ⟨_, rfl, _, _, rfl⟩

theorem couples_parseCharacterReference (name : Bytes) :
    p.CouplesCounts behind ahead (· = ·) (p.parseCharacterReference name here)
      (p.parseCharacterReference name there) := by
  unfold parseCharacterReference
  apply couples_ite
  · intro _
    exact p.couples_failsAt _ _
  · intro _
    split
    · exact p.couples_failsAt _ _
    · apply couples_ite
      · intro _
        exact p.couples_failsAt _ _
      · intro _
        exact couples_pure rfl

theorem couples_countExpansion :
    p.CouplesCounts behind ahead (· = ·) (p.countExpansion here) (p.countExpansion there) := by
  constructor
  · intro _
    exact (p.counts_countExpansion here).mono (fun _ _ grows => grows) fun _ _ => trivial
  · intro source target related
    have distance : source + behind = target + ahead := related
    by_cases room : source + 1 ≤ p.options.maxEntityExpansions
    · rw [p.run_countExpansion here room]
      by_cases roomThere : target + 1 ≤ p.options.maxEntityExpansions
      · rw [p.run_countExpansion there roomThere]
        apply Ends.returned rfl
        change source + 1 + behind = target + 1 + ahead
        omega
      · rw [p.run_countExpansion_beyond there roomThere]
        exact .stopped ⟨_, _, rfl⟩
    · rw [p.run_countExpansion_beyond here room]
      exact .parted (Nat.not_le.mp room)

theorem couples_expandReference (nested : ∀ text, p.CouplesCounts behind ahead (· = ·) (first text) (second text))
    (name : Bytes) :
    p.CouplesCounts behind ahead (· = ·) (p.expandReference entities here first name)
      (p.expandReference entities there second name) := by
  unfold expandReference
  cases predefined name with
  | some value => exact couples_pure rfl
  | none =>
      apply couples_ite
      · intro _
        exact p.couples_parseCharacterReference name
      · intro _
        cases lookupKey name entities with
        | none => exact p.couples_failsAt _ _
        | some replacement => exact nested replacement

theorem couples_expandRound (nested : ∀ text, p.CouplesCounts behind ahead (· = ·) (first text) (second text))
    (current : Bytes × Bytes) :
    p.CouplesCounts behind ahead (LoopStep.Same (· = ·) (· = ·))
      (p.expandRound entities here first current) (p.expandRound entities there second current) := by
  obtain ⟨text, expanded⟩ := current
  cases text with
  | nil => exact couples_pure (.done rfl)
  | cons ch rest =>
      apply couples_ite
      · intro _
        exact couples_pure (.next rfl)
      · intro _
        apply couples_ite
        · intro _
          exact p.couples_failsAt _ _
        · intro _
          apply couples_bind_eq p.couples_countExpansion
          intro _
          apply couples_bind_eq (p.couples_expandReference nested _)
          intro value
          apply couples_ite
          · intro _
            exact p.couples_failsAt _ _
          · intro _
            exact couples_pure (.next rfl)

/-- The same text one level deeper: the bound on the nesting is met by the deeper
call first, and before its fuel runs out. -/
theorem couples_expandEntityText {fuel depth : Nat} {text : Bytes}
    (enough : p.options.maxEntityExpansions ≤ depth + fuel) :
    p.CouplesCounts behind ahead (· = ·) (p.expandEntityText entities here (fuel + 2) depth text)
      (p.expandEntityText entities there (fuel + 1) (depth + 1) text) := by
  induction fuel generalizing depth text with
  | zero =>
      have deep : depth + 1 > p.options.maxEntityExpansions := by omega
      have met : p.expandEntityText entities there (0 + 1) (depth + 1) text =
          failAt .resourceLimit there "entity expansion count exceeds max_entity_expansions" := by
        unfold expandEntityText
        exact if_pos deep
      rw [met]
      exact p.couples_limited (p.counts_expandEntityText entities here 1 depth text (by omega)) _
  | succ fuel ih =>
      by_cases deep : depth + 1 > p.options.maxEntityExpansions
      · have met : p.expandEntityText entities there (fuel + 1 + 1) (depth + 1) text =
            failAt .resourceLimit there "entity expansion count exceeds max_entity_expansions" := by
          unfold expandEntityText
          exact if_pos deep
        rw [met]
        exact p.couples_limited (p.counts_expandEntityText entities here (fuel + 2) depth text (by omega)) _
      · unfold expandEntityText
        rw [if_neg deep, if_neg (by omega)]
        apply couples_loop_eq (fun _ _ _ _ => rfl) (Or.inr ⟨notThrown_outOfFuel, notThrown_outOfFuel⟩)
        intro current
        apply p.couples_expandRound
        intro text
        exact ih (by omega)

end Parser

/-! ## Resolutions -/

/-- Both return the same string, or both fail with errors of one kind. -/
def SameResolution (first second : Except Halt Bytes) : Prop :=
  (∃ value, first = .ok value ∧ second = .ok value) ∨
    ∃ kind, FailsWith kind first ∧ FailsWith kind second

namespace Parser

variable (p : Parser) {entities : List (Bytes × Bytes)} {here there : SourceLocation}

/-- A text expands alike at both levels, unless a limit is met. -/
theorem expandEntityText_alike {text : Bytes} {first second : Nat}
    (room : first ≤ p.options.maxEntityExpansions)
    (unlimited : ¬ FailsWith .resourceLimit ((p.expandEntityText entities here
      (p.options.maxEntityExpansions + 2) 0 text).run first).1)
    (unlimitedThere : ¬ FailsWith .resourceLimit ((p.expandEntityText entities there
      (p.options.maxEntityExpansions + 1) 1 text).run second).1) :
    SameResolution
      ((p.expandEntityText entities here (p.options.maxEntityExpansions + 2) 0 text).run first).1
      ((p.expandEntityText entities there (p.options.maxEntityExpansions + 1) 1 text).run second).1 := by
  have couples := @couples_expandEntityText p second first entities here there
    p.options.maxEntityExpansions 0 text (by omega)
  have ended := couples.ends first second (Nat.add_comm first second)
  cases ranHere : (p.expandEntityText entities here (p.options.maxEntityExpansions + 2) 0 text).run first with
  | mk outcome final =>
      cases ranThere : (p.expandEntityText entities there (p.options.maxEntityExpansions + 1) 1 text).run
          second with
      | mk other finalThere =>
          rw [ranHere] at unlimited
          rw [ranThere] at unlimitedThere
          rw [Nat.zero_add, ranHere, ranThere] at ended
          cases ended with
          | returned values _ => exact .inl ⟨_, rfl, congrArg Except.ok values.symm⟩
          | threw errors _ =>
              rcases errors with ⟨kind, _, _, _, rfl, rfl⟩ | ⟨notThrown, _⟩
              · exact .inr ⟨kind, ⟨_, _, rfl⟩, _, _, rfl⟩
              · have counts := p.counts_expandEntityText entities here
                  (p.options.maxEntityExpansions + 1) 0 text (by omega)
                exact absurd (counts.of_error ranHere) notThrown
          | passed gone _ => exact gone.elim
          | stopped early =>
              obtain ⟨location, message, rfl⟩ := early
              exact absurd ⟨location, message, rfl⟩ unlimitedThere
          | parted gone =>
              have beyond : p.options.maxEntityExpansions < final := gone
              have keeps := WithinLimits.keepsCount_expandEntityText entities here
                (p.options.maxEntityExpansions + 2) 0 text first room
              cases outcome with
              | ok value => exact absurd (keeps.1 value final ranHere) (Nat.not_le.mpr beyond)
              | error halt =>
                  rcases keeps.2 halt final ranHere with within | ⟨_, location, rfl⟩
                  · exact absurd within (Nat.not_le.mpr beyond)
                  · exact absurd ⟨location, _, rfl⟩ unlimited

/-- The call for a text that is one reference. -/
theorem expandEntityText_reference {name : Bytes} (closed : 0x3B ∉ name) {count : Nat}
    (unlimited : ¬ FailsWith .resourceLimit ((p.expandEntityText entities there
      (p.options.maxEntityExpansions + 2) 0 (0x26 :: (name ++ [0x3B]))).run count).1) :
    ((p.expandEntityText entities there (p.options.maxEntityExpansions + 2) 0
        (0x26 :: (name ++ [0x3B]))).run count).1 =
      ((p.expandReference entities there
        (p.expandEntityText entities there (p.options.maxEntityExpansions + 1) 1) name).run (count + 1)).1 := by
  have shrinks := p.expandRound_shrinks entities there
    (p.expandEntityText entities there (p.options.maxEntityExpansions + 1) 1)
  have unfolded : p.expandEntityText entities there (p.options.maxEntityExpansions + 2) 0
      (0x26 :: (name ++ [0x3B])) = loop (fun current _ => current.1.length) Halt.outOfFuel
        (p.expandRound entities there
          (p.expandEntityText entities there (p.options.maxEntityExpansions + 1) 1))
        (0x26 :: (name ++ [0x3B]), []) := by
    rw [expandEntityText, if_neg (Nat.not_lt_zero _)]
  rw [unfolded] at unlimited ⊢
  have round := @expandRound_reference p entities there
    (p.expandEntityText entities there (p.options.maxEntityExpansions + 1) 1) name closed [] []
  by_cases room : count + 1 ≤ p.options.maxEntityExpansions
  · have counted := p.run_countExpansion there room
    cases ran : (p.expandReference entities there
        (p.expandEntityText entities there (p.options.maxEntityExpansions + 1) 1) name).run (count + 1) with
    | mk outcome final =>
        cases outcome with
        | error halt =>
            rw [run_loop_of_error shrinks]
            rw [round, run_bind_of_ok counted, run_bind_of_error ran]
        | ok value =>
            by_cases small : value.length ≤ p.options.maxEntityReplacementBytes
            · have ends : (p.expandRound entities there
                  (p.expandEntityText entities there (p.options.maxEntityExpansions + 1) 1)
                  (0x26 :: (name ++ [0x3B]), [])).run count = (.ok (.next ([], value)), final) := by
                rw [round, run_bind_of_ok counted, run_bind_of_ok ran, List.nil_append,
                  if_neg (Nat.not_lt.mpr small)]
                rfl
              have done : (p.expandRound entities there
                  (p.expandEntityText entities there (p.options.maxEntityExpansions + 1) 1)
                  ([], value)).run final = (.ok (.done value), final) := rfl
              rw [run_loop_of_next shrinks ends, run_loop_of_done shrinks done]
            · have fails : (p.expandRound entities there
                  (p.expandEntityText entities there (p.options.maxEntityExpansions + 1) 1)
                  (0x26 :: (name ++ [0x3B]), [])).run count =
                  (.error (.thrown (.xmlParse ⟨.resourceLimit, there,
                    "entity replacement exceeds max_entity_replacement_bytes"⟩)), final) := by
                rw [round, run_bind_of_ok counted, run_bind_of_ok ran, List.nil_append,
                  if_pos (Nat.not_le.mp small)]
                rfl
              rw [run_loop_of_error shrinks fails] at unlimited
              exact absurd ⟨_, _, rfl⟩ unlimited
  · have fails : (p.expandRound entities there
        (p.expandEntityText entities there (p.options.maxEntityExpansions + 1) 1)
        (0x26 :: (name ++ [0x3B]), [])).run count =
        (.error (.thrown (.xmlParse ⟨.resourceLimit, there,
          "entity expansion count exceeds max_entity_expansions"⟩)), count + 1) := by
      rw [round, run_bind_of_error (p.run_countExpansion_beyond there room)]
    rw [run_loop_of_error shrinks fails] at unlimited
    exact absurd ⟨_, _, rfl⟩ unlimited

end Parser

/-! ## Names as ASCII and as UTF-8 -/

/-- A byte that names with a meaning are made of. -/
def PlainByte (byte : UInt8) : Prop := byte.toNat < 0x80 ∧ byte ≠ 0x3F

theorem plain_predefined {name value : Bytes} (known : Parser.predefined name = some value) :
    ∀ byte ∈ name, PlainByte byte := by
  unfold Parser.predefined at known
  simp only [beq_iff_eq] at known
  unfold PlainByte
  split at known
  · subst name
    decide +kernel
  split at known
  · subst name
    decide +kernel
  split at known
  · subst name
    decide +kernel
  split at known
  · subst name
    decide +kernel
  split at known
  · subst name
    decide +kernel
  · cases known

theorem plain_looseCharRef {name : List Nat} {c : Nat} (read : looseCharRef? name = some c) :
    ∀ x ∈ name, x < 0x80 ∧ x ≠ 0x3F := by
  intro x member
  rcases looseCharRef?_chars read x member with rfl | rfl | rfl | isDigit
  · decide
  · decide
  · decide
  · unfold Grammar.digit? at isDigit
    split at isDigit
    · omega
    split at isDigit
    · omega
    split at isDigit
    · omega
    · cases isDigit

theorem plain_characterReference {version : XmlVersion} {name value : Bytes}
    (read : characterReference? version name = some value) : ∀ byte ∈ name, PlainByte byte := by
  obtain ⟨c, read, _, _⟩ := characterReference?_eq_some_iff.mp read
  intro byte member
  obtain ⟨small, known⟩ := plain_looseCharRef read byte.toNat (List.mem_map_of_mem member)
  refine ⟨small, ?_⟩
  intro question
  subst question
  exact known rfl

theorem plain_declared {p : Parser} {entities : List (Bytes × Bytes)} (declared : p.Declared entities)
    {name value : Bytes} (found : lookupKey name entities = some value) :
    ∀ byte ∈ name, PlainByte byte := by
  obtain ⟨⟨text, isName, same⟩, _⟩ := declared.entries _ (Parser.lookupKey_entry found)
  dsimp only at same
  rw [same, ← isName.toAscii, toAscii_eq_map]
  intro byte member
  obtain ⟨c, inText, rfl⟩ := List.mem_map.mp member
  have passes := (name_iff.mp isName).1 c inText
  have small : c < 0x80 := Nat.lt_succ_of_le (nameChar_le passes)
  have spelled : asciiByte c = UInt8.ofNat c := if_pos (nameChar_le passes)
  rw [spelled]
  constructor
  · rw [(ascii_tests c small).2]
    exact small
  · intro question
    have number := congrArg UInt8.toNat question
    rw [(ascii_tests c small).2] at number
    subst number
    exact absurd passes (by decide)

section Names

variable {version : XmlVersion} {name : List Nat}

/-- Neither spelling of a name outside ASCII is plain. -/
theorem exists_not_plain (legal : Legal version name) (foreign : ¬ ∀ c ∈ name, c ≤ 0x7F) :
    (∃ byte ∈ toAscii name, ¬ PlainByte byte) ∧ ∃ byte ∈ utf8 name, ¬ PlainByte byte := by
  simp only [not_forall, Nat.not_le] at foreign
  obtain ⟨c, member, large⟩ := foreign
  constructor
  · have question : asciiByte c = 0x3F := if_neg (Nat.not_le.mpr large)
    refine ⟨asciiByte c, List.mem_map_of_mem member, ?_⟩
    intro plain
    exact plain.2 question
  · have nonempty := utf8Unit_length_pos c
    obtain ⟨byte, inUnit⟩ := List.exists_mem_of_length_pos nonempty
    have high := utf8Unit_high large (scalar_of_valid (legal c member)).1 byte inUnit
    refine ⟨byte, List.mem_flatMap.mpr ⟨c, member, inUnit⟩, ?_⟩
    intro plain
    exact absurd plain.1 (Nat.not_lt.mpr high)

/-- A table of names with plain bytes treats both spellings of a name alike. -/
theorem spellings_agree {α : Type} (legal : Legal version name) {meaning : Bytes → Option α}
    (plain : ∀ bytes value, meaning bytes = some value → ∀ byte ∈ bytes, PlainByte byte) :
    meaning (utf8 name) = meaning (toAscii name) := by
  by_cases small : ∀ c ∈ name, c ≤ 0x7F
  · rw [toAscii_eq_utf8 small]
  · obtain ⟨⟨first, inAscii, notPlain⟩, second, inUtf8, notPlainThere⟩ := exists_not_plain legal small
    have unknown : meaning (toAscii name) = none := by
      apply Option.eq_none_iff_forall_ne_some.mpr
      intro value known
      exact notPlain (plain _ _ known first inAscii)
    have unknownThere : meaning (utf8 name) = none := by
      apply Option.eq_none_iff_forall_ne_some.mpr
      intro value known
      exact notPlainThere (plain _ _ known second inUtf8)
    rw [unknown, unknownThere]

theorem head_utf8_iff (legal : Legal version name) :
    (utf8 name).head? = some 0x23 ↔ name.head? = some 0x23 := by
  cases name with
  | nil => simp [utf8]
  | cons c rest =>
      rw [utf8_cons, List.head?_cons, Option.some.injEq]
      by_cases small : c ≤ 0x7F
      · rw [utf8Unit_one small, List.singleton_append, List.head?_cons, Option.some.injEq]
        constructor
        · intro same
          have number := congrArg UInt8.toNat same
          rwa [(ascii_tests c (by omega)).2] at number
        · intro same
          rw [same]
          rfl
      · constructor
        · intro starts
          have nonempty := utf8Unit_length_pos c
          rw [List.head?_append_of_ne_nil _ (List.ne_nil_of_length_pos nonempty)] at starts
          have high := utf8Unit_high (Nat.not_le.mp small) (scalar_of_valid (legal c List.mem_cons_self)).1
            0x23 (List.mem_of_mem_head? starts)
          exact absurd high (by decide)
        · intro same
          omega

end Names

/-! ## Both ways -/

namespace Parser

variable (p : Parser) {entities : List (Bytes × Bytes)} {here there : SourceLocation}

theorem parseCharacterReference_fails {σ : Type} {name : Bytes} (marked : name.head? = some 0x23)
    (unread : characterReference? p.options.version name = none) {start : SourceLocation} {s : σ} :
    FailsWith .wellFormedness ((p.parseCharacterReference name start).run s).1 := by
  cases ran : (p.parseCharacterReference name start).run s with
  | mk outcome final =>
      cases outcome with
      | ok value =>
          have read := ((p.parseCharacterReference_bytes_eq_ok_iff marked).mp ran).1
          rw [unread] at read
          cases read
      | error halt =>
          unfold parseCharacterReference at ran
          dsimp only at ran
          generalize (if isHexadecimal name then 16 else 10) = base at ran
          generalize (if isHexadecimal name then 2 else 1) = offset at ran
          split at ran
          · cases ran
            exact ⟨_, _, rfl⟩
          · split at ran
            · cases ran
              exact ⟨_, _, rfl⟩
            · split at ran
              · cases ran
                exact ⟨_, _, rfl⟩
              · cases ran

/-- Character references are read alike. -/
theorem parseCharacterReference_alike {σ τ : Type} {name : List Nat}
    (legal : Legal p.options.version name) (marked : name.head? = some 0x23) (s : σ) (t : τ) :
    SameResolution ((p.parseCharacterReference (toAscii name) here).run s).1
      ((p.parseCharacterReference (utf8 name) there).run t).1 := by
  have head := head_toAscii_iff.mpr marked
  have headThere := (head_utf8_iff legal).mpr marked
  have same : characterReference? p.options.version (utf8 name) =
      characterReference? p.options.version (toAscii name) :=
    spellings_agree legal fun _ _ => plain_characterReference
  cases read : characterReference? p.options.version (toAscii name) with
  | some value =>
      have ran : (p.parseCharacterReference (toAscii name) here).run s = (.ok value, s) :=
        (p.parseCharacterReference_bytes_eq_ok_iff head).mpr ⟨read, rfl⟩
      have ranThere : (p.parseCharacterReference (utf8 name) there).run t = (.ok value, t) :=
        (p.parseCharacterReference_bytes_eq_ok_iff headThere).mpr ⟨same.trans read, rfl⟩
      rw [ran, ranThere]
      exact .inl ⟨value, rfl, rfl⟩
  | none =>
      exact .inr ⟨.wellFormedness, p.parseCharacterReference_fails head read,
        p.parseCharacterReference_fails headThere (same.trans read)⟩

/-- What a name means to the parser. -/
def HasMeaning (entities : List (Bytes × Bytes)) (name : List Nat) : Prop :=
  (predefined (toAscii name)).isSome = true ∨ name.head? = some 0x23 ∨
    (lookupKey (toAscii name) entities).isSome = true

/-- Resolving a name at the outermost level and below a replacement text. -/
theorem resolveReference_alike_iff (declared : p.Declared entities) {name : List Nat}
    (legal : Legal p.options.version name) {first second : Nat}
    (room : first ≤ p.options.maxEntityExpansions)
    (unlimited : ¬ FailsWith .resourceLimit ((p.resolveReference entities (toAscii name) here).run first).1)
    (unlimitedThere : ¬ FailsWith .resourceLimit ((p.expandReference entities there
      (p.expandEntityText entities there (p.options.maxEntityExpansions + 1) 1) (utf8 name)).run second).1) :
    SameResolution ((p.resolveReference entities (toAscii name) here).run first).1
        ((p.expandReference entities there
          (p.expandEntityText entities there (p.options.maxEntityExpansions + 1) 1)
          (utf8 name)).run second).1 ↔
      p.options.validation = .dtd ∨ HasMeaning entities name := by
  have samePredefined : predefined (utf8 name) = predefined (toAscii name) :=
    spellings_agree legal fun _ _ => plain_predefined
  have sameEntity : lookupKey (utf8 name) entities = lookupKey (toAscii name) entities :=
    @spellings_agree _ _ _ legal (fun key => lookupKey key entities) fun _ _ => plain_declared declared
  unfold resolveReference at unlimited ⊢
  unfold expandReference at unlimitedThere ⊢
  unfold HasMeaning
  rw [samePredefined, sameEntity] at unlimitedThere ⊢
  cases known : predefined (toAscii name) with
  | some value =>
      constructor
      · intro _
        exact .inr (.inl rfl)
      · intro _
        exact .inl ⟨value, rfl, rfl⟩
  | none =>
      rw [known] at unlimited unlimitedThere
      dsimp only at unlimited unlimitedThere ⊢
      by_cases marked : name.head? = some 0x23
      · rw [if_pos (beq_iff_eq.mpr (head_toAscii_iff.mpr marked)),
          if_pos (beq_iff_eq.mpr ((head_utf8_iff legal).mpr marked))]
        constructor
        · intro _
          exact .inr (.inr (.inl marked))
        · intro _
          exact p.parseCharacterReference_alike legal marked first second
      · have unmarked := mt (fun same => head_toAscii_iff.mp (beq_iff_eq.mp same)) marked
        have unmarkedThere := mt (fun same => (head_utf8_iff legal).mp (beq_iff_eq.mp same)) marked
        rw [if_neg unmarked] at unlimited ⊢
        rw [if_neg unmarkedThere] at unlimitedThere ⊢
        cases found : lookupKey (toAscii name) entities with
        | some replacement =>
            rw [found] at unlimited unlimitedThere
            constructor
            · intro _
              exact .inr (.inr (.inr rfl))
            · intro _
              exact p.expandEntityText_alike room unlimited unlimitedThere
        | none =>
            simp only [Option.isSome_none, Bool.false_eq_true, marked, or_false, or_self]
            by_cases validates : p.options.validation = .dtd
            · rw [if_pos validates]
              constructor
              · intro _
                exact validates
              · intro _
                exact .inr ⟨.validity, ⟨_, _, rfl⟩, _, _, rfl⟩
            · rw [if_neg validates]
              constructor
              · intro same
                obtain ⟨_, returned, _⟩ | ⟨kind, ⟨_, _, failed⟩, _, _, failedThere⟩ := same
                · cases returned
                · cases failed
                  cases failedThere
              · intro dtd
                exact absurd dtd validates

/-- A reference on its own and the same reference as the text of an entity give the same,
unless a limit is met, if and only if the document is validated or the name has a meaning. -/
theorem resolvesAlike_iff (p : Parser) {entities : List (Bytes × Bytes)}
    (declared : p.Declared entities) {name through : List Nat} (legal : Legal p.options.version name)
    (closed : 0x3B ∉ name)
    (isEntity : lookupKey (toAscii through) entities = some (utf8 (0x26 :: (name ++ [0x3B]))))
    (general : predefined (toAscii through) = none) {s t : ParserState}
    {after behind : List DecodedChar} (isTable : s.dtd.entities = entities)
    (isTableThere : t.dtd.entities = entities)
    (direct : Starts s.rest (0x26 :: (name ++ [0x3B])) after)
    (nested : Starts t.rest (0x26 :: (through ++ [0x3B])) behind)
    (unlimited : ¬ FailsWith .resourceLimit (p.parseReference.run s).1)
    (unlimitedThere : ¬ FailsWith .resourceLimit (p.parseReference.run t).1) :
    SameResolution (p.parseReference.run s).1 (p.parseReference.run t).1 ↔
      p.options.validation = .dtd ∨ HasMeaning entities name := by
  subst isTable
  have closedThere := declared.closed isEntity
  obtain ⟨short, room⟩ := not_not.mp (mt (p.parseReference_beyond direct closed) unlimited)
  obtain ⟨shortThere, roomThere⟩ :=
    not_not.mp (mt (p.parseReference_beyond nested closedThere) unlimitedThere)
  rw [p.run_parseReference direct closed short room] at unlimited ⊢
  rw [p.run_parseReference nested closedThere shortThere roomThere, isTableThere] at unlimitedThere ⊢
  have spelled : utf8 (0x26 :: (name ++ [0x3B])) = 0x26 :: (utf8 name ++ [0x3B]) := by
    rw [utf8_cons, utf8_append]
    rfl
  have resolves : p.resolveReference s.dtd.entities (toAscii through) (p.location t.rest) =
      p.expandEntityText s.dtd.entities (p.location t.rest) (p.options.maxEntityExpansions + 2) 0
        (0x26 :: (utf8 name ++ [0x3B])) := by
    unfold resolveReference
    rw [general, if_neg (mt beq_iff_eq.mp (declared.head isEntity)), isEntity, spelled]
  rw [resolves] at unlimitedThere ⊢
  have closedBytes : (0x3B : UInt8) ∉ utf8 name :=
    mt (ascii_mem_utf8 (show 0x3B < 0x80 by decide) legal).mp closed
  have outcome : ∀ {α : Type} (source : Comp Nat Halt α) (count : Nat) (u : ParserState),
      ((counting source).run (u.withCount count)).1 = (source.run count).1 := fun _ _ _ => rfl
  rw [outcome] at unlimited unlimitedThere
  rw [outcome, outcome]
  have inside := p.expandEntityText_reference closedBytes unlimitedThere
  rw [inside] at unlimitedThere ⊢
  exact p.resolveReference_alike_iff declared legal room unlimited unlimitedThere

/-- A parser that does not validate. -/
def plainParser : Parser := ⟨.recording, {}, ⟨0, 1, 1⟩⟩

/-- Two entities, one of which refers to an entity that is not declared. -/
def wrappedTable : List (Bytes × Bytes) := [(ascii "x", ascii "&missing;"), (ascii "y", ascii "&lt;")]

theorem declared_wrappedTable : plainParser.Declared wrappedTable := by
  have first : plainParser.Declared [(ascii "x", ascii "&missing;")] :=
    @Declared.of_text plainParser "<!ENTITY x '&missing;'>" [] _ .empty (by decide)
      (by decide)
  exact @Declared.of_text plainParser "<!ENTITY y '&lt;'>" _ _ first (by decide) (by decide)

theorem resolvesAlike_iff_sample :
    SameResolution (plainParser.parseReference.run (withTable "&lt;" wrappedTable)).1
      (plainParser.parseReference.run (withTable "&y;" wrappedTable)).1 := by
  have direct : (plainParser.parseReference.run (withTable "&lt;" wrappedTable)).1 = .ok (ascii "<") := by
    decide
  have nested : (plainParser.parseReference.run (withTable "&y;" wrappedTable)).1 = .ok (ascii "<") := by
    decide
  have exactly := @resolvesAlike_iff plainParser wrappedTable declared_wrappedTable (u32 "lt") (u32 "y")
    (fun c member => by revert c; decide) (by decide) (by decide) (by decide)
    (withTable "&lt;" wrappedTable) (withTable "&y;" wrappedTable) [] [] rfl rfl (starts_withTable "&lt;" wrappedTable) (starts_withTable "&y;" wrappedTable)
    (by
      rw [direct]
      intro failed
      obtain ⟨_, _, failed⟩ := failed
      cases failed)
    (by
      rw [nested]
      intro failed
      obtain ⟨_, _, failed⟩ := failed
      cases failed)
  exact exactly.mpr (.inr (.inl (by decide)))

/-- Without validation the reference to the entity that is not declared fails in two ways. -/
theorem not_resolvesAlike :
    plainParser.Declared wrappedTable ∧
      lookupKey (toAscii (u32 "x")) wrappedTable = some (utf8 (u32 "&missing;")) ∧
      FailsWith .wellFormedness (plainParser.parseReference.run (withTable "&missing;" wrappedTable)).1 ∧
      FailsWith .validity (plainParser.parseReference.run (withTable "&x;" wrappedTable)).1 ∧
      ¬ SameResolution (plainParser.parseReference.run (withTable "&missing;" wrappedTable)).1
        (plainParser.parseReference.run (withTable "&x;" wrappedTable)).1 := by
  have direct : (plainParser.parseReference.run (withTable "&missing;" wrappedTable)).1 =
      .error (.thrown (.xmlParse ⟨.wellFormedness, {}, "unknown entity reference"⟩)) := by
    decide
  have nested : (plainParser.parseReference.run (withTable "&x;" wrappedTable)).1 =
      .error (.thrown (.xmlParse ⟨.validity, {}, "undeclared entity reference"⟩)) := by
    decide
  rw [direct, nested]
  refine ⟨declared_wrappedTable, by decide, ⟨_, _, rfl⟩, ⟨_, _, rfl⟩, ?_⟩
  intro same
  obtain ⟨_, returned, _⟩ | ⟨kind, ⟨_, _, failed⟩, _, _, failedThere⟩ := same
  · cases returned
  · cases failed
    cases failedThere

end Parser

end XmlParser
