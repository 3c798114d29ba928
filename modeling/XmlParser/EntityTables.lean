import XmlParser.ElementDeclarations
import XmlParser.EntityExpansion

/-! Tables of entities, and the calls of `parse_reference` that look names up in them. -/

set_option autoImplicit false

namespace XmlParser

open XmlParser.Computation Comp

namespace Parser

variable (p : Parser)

/-! ## Tables of entities -/

/-- What a call of `parse_entity_declaration` enters. -/
theorem enterEntity_enters {name replacement : Bytes} {start : SourceLocation} {s t : ParserState}
    (returned : (p.enterEntity name replacement start).run s = (.ok (), t)) :
    replacement.length ≤ p.options.maxEntityReplacementBytes ∧
      lookupKey name s.dtd.entities = none ∧
      t.dtd.entities = s.dtd.entities ++ [(name, replacement)] := by
  unfold enterEntity at returned
  split at returned
  · cases returned
  · rename_i small
    obtain ⟨_, _, skipped, returned⟩ := bind_eq_ok.mp returned
    obtain ⟨_, _, closed, returned⟩ := bind_eq_ok.mp returned
    obtain ⟨rest1, _, rfl⟩ := run_scan_eq_ok_iff.mp skipped
    obtain ⟨rest2, _, rfl⟩ := run_scan_eq_ok_iff.mp closed
    rw [run_read_bind] at returned
    cases found : lookupKey name s.dtd.entities with
    | some other =>
        have known : (lookupKey name ((s.withRest rest1).withRest rest2).dtd.entities).isSome = true :=
          (congrArg Option.isSome found).trans rfl
        rw [if_pos known] at returned
        cases returned
    | none =>
        have unknown : ¬ (lookupKey name ((s.withRest rest1).withRest rest2).dtd.entities).isSome = true := by
          change ¬ (lookupKey name s.dtd.entities).isSome = true
          rw [found]
          exact Bool.false_ne_true
        rw [if_neg unknown] at returned
        cases returned
        exact ⟨Nat.not_lt.mp small, rfl, rfl⟩

theorem parseEntityDeclaration_enters {s t : ParserState}
    (returned : p.parseEntityDeclaration.run s = (.ok (), t)) :
    ∃ name replacement, Grammar.Name name ∧
      replacement.length ≤ p.options.maxEntityReplacementBytes ∧
      lookupKey (utf8 name) s.dtd.entities = none ∧
      t.dtd.entities = s.dtd.entities ++ [(utf8 name, replacement)] := by
  unfold parseEntityDeclaration at returned
  rw [run_look_bind] at returned
  obtain ⟨_, _, counts, returned⟩ := bind_eq_ok.mp returned
  obtain ⟨_, rfl⟩ := p.enforceDtdDeclarationLimit_eq_ok_iff.mp counts
  obtain ⟨_, _, opened, returned⟩ := bind_eq_ok.mp returned
  obtain ⟨rest1, _, rfl⟩ := run_scan_eq_ok_iff.mp opened
  rw [run_look_bind] at returned
  split at returned
  · cases returned
  · obtain ⟨_, _, skipped, returned⟩ := bind_eq_ok.mp returned
    obtain ⟨rest2, _, rfl⟩ := run_scan_eq_ok_iff.mp skipped
    rw [run_look_bind] at returned
    split at returned
    · cases returned
    · obtain ⟨_, _, named, returned⟩ := bind_eq_ok.mp returned
      obtain ⟨rest3, ran, rfl⟩ := run_scan_eq_ok_iff.mp named
      obtain ⟨name, _, isName, _, rfl, _⟩ := p.parseName_eq_ok_iff.mp ran
      obtain ⟨_, _, skipped, returned⟩ := bind_eq_ok.mp returned
      obtain ⟨rest4, _, rfl⟩ := run_scan_eq_ok_iff.mp skipped
      obtain ⟨replacement, _, quoted, returned⟩ := bind_eq_ok.mp returned
      obtain ⟨rest5, _, rfl⟩ := run_scan_eq_ok_iff.mp quoted
      have entered := p.enterEntity_enters returned
      exact ⟨values name, replacement, isName, entered⟩

/-- A table that calls of `parse_entity_declaration` have built. -/
inductive Declared : List (Bytes × Bytes) → Prop where
  | empty : Declared []
  | entity {s t : ParserState} :
      Declared s.dtd.entities → p.parseEntityDeclaration.run s = (.ok (), t) → Declared t.dtd.entities

variable {p}

/-- The state in front of a text, with a table. -/
def withTable (text : String) (entities : List (Bytes × Bytes)) : ParserState :=
  { inFrontOf (u32 text) with dtd := { entities := entities } }

theorem starts_withTable (text : String) (entities : List (Bytes × Bytes)) :
    Starts (withTable text entities).rest (u32 text) [] := by
  refine ⟨(withTable text entities).rest, (List.append_nil _).symm, ?_⟩
  simp [withTable, inFrontOf, values, Function.comp_def]

theorem Declared.of_text {text : String} {entities entered : List (Bytes × Bytes)}
    (declared : p.Declared entities)
    (ran : (p.parseEntityDeclaration.run (withTable text entities)).1 = .ok ())
    (table : (p.parseEntityDeclaration.run (withTable text entities)).2.dtd.entities = entered) :
    p.Declared entered := by
  subst table
  exact @Declared.entity p (withTable text entities) _ declared (Prod.ext ran rfl)

theorem Declared.entries {entities : List (Bytes × Bytes)} (declared : p.Declared entities) :
    ∀ entry ∈ entities, (∃ name, Grammar.Name name ∧ entry.1 = utf8 name) ∧
      entry.2.length ≤ p.options.maxEntityReplacementBytes := by
  induction declared with
  | empty => exact List.forall_mem_nil _
  | entity _ returned ih =>
      obtain ⟨name, replacement, isName, small, _, same⟩ := p.parseEntityDeclaration_enters returned
      rw [same]
      intro entry member
      rcases List.mem_append.mp member with old | new
      · exact ih entry old
      · rw [List.mem_singleton] at new
        subst new
        exact ⟨⟨name, isName, rfl⟩, small⟩

theorem lookupKey_entry {key value : Bytes} {entries : List (Bytes × Bytes)}
    (found : lookupKey key entries = some value) : (key, value) ∈ entries := by
  unfold lookupKey at found
  obtain ⟨entry, first, rfl⟩ := Option.map_eq_some_iff.mp found
  have same : entry.1 = key := by simpa using List.find?_some first
  rw [← same]
  exact List.mem_of_find?_eq_some first

theorem Declared.replacement {entities : List (Bytes × Bytes)} (declared : p.Declared entities)
    {key value : Bytes} (found : lookupKey key entities = some value) :
    value.length ≤ p.options.maxEntityReplacementBytes :=
  (declared.entries _ (lookupKey_entry found)).2

variable {entities : List (Bytes × Bytes)}

/-- Only names are found in a table. -/
theorem Declared.named {name : Grammar.Text} {replacement : Bytes} (declared : p.Declared entities)
    (found : lookupKey (toAscii name) entities = some replacement) : Grammar.Name name := by
  obtain ⟨⟨text, isName, same⟩, _⟩ := declared.entries _ (lookupKey_entry found)
  dsimp only at same
  have ascii : ∀ x ∈ text, x < 0x80 ∧ x ≠ 0x3F := by
    intro x member
    have passes := (name_iff.mp isName).1 x member
    constructor
    · have small := nameChar_le passes
      omega
    · intro question
      subst question
      exact absurd passes (by decide)
  have spelled : toAscii text = text.map UInt8.ofNat :=
    (toAscii_eq_iff (fun x member => (ascii x member).1) fun x member => (ascii x member).2).mpr rfl
  rw [← isName.toAscii, spelled] at same
  have equal := (toAscii_eq_iff (fun x member => (ascii x member).1) fun x member =>
    (ascii x member).2).mp same
  exact equal ▸ isName

theorem Declared.closed {name : Grammar.Text} {replacement : Bytes} (declared : p.Declared entities)
    (found : lookupKey (toAscii name) entities = some replacement) : 0x3B ∉ name := by
  intro member
  have passes := (name_iff.mp (declared.named found)).1 _ member
  exact absurd passes (by decide)

theorem Declared.head {name : Grammar.Text} {replacement : Bytes} (declared : p.Declared entities)
    (found : lookupKey (toAscii name) entities = some replacement) :
    (toAscii name).head? ≠ some 0x23 := by
  obtain ⟨first, rest, rfl, isStart⟩ := (declared.named found).front
  rw [toAscii_eq_map, List.map_cons, List.head?_cons, Ne, Option.some.injEq]
  intro hash
  have same := (@asciiByte_eq_iff first 0x23 (by decide) (by decide)).mp hash
  subst same
  unfold Grammar.NameStartChar at isStart
  omega

end Parser

/-! ## Calls of `parse_reference` -/

/-- The outcome is an exception of this kind. -/
def FailsWith {α : Type} (kind : ErrorKind) (outcome : Except Halt α) : Prop :=
  ∃ location message, outcome = .error (.thrown (.xmlParse ⟨kind, location, message⟩))

namespace Parser

variable (p : Parser)

/-- Reading a name fails on its size only. -/
theorem whilePushing_fails {condition : Nat → Bool} {start : SourceLocation} {buffer : List Nat}
    {rest final : List DecodedChar} {halt : Halt}
    (threw : (whilePeek condition (p.pushPeek start) buffer).run rest = (.error halt, final)) :
    ∃ message, halt = .thrown (.xmlParse ⟨.resourceLimit, start, message⟩) := by
  have consumes : Comp.Consumes List.length (fun rest => !eof rest && condition (peek rest))
      (p.pushPeek start) := (p.pushPeek_buffers start).consumes rfl
  unfold whilePeek at threw
  induction rest generalizing buffer with
  | nil =>
      rw [run_whileLoop_of_false consumes rfl] at threw
      cases threw
  | cons c rest ih =>
      by_cases holds : condition c.value = true
      · have goesOn : (!eof (c :: rest) && condition (peek (c :: rest))) = true := holds
        rw [run_whileLoop_of_true consumes goesOn] at threw
        rcases bind_eq_error.mp threw with pushed | ⟨following, next, pushed, later⟩
        · unfold pushPeek enforceTokenSize at pushed
          rw [run_read_bind] at pushed
          dsimp only at pushed
          by_cases large : (buffer ++ [peek (c :: rest)]).length > p.options.maxTokenBytes
          · rw [if_pos large] at pushed
            cases pushed
            exact ⟨_, rfl⟩
          · rw [if_neg large] at pushed
            cases pushed
        · obtain ⟨rfl, rfl, _⟩ := ((p.pushPeek_buffers start).cons _ _ _ _ _).mp pushed
          exact ih later
      · have stops : (!eof (c :: rest) && condition (peek (c :: rest))) = false := by
          simpa using holds
        rw [run_whileLoop_of_false consumes stops] at threw
        cases threw

/-- A reference that does not fit the limits fails with them. -/
theorem parseReference_beyond {s : ParserState} {name : Grammar.Text} {after : List DecodedChar}
    (starts : Starts s.rest (0x26 :: (name ++ [0x3B])) after) (closed : 0x3B ∉ name)
    (beyond : ¬ (name.length ≤ p.options.maxTokenBytes ∧
      s.entityExpansions + 1 ≤ p.options.maxEntityExpansions)) :
    FailsWith .resourceLimit (p.parseReference.run s).1 := by
  obtain ⟨consumed, split, spelled⟩ := starts
  obtain ⟨ampersand, inner, rfl, isAmpersand, spelledInner⟩ := List.map_eq_cons_iff.mp spelled
  have opened : (scan (p.expect 0x26 "'&'")).run s = (.ok (), s.withRest (inner ++ after)) :=
    run_scan_eq_ok_iff.mpr ⟨_, p.expect_eq_ok_iff.mpr ⟨ampersand, isAmpersand, split⟩, rfl⟩
  unfold parseReference
  rw [run_look_bind, run_bind_of_ok opened]
  by_cases room : s.entityExpansions + 1 ≤ p.options.maxEntityExpansions
  · let counted := (s.withRest (inner ++ after)).withCount (s.entityExpansions + 1)
    have counts : (counting (p.countExpansion (p.location s.rest))).run (s.withRest (inner ++ after)) =
        (.ok (), counted) := accepts_counting (p.run_countExpansion (p.location s.rest) room)
    rw [run_bind_of_ok counts]
    cases ran : (whilePeek (· != 0x3B) (p.pushPeek (p.location s.rest)) []).run (inner ++ after) with
    | mk outcome final =>
        cases outcome with
        | error halt =>
            obtain ⟨message, rfl⟩ := p.whilePushing_fails ran
            have reads : (scan (whilePeek (· != 0x3B) (p.pushPeek (p.location s.rest)) [])).run counted =
                (.error _, counted.withRest final) := run_onPart_eq_iff.mpr ⟨final, ran, rfl⟩
            rw [run_bind_of_error reads]
            exact ⟨_, _, rfl⟩
        | ok buffer =>
            obtain ⟨taken, same, ⟨others, stops⟩, _, allFit⟩ :=
              (p.pushPeek_buffers (p.location s.rest)).whilePeek_eq_ok_iff.mp ran
            have whole : values taken ++ values final = name ++ 0x3B :: values after := by
              rw [← values_append, ← same, values_append]
              change inner.map DecodedChar.value ++ values after = _
              rw [spelledInner, List.append_assoc]
              rfl
            have lacks : 0x3B ∉ values taken := fun member => by simpa using others _ member
            have isName : values taken = name := by
              cases final with
              | nil =>
                  rw [show values ([] : List DecodedChar) = [] from rfl, List.append_nil] at whole
                  exact absurd (whole ▸ List.mem_append_right _ List.mem_cons_self) lacks
              | cons c final =>
                  have isSemicolon : c.value = 0x3B := by simpa using stops c rfl
                  rw [values_cons, isSemicolon] at whole
                  exact (Macros.append_cons_inj lacks closed whole).1
            have short : name.length ≤ p.options.maxTokenBytes := by
              by_cases empty : name = []
              · rw [empty]
                exact Nat.zero_le _
              · have fits := allFit name empty (isName ▸ List.prefix_rfl)
                rwa [foldl_push, List.nil_append] at fits
            exact absurd ⟨short, room⟩ beyond
  · have counts : (counting (p.countExpansion (p.location s.rest))).run (s.withRest (inner ++ after)) =
        (.error (.thrown (.xmlParse ⟨.resourceLimit, p.location s.rest,
          "entity expansion count exceeds max_entity_expansions"⟩)),
          (s.withRest (inner ++ after)).withCount (s.entityExpansions + 1)) := by
      apply run_onPart_eq_iff.mpr
      exact ⟨s.entityExpansions + 1, p.run_countExpansion_beyond _ room, rfl⟩
    rw [run_bind_of_error counts]
    exact ⟨_, _, rfl⟩

/-- A reference is replaced by what its name resolves to, if its name and the count fit. -/
theorem parseReference_eq_ok_iff {s t : ParserState} {name : Grammar.Text} {after : List DecodedChar}
    (starts : Starts s.rest (0x26 :: (name ++ [0x3B])) after) (closed : 0x3B ∉ name) {value : Bytes} :
    p.parseReference.run s = (.ok value, t) ↔
      name.length ≤ p.options.maxTokenBytes ∧
        s.entityExpansions + 1 ≤ p.options.maxEntityExpansions ∧
        ∃ count, (p.resolveReference s.dtd.entities (toAscii name) (p.location s.rest)).run
            (s.entityExpansions + 1) = (.ok value, count) ∧
          t = (s.withRest after).withCount count := by
  constructor
  · intro returned
    have fits : name.length ≤ p.options.maxTokenBytes ∧
        s.entityExpansions + 1 ≤ p.options.maxEntityExpansions := by
      by_contra beyond
      obtain ⟨_, _, threw⟩ := p.parseReference_beyond starts closed beyond
      rw [returned] at threw
      cases threw
    rw [p.run_parseReference starts closed fits.1 fits.2] at returned
    obtain ⟨count, resolved, rfl⟩ := counting_eq_ok_iff.mp returned
    exact ⟨fits.1, fits.2, count, resolved, rfl⟩
  · intro resolves
    obtain ⟨short, room, count, resolved, rfl⟩ := resolves
    rw [p.run_parseReference starts closed short room]
    exact counting_eq_ok_iff.mpr ⟨count, resolved, rfl⟩

end Parser

end XmlParser
