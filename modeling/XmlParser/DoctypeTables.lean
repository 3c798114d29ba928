import XmlParser.DeclarationOffsets
import XmlParser.Doctypes
import XmlParser.ExternalOptions

/-! The tables behind a whole document type declaration, its external subset included, and
whole documents that begin with one. -/

set_option autoImplicit false

namespace XmlParser

open XmlParser.Computation Comp Grammar

/-! ## The external subset -/

/-- `<!ELEMENT … >`, in bytes. -/
def renderSlice (body : Bytes) : Bytes := ascii "<!ELEMENT" ++ (body ++ [0x3E])

/-- The name of an external declaration and its content specification: only U+0020 parts
them, and without one behind the name there is no declaration. -/
def sliceParts (body : Bytes) : Option (Bytes × Bytes) :=
  let named := body.dropWhile (· == 0x20)
  if 0x20 ∈ named then
    some (named.takeWhile (· != 0x20), (named.dropWhile (· != 0x20)).dropWhile (· == 0x20))
  else none

/-- The tables behind an external element declaration. The length of its content
specification is a number of 64 bits. -/
def enterSlice (options : ParserOptions) (dtd : DtdState) (body : Bytes) : Option DtdState :=
  (sliceParts body).bind fun parts =>
    if dtd.declarationCount + 1 ≤ options.maxDtdDeclarations ∧ lookupKey parts.1 dtd.elements = none then
      (elementModel (parts.2.take (parts.2.length % 2 ^ 64))).map fun declaration =>
        { dtd with
          declarationCount := dtd.declarationCount + 1
          elements := emplaceKey parts.1 declaration dtd.elements }
    else none

/-- A text that is read as an external subset, and the tables in front of it and behind it. -/
inductive ReadsSubset (options : ParserOptions) : Bytes → DtdState → DtdState → Prop where
  | done {space : Bytes} {dtd : DtdState} :
      (∀ byte ∈ space, isAsciiSpace byte = true) → ReadsSubset options space dtd dtd
  | declare {space body after : Bytes} {dtd entered final : DtdState} :
      (∀ byte ∈ space, isAsciiSpace byte = true) → 0x3E ∉ body → enterSlice options dtd body = some entered →
      ReadsSubset options after entered final →
      ReadsSubset options (space ++ (renderSlice body ++ after)) dtd final

/-- What resolving makes of the tables: nothing, or what the resolved text declares. -/
def Resolves (options : ParserOptions) (dtd final : DtdState) : Prop :=
  (¬ Consults options dtd ∧ final = dtd) ∨
    Consults options dtd ∧ ∃ subset, options.resolution dtd.externalSystemId = .text subset ∧
      ReadsSubset options subset dtd final

/-- The tables behind the declaration and its external subset. -/
def Grammar.Doctype.Tables (options : ParserOptions) (doctype : Doctype) (before after : DtdState) : Prop :=
  ∃ dtd, doctype.declare options before = some dtd ∧ Resolves options dtd after

namespace Parser

variable {p : Parser} {s t : ParserState}

/-- The offsets cut out the parts of a declaration. -/
theorem offsets_of_sliceParts {body name model : Bytes} (parts : sliceParts body = some (name, model)) :
    nameOf (renderSlice body) = name ∧ modelOf (renderSlice body) = model.take (model.length % 2 ^ 64) := by
  unfold sliceParts at parts
  dsimp only at parts
  split at parts
  · rename_i space
    cases parts
    obtain ⟨name, behind, split, noSpace⟩ := List.eq_append_cons_of_mem space
    have words : ∀ byte ∈ name, (byte != 0x20) = true :=
      fun byte member => bne_iff_ne.mpr fun same => noSpace (same ▸ member)
    obtain ⟨_, isName, isModel⟩ := @parts_of_split body name behind (renderSlice body) rfl split noSpace
    have lengths := congrArg List.length isModel
    rw [List.length_drop, List.length_append, List.length_singleton] at lengths
    have size : modelLengthOf (renderSlice body) = (behind.dropWhile (· == 0x20)).length % 2 ^ 64 := by
      unfold modelLengthOf sizeSub
      omega
    rw [split, List.takeWhile_append_of_pos words, List.takeWhile_cons_of_neg (by decide),
      List.dropWhile_append_of_pos words, List.dropWhile_cons_of_neg (by decide),
      List.dropWhile_cons_of_pos rfl, List.append_nil]
    refine ⟨isName, ?_⟩
    rw [modelOf, substr, isModel, size, List.take_append_of_le_length (Nat.mod_le _ _)]
  · cases parts

theorem not_nameEnds_of_sliceParts {body : Bytes} (parts : sliceParts body = none) :
    ¬ NameEnds (renderSlice body) := by
  intro ends
  have space := (@nameEnds_iff body (renderSlice body) rfl).mp ends
  cases (if_pos space).symm.trans parts

theorem parseExternalElementDeclaration_eq_ok_iff {body : Bytes} :
    (p.parseExternalElementDeclaration (renderSlice body)).run s = (.ok (), t) ↔
      enterSlice p.options s.dtd body = some t.dtd ∧ t = { s with dtd := t.dtd } := by
  unfold enterSlice
  cases parts : sliceParts body with
  | none =>
      refine iff_of_false (p.parseExternalElementDeclaration_ne_ok (not_nameEnds_of_sliceParts parts) s t) ?_
      rintro ⟨entered, _⟩
      cases entered
  | some pair =>
      obtain ⟨name, model⟩ := pair
      have closed : ((renderSlice body).getLast? != some 0x3E) = false := by
        simp [renderSlice]
      obtain ⟨isName, isModel⟩ := offsets_of_sliceParts parts
      rw [parseExternalElementDeclaration_eq, enforceDtdDeclarationLimit_bind_eq_ok_iff, closed,
        if_neg Bool.false_ne_true, run_look_bind, declareElement_eq_ok_iff, isName, isModel, Option.bind_some]
      constructor
      · rintro ⟨within, new, declaration, isModel, rfl⟩
        refine ⟨(if_pos ⟨within, new⟩).trans ?_, rfl⟩
        rw [isModel, Option.map_some]
        rfl
      · rintro ⟨tables, same⟩
        split at tables
        · rename_i allowed
          obtain ⟨declaration, isModel, entered⟩ := Option.map_eq_some_iff.mp tables
          refine ⟨allowed.1, allowed.2, declaration, isModel, ?_⟩
          rw [same, ← entered]
          rfl
        · cases tables

theorem renderSlice_append (body after : Bytes) :
    renderSlice body ++ after = ascii "<!ELEMENT" ++ (body ++ 0x3E :: after) := by
  unfold renderSlice
  rw [List.append_assoc, List.append_assoc]
  rfl

theorem externalSubsetRound_slice {subset body after : Bytes} (absent : 0x3E ∉ body)
    (isRest : subset.dropWhile isAsciiSpace = renderSlice body ++ after) :
    p.externalSubsetRound subset =
      p.parseExternalElementDeclaration (renderSlice body) >>= fun _ => pure (.next after) := by
  rw [renderSlice_append] at isRest
  rw [p.externalSubsetRound_eq absent isRest, renderSlice]

theorem externalSubsetRound_eq_ok_iff {subset : Bytes} {step : LoopStep Bytes Unit} :
    (p.externalSubsetRound subset).run s = (.ok step, t) ↔
      (step = .done () ∧ t = s ∧ ∀ byte ∈ subset, isAsciiSpace byte = true) ∨
        ∃ space body after, step = .next after ∧ subset = space ++ (renderSlice body ++ after) ∧
          (∀ byte ∈ space, isAsciiSpace byte = true) ∧ 0x3E ∉ body ∧
          enterSlice p.options s.dtd body = some t.dtd ∧ t = { s with dtd := t.dtd } := by
  have parted : subset.takeWhile isAsciiSpace ++ subset.dropWhile isAsciiSpace = subset := List.takeWhile_append_dropWhile
  have spaces : ∀ byte ∈ subset.takeWhile isAsciiSpace, isAsciiSpace byte = true := fun byte member =>
    (List.mem_takeWhile_imp member)
  constructor
  · intro ran
    by_cases ended : subset.dropWhile isAsciiSpace = []
    · left
      unfold externalSubsetRound at ran
      dsimp only at ran
      rw [ended, List.isEmpty_nil, if_pos rfl] at ran
      cases ran
      exact ⟨rfl, rfl, List.dropWhile_eq_nil_iff.mp ended⟩
    have nonempty : (subset.dropWhile isAsciiSpace).isEmpty = false := by simpa using ended
    by_cases starts : ascii "<!ELEMENT" <+: subset.dropWhile isAsciiSpace
    · obtain ⟨tail, isTail⟩ := starts
      by_cases closed : 0x3E ∈ tail
      · right
        obtain ⟨body, after, rfl, absent⟩ := List.eq_append_cons_of_mem closed
        rw [← renderSlice_append] at isTail
        rw [externalSubsetRound_slice absent isTail.symm] at ran
        obtain ⟨_, u, entered, behind⟩ := bind_eq_ok.mp ran
        cases behind
        obtain ⟨tables, same⟩ := parseExternalElementDeclaration_eq_ok_iff.mp entered
        have written : subset = subset.takeWhile isAsciiSpace ++ (renderSlice body ++ after) := by
          rw [isTail]
          exact parted.symm
        exact ⟨_, body, after, rfl, written, spaces, absent, tables, same⟩
      · have absent : (subset.dropWhile isAsciiSpace).contains 0x3E = false := by
          have keyword : 0x3E ∉ ascii "<!ELEMENT" := by decide +kernel
          rw [← isTail]
          simpa [keyword] using closed
        unfold externalSubsetRound at ran
        dsimp only at ran
        rw [nonempty, if_neg Bool.false_ne_true, if_pos (List.isPrefixOf_iff_prefix.mpr ⟨tail, isTail⟩), absent,
          if_pos (by decide)] at ran
        cases ran
    · unfold externalSubsetRound at ran
      dsimp only at ran
      rw [nonempty, if_neg Bool.false_ne_true, if_neg (mt List.isPrefixOf_iff_prefix.mp starts)] at ran
      cases ran
  · rintro (⟨rfl, rfl, spaced⟩ | ⟨space, body, after, rfl, rfl, spaced, absent, tables, same⟩)
    · unfold externalSubsetRound
      dsimp only
      rw [List.dropWhile_eq_nil_iff.mpr spaced, List.isEmpty_nil, if_pos rfl]
      rfl
    · have isRest : (space ++ (renderSlice body ++ after)).dropWhile isAsciiSpace = renderSlice body ++ after := by
        have bracket : ascii "<!ELEMENT" = 0x3C :: ascii "!ELEMENT" := by decide
        rw [List.dropWhile_append_of_pos spaced, renderSlice_append, bracket]
        exact List.dropWhile_cons_of_neg (by decide)
      have ran := parseExternalElementDeclaration_eq_ok_iff.mpr ⟨tables, same⟩
      rw [externalSubsetRound_slice absent isRest]
      exact run_bind_of_ok ran _

theorem parseExternalSubsetText_eq_ok_iff {subset : Bytes} :
    (p.parseExternalSubsetText subset).run s = (.ok (), t) ↔
      ReadsSubset p.options subset s.dtd t.dtd ∧ t = { s with dtd := t.dtd } := by
  have shrinks := p.externalSubsetRound_shrinks
  unfold parseExternalSubsetText
  constructor
  · intro ran
    induction subset, s using loop_induction shrinks with
    | round subset s ih =>
        rw [run_loop shrinks] at ran
        cases round : (p.externalSubsetRound subset).run s with
        | mk outcome next =>
            rw [round] at ran
            cases outcome with
            | error halt => cases ran
            | ok step =>
                rcases externalSubsetRound_eq_ok_iff.mp round with ⟨rfl, rfl, spaces⟩ |
                  ⟨space, body, after, rfl, rfl, spaces, absent, entered, same⟩
                · cases ran
                  exact ⟨.done spaces, rfl⟩
                · obtain ⟨reads, last⟩ := ih after next round ran
                  refine ⟨.declare spaces absent entered reads, ?_⟩
                  rw [last, same]
  · rintro ⟨reads, same⟩
    generalize isDtd : s.dtd = dtd at reads
    generalize isFinal : t.dtd = final at reads same
    induction reads generalizing s with
    | @done space dtd spaces =>
        have unchanged : t = s := by
          rw [same, ← isDtd]
        subst unchanged
        exact run_loop_of_done shrinks (externalSubsetRound_eq_ok_iff.mpr (.inl ⟨rfl, rfl, spaces⟩))
    | @declare space body after dtd entered final spaces absent enters reads ih =>
        have round : (p.externalSubsetRound (space ++ (renderSlice body ++ after))).run s =
            (.ok (.next after), { s with dtd := entered }) :=
          externalSubsetRound_eq_ok_iff.mpr
            (.inr ⟨space, body, after, rfl, rfl, spaces, absent, isDtd ▸ enters, rfl⟩)
        rw [run_loop_of_next shrinks round]
        exact ih rfl isFinal same

theorem resolveExternalSubsetIfNeeded_eq_ok_iff : p.resolveExternalSubsetIfNeeded.run s = (.ok (), t) ↔
    Resolves p.options s.dtd t.dtd ∧ t = { s with dtd := t.dtd } := by
  have asks : Consults p.options s.dtd ↔ ¬ (!s.dtd.hasExternalSubset || p.options.validation != .dtd) = true := by
    simp [Consults, and_comm]
  rw [resolveExternalSubsetIfNeeded_eq, run_read_bind]
  unfold Resolves
  by_cases consults : Consults p.options s.dtd
  · rw [if_neg (asks.mp consults)]
    cases resolved : p.options.resolution s.dtd.externalSystemId with
    | text subset => simpa [consults, useResolution] using parseExternalSubsetText_eq_ok_iff
    | disabled | threw exception | tooLong => simp [consults, useResolution, failHere, look]
  · rw [if_pos (not_not.mp (mt asks.mpr consults))]
    simp only [consults, not_false_eq_true, true_and, false_and, or_false]
    constructor
    · intro ran
      cases ran
      exact ⟨rfl, rfl⟩
    · rintro ⟨same, rest⟩
      rw [rest, same]
      rfl

theorem parseDoctypeIfPresent_spans (ran : p.parseDoctypeIfPresent.run s = (.ok (), t)) :
    (startsWith (u32 "<!DOCTYPE") s.rest = false ∧ t = s) ∨
      ∃ doctype, Doctype.Readable doctype ∧ doctype.Tables p.options s.dtd t.dtd ∧
        Spans s t doctype.render t.dtd := by
  rcases parseDoctypeIfPresent_eq_ok_iff.mp ran with absent | ⟨doctype, u, readable, declared, spans, resolved⟩
  · exact .inl absent
  obtain ⟨resolves, same⟩ := resolveExternalSubsetIfNeeded_eq_ok_iff.mp resolved
  have behind : Spans u t [] t.dtd := spans_nil_iff.mpr same
  exact .inr ⟨doctype, readable, ⟨u.dtd, declared, resolves⟩, by simpa using spans.trans behind⟩

/-- The parser takes a document type declaration exactly if it is spelled by the grammar and
stands for tables; then it builds these tables, and nothing else changes. -/
theorem doctype_exact (p : Parser) (s t : ParserState) : p.parseDoctypeIfPresent.run s = (.ok (), t) ↔
    (startsWith (u32 "<!DOCTYPE") s.rest = false ∧ t = s) ∨
      ∃ doctype, Doctype.Readable doctype ∧ doctype.Tables p.options s.dtd t.dtd ∧
        Spans s t doctype.render t.dtd := by
  refine ⟨parseDoctypeIfPresent_spans, ?_⟩
  rintro (absent | ⟨doctype, readable, ⟨dtd, declared, resolves⟩, spans⟩)
  · exact parseDoctypeIfPresent_eq_ok_iff.mpr (.inl absent)
  obtain ⟨u, spans1, behind⟩ := @Spans.split _ _ doctype.render [] _ dtd (by simpa using spans)
  have same := spans_nil_iff.mp behind
  have tables := spans1.tables
  subst tables
  have resolved := resolveExternalSubsetIfNeeded_eq_ok_iff.mpr ⟨resolves, same⟩
  exact parseDoctypeIfPresent_eq_ok_iff.mpr (.inr ⟨doctype, u, readable, declared, spans1, resolved⟩)

end Parser

end XmlParser
