import XmlParser.ElementDeclarations
import XmlParser.Spans

/-! Document type declarations: the tables that they stand for, and that the parser takes
exactly their spellings and builds exactly these tables. -/

set_option autoImplicit false

namespace XmlParser

open XmlParser.Computation Comp Grammar

/-! ## The tables of a declaration -/

namespace Grammar

/-- The tables behind a declaration, unless it meets a limit, its name is declared
already or its content model is none that is supported. -/
def Declaration.enter (options : ParserOptions) (dtd : DtdState) : Declaration → Option DtdState
  | .comment body => if (utf8 body).length ≤ options.maxTokenBytes then some dtd else none
  | .element _ name _ model =>
      if dtd.declarationCount + 1 ≤ options.maxDtdDeclarations ∧ name.length ≤ options.maxTokenBytes ∧
          lookupKey (utf8 name) dtd.elements = none then
        (elementModel (utf8 model)).map fun declaration =>
          { dtd with
            declarationCount := dtd.declarationCount + 1
            elements := emplaceKey (utf8 name) declaration dtd.elements }
      else none
  | .entity _ name _ value _ =>
      if dtd.declarationCount + 1 ≤ options.maxDtdDeclarations ∧ name.length ≤ options.maxTokenBytes ∧
          (utf8 value.body).length ≤ options.maxEntityReplacementBytes ∧
          lookupKey (utf8 name) dtd.entities = none then
        some { dtd with
          declarationCount := dtd.declarationCount + 1
          entities := emplaceKey (utf8 name) (utf8 value.body) dtd.entities }
      else none

def enterDeclarations (options : ParserOptions) : List (Text × Declaration) → DtdState → Option DtdState
  | [], dtd => some dtd
  | item :: items, dtd => (item.2.enter options dtd).bind (enterDeclarations options items)

def ExternalId.name : ExternalId → Quoted
  | .systemId _ name => name
  | .publicId _ _ _ name => name

def enterExternalId (dtd : DtdState) : Option (ExternalId × Text) → DtdState
  | none => dtd
  | some item => { dtd with hasExternalSubset := true, externalSystemId := utf8 item.1.name.body }

/-- The tables of the declaration before its external subset is resolved. -/
def Doctype.declare (options : ParserOptions) (doctype : Doctype) (dtd : DtdState) : Option DtdState :=
  if doctype.root.length ≤ options.maxTokenBytes then
    enterDeclarations options ((doctype.subset.map InternalSubset.declarations).getD [])
      (enterExternalId { dtd with hasDoctype := true, rootName := utf8 doctype.root } doctype.externalId)
  else none

end Grammar

namespace Parser

variable {p : Parser} {s t : ParserState}

/-! ## Declarations -/

/-- A keyword, white space and a name; `inner` may refuse what begins no name. -/
theorem named_eq_ok_iff {keyword : Text} {description message : String} {kind : ErrorKind} {inner : ParserM Unit}
    {rest : Bytes → ParserM Unit}
    (same : ∀ s, inner.run s = (.ok (), t) ↔ (scan p.parseName >>= rest).run s = (.ok (), t)) :
    (do
      scan (p.expectSequence keyword description)
      if !isSpace (← look peek) then p.failHere kind message
      else do
        scan p.skipWhitespace
        inner).run s = (.ok (), t) ↔
      ∃ space name u, (space ≠ [] ∧ Spaces space) ∧ (Name name ∧ name.length ≤ p.options.maxTokenBytes) ∧
        StopsAt isNameChar u.rest ∧ Spans s u (keyword ++ (space ++ name)) s.dtd ∧
        (rest (utf8 name)).run u = (.ok (), t) := by
  constructor
  · intro ran
    obtain ⟨_, s1, keyworded, ran1⟩ := bind_eq_ok.mp ran
    have spans1 := scan_expectSequence_eq_ok_iff.mp keyworded
    rw [run_look_bind] at ran1
    cases spaced : isSpace (peek s1.rest) with
    | false =>
        rw [spaced, Bool.not_false, if_pos rfl] at ran1
        cases ran1
    | true =>
        rw [spaced, Bool.not_true, if_neg Bool.false_ne_true] at ran1
        obtain ⟨_, s2, skipped, ran2⟩ := bind_eq_ok.mp ran1
        obtain ⟨space, ⟨spaces, stops⟩, spans2⟩ := scan_skipWhitespace_eq_ok_iff.mp skipped
        obtain ⟨_, u, taken, ran3⟩ := bind_eq_ok.mp ((same s2).mp ran2)
        obtain ⟨name, ⟨named, ends, rfl, short⟩, spans3⟩ := scan_parseName_eq_ok_iff.mp taken
        rw [spans1.tables] at spans2
        rw [spans2.tables] at spans3
        refine ⟨space, name, u, ⟨?_, spaces⟩, ⟨named, short⟩, ends, spans1.trans (spans2.trans spans3), ran3⟩
        rintro rfl
        rw [spans_nil_iff.mp spans2] at stops
        exact absurd spaced (Bool.eq_false_iff.mp (not_spaced_of_stops stops))
  · rintro ⟨space, name, u, ⟨apart, spaces⟩, ⟨named, short⟩, ends, spans, ran⟩
    obtain ⟨s1, spans1, spans⟩ := spans.split s.dtd
    obtain ⟨s2, spans2, spans3⟩ := spans.split s.dtd
    obtain ⟨first, letters, rfl, starts⟩ := named.front
    obtain ⟨c, others, rfl⟩ := List.exists_cons_of_ne_nil apart
    have keyworded : (scan (p.expectSequence keyword description)).run s = (.ok (), s1) :=
      scan_expectSequence_eq_ok_iff.mpr spans1
    have spaced : isSpace (peek s1.rest) = true := by
      rw [spans2.peek_eq rfl]
      exact isSpace_iff.mpr (spaces c List.mem_cons_self)
    have skipped : (scan p.skipWhitespace).run s1 = (.ok (), s2) := by
      rw [scan_skipWhitespace_eq_ok_iff, spans1.tables]
      exact ⟨c :: others, ⟨spaces, spans3.stops rfl (isSpace_of_nameStart starts)⟩, spans2⟩
    have taken : (scan p.parseName).run s2 = (.ok (utf8 (first :: letters)), u) := by
      rw [scan_parseName_eq_ok_iff, spans2.tables]
      exact ⟨first :: letters, ⟨named, ends, rfl, short⟩, spans3⟩
    rw [run_bind_of_ok keyworded, run_look_bind, spaced, Bool.not_true, if_neg Bool.false_ne_true,
      run_bind_of_ok skipped, same, run_bind_of_ok taken]
    exact ran

theorem enforceDtdDeclarationLimit_bind_eq_ok_iff {rest : ParserM Unit} :
    (p.enforceDtdDeclarationLimit >>= fun _ => rest).run s = (.ok (), t) ↔
      s.dtd.declarationCount + 1 ≤ p.options.maxDtdDeclarations ∧ rest.run (counted s) = (.ok (), t) := by
  constructor
  · intro ran
    obtain ⟨_, next, isCounted, behind⟩ := bind_eq_ok.mp ran
    obtain ⟨within, rfl⟩ := p.enforceDtdDeclarationLimit_eq_ok_iff.mp isCounted
    exact ⟨within, behind⟩
  · rintro ⟨within, ran⟩
    rw [run_bind_of_ok (p.enforceDtdDeclarationLimit_eq_ok_iff.mpr ⟨within, rfl⟩)]
    exact ran

theorem spaced_eq_ok_iff {α : Type} {rest : ParserM α} {value : α} :
    (scan p.skipWhitespace >>= fun _ => rest).run s = (.ok value, t) ↔
      ∃ gap u, Spaces gap ∧ StopsAt isSpace u.rest ∧ Spans s u gap s.dtd ∧ rest.run u = (.ok value, t) := by
  constructor
  · intro ran
    obtain ⟨_, u, skipped, behind⟩ := bind_eq_ok.mp ran
    obtain ⟨gap, ⟨gaps, stops⟩, spans⟩ := scan_skipWhitespace_eq_ok_iff.mp skipped
    exact ⟨gap, u, gaps, stops, spans, behind⟩
  · rintro ⟨gap, u, gaps, stops, spans, ran⟩
    rw [run_bind_of_ok (scan_skipWhitespace_eq_ok_iff.mpr ⟨gap, ⟨gaps, stops⟩, spans⟩)]
    exact ran

theorem enterEntity_eq_ok_iff {name replacement : Bytes} {start : SourceLocation} :
    (p.enterEntity name replacement start).run s = (.ok (), t) ↔
      replacement.length ≤ p.options.maxEntityReplacementBytes ∧ lookupKey name s.dtd.entities = none ∧
        ∃ after, Spaces after ∧ Spans s t (after ++ [0x3E])
          { s.dtd with entities := emplaceKey name replacement s.dtd.entities } := by
  unfold enterEntity
  by_cases long : replacement.length > p.options.maxEntityReplacementBytes
  · rw [if_pos long]
    constructor
    · intro ran
      cases ran
    · exact fun short => absurd short.1 (Nat.not_le_of_gt long)
  rw [if_neg long, spaced_eq_ok_iff]
  constructor
  · rintro ⟨after, u, afters, _, spans, ran⟩
    obtain ⟨_, v, closed, ran1⟩ := bind_eq_ok.mp ran
    have closing := scan_expect_eq_ok_iff.mp closed
    have whole := spans.trans closing
    rw [spans.tables] at whole
    rw [run_read_bind, whole.tables] at ran1
    cases known : lookupKey name s.dtd.entities with
    | some value =>
        rw [known] at ran1
        cases ran1
    | none =>
        rw [known, Option.isSome_none, if_neg Bool.false_ne_true] at ran1
        cases ran1
        refine ⟨Nat.le_of_not_gt long, rfl, after, afters, whole.rest, ?_⟩
        rw [whole.same]
  · rintro ⟨_, new, after, afters, spans⟩
    obtain ⟨u, spans1, spans2⟩ := spans.split s.dtd
    obtain ⟨v, spans3, behind⟩ := @Spans.split _ _ [0x3E] [] _ s.dtd (by rwa [List.append_nil])
    have closed : (scan (p.expect 0x3E "ENTITY declaration close")).run u = (.ok (), v) := by
      rw [scan_expect_eq_ok_iff, spans1.tables]
      exact spans3
    refine ⟨after, u, afters, spans2.stops rfl (by decide), spans1, ?_⟩
    rw [run_bind_of_ok closed, run_read_bind, spans3.tables, new, Option.isSome_none, if_neg Bool.false_ne_true,
      spans_nil_iff.mp behind]
    refine congrArg (fun dtd => (Except.ok (), { v with dtd })) ?_
    rw [spans3.tables]

variable (p) in
/-- The declaration has been read, and its tables have been entered. -/
structure Tabulates (declaration : Declaration) (s t : ParserState) : Prop where
  readable : declaration.Readable
  tables : declaration.enter p.options s.dtd = some t.dtd
  spans : Spans s t declaration.render t.dtd

/-- The name of an entity cannot begin with the sign of a parameter entity. -/
theorem percent_eq_ok_iff {kind : ErrorKind} {message : String} {rest : Bytes → ParserM Unit} :
    (look peek >>= fun next =>
        if next == 0x25 then p.failHere kind message else scan p.parseName >>= rest).run s = (.ok (), t) ↔
      (scan p.parseName >>= rest).run s = (.ok (), t) := by
  rw [run_look_bind]
  cases sign : peek s.rest == 0x25 with
  | false => rw [if_neg Bool.false_ne_true]
  | true =>
      rw [if_pos rfl]
      constructor
      · intro ran
        cases ran
      · intro ran
        obtain ⟨_, u, taken, _⟩ := bind_eq_ok.mp ran
        obtain ⟨name, ⟨named, _⟩, spans⟩ := scan_parseName_eq_ok_iff.mp taken
        obtain ⟨first, letters, rfl, starts⟩ := named.front
        have isFirst : first = 0x25 := by
          rw [← spans.peek_eq rfl]
          exact beq_iff_eq.mp sign
        subst isFirst
        exact absurd starts (by unfold NameStartChar; decide)

theorem parseEntityDeclaration_eq_ok_iff : p.parseEntityDeclaration.run s = (.ok (), t) ↔
    ∃ space name gap value after, p.Tabulates (.entity space name gap value after) s t := by
  unfold parseEntityDeclaration
  rw [run_look_bind, enforceDtdDeclarationLimit_bind_eq_ok_iff,
    named_eq_ok_iff (fun s => percent_eq_ok_iff)]
  constructor
  · rintro ⟨within, space, name, u, ⟨apart, spaces⟩, ⟨named, short⟩, _, spans, ran⟩
    obtain ⟨gap, v, gaps, _, spansGap, ran1⟩ := spaced_eq_ok_iff.mp ran
    obtain ⟨_, w, taken, ran2⟩ := bind_eq_ok.mp ran1
    obtain ⟨value, readable, rfl, spansValue⟩ := scan_parseQuotedLiteral_eq_ok_iff.mp taken
    obtain ⟨brief, new, after, afters, spansAfter⟩ := enterEntity_eq_ok_iff.mp ran2
    rw [spans.tables] at spansGap
    rw [spansGap.tables] at spansValue
    rw [spansValue.tables] at new spansAfter
    refine ⟨space, name, gap, value, after, ⟨apart, spaces, named, gaps, readable, afters⟩, ?_, ?_⟩
    · rw [spansAfter.tables]
      exact if_pos ⟨within, short, brief, new⟩
    · have whole := spans_retable_iff.mp (spans.trans (spansGap.trans (spansValue.trans spansAfter)))
      rw [spansAfter.tables]
      simpa [Declaration.render, u32] using whole
  · rintro ⟨space, name, gap, value, after, ⟨apart, spaces, named, gaps, readable, afters⟩, tables, spans⟩
    have allowed : s.dtd.declarationCount + 1 ≤ p.options.maxDtdDeclarations ∧
        name.length ≤ p.options.maxTokenBytes ∧ (utf8 value.body).length ≤ p.options.maxEntityReplacementBytes ∧
        lookupKey (utf8 name) s.dtd.entities = none := by
      by_contra refused
      exact absurd ((if_neg refused).symm.trans tables) (by simp)
    have entered := Option.some.inj ((if_pos allowed).symm.trans tables)
    obtain ⟨within, short, brief, new⟩ := allowed
    have written : Declaration.render (.entity space name gap value after) =
        (u32 "<!ENTITY" ++ (space ++ name)) ++ (gap ++ (value.render ++ (after ++ [0x3E]))) := by
      simp [Declaration.render, u32]
    rw [written, ← entered] at spans
    obtain ⟨u, spans1, spans2⟩ := (spans_retable_iff.mpr spans : Spans (counted s) t _ _).split (counted s).dtd
    obtain ⟨v, spans3, spans4⟩ := spans2.split (counted s).dtd
    obtain ⟨w, spans5, spans6⟩ := spans4.split (counted s).dtd
    have stops : StopsAt isSpace v.rest := spans5.stops rfl readable.not_inside.1
    have ends : StopsAt isNameChar u.rest :=
      spans3.stops_iff.mpr ⟨fun c isFirst => isNameChar_of_isSpace (gaps c (List.mem_of_mem_head? isFirst)),
        fun _ => spans5.stops rfl readable.not_inside.2⟩
    have taken : (scan p.parseQuotedLiteral).run v = (.ok (utf8 value.body), w) := by
      rw [scan_parseQuotedLiteral_eq_ok_iff, spans3.tables]
      exact ⟨value, readable, rfl, spans5⟩
    refine ⟨within, space, name, u, ⟨apart, spaces⟩, ⟨named, short⟩, ends, spans1, ?_⟩
    rw [spaced_eq_ok_iff, spans1.tables]
    refine ⟨gap, v, gaps, stops, spans3, ?_⟩
    rw [run_bind_of_ok taken, enterEntity_eq_ok_iff, spans5.tables]
    exact ⟨brief, new, after, afters, spans6⟩

theorem parseElementDeclaration_eq_ok_iff_tabulates : p.parseElementDeclaration.run s = (.ok (), t) ↔
    ∃ space name gap model, p.Tabulates (.element space name gap model) s t := by
  unfold parseElementDeclaration
  rw [run_look_bind, enforceDtdDeclarationLimit_bind_eq_ok_iff, named_eq_ok_iff fun _ => Iff.rfl]
  constructor
  · rintro ⟨within, space, name, u, ⟨apart, spaces⟩, ⟨named, short⟩, ends, spans, ran⟩
    obtain ⟨gap, v, gaps, stops, spansGap, ran1⟩ := spaced_eq_ok_iff.mp ran
    obtain ⟨_, w, taken, ran2⟩ := bind_eq_ok.mp ran1
    obtain ⟨model, ⟨unclosed, _, rfl⟩, spansModel⟩ := scan_model_eq_ok_iff.mp taken
    obtain ⟨_, x, closed, ran3⟩ := bind_eq_ok.mp ran2
    have spansClose := scan_expect_eq_ok_iff.mp closed
    rw [spans.tables] at spansGap
    rw [spansGap.tables] at spansModel
    rw [spansModel.tables] at spansClose
    obtain ⟨new, declaration, isModel, rfl⟩ := declareElement_eq_ok_iff.mp ran3
    rw [spansClose.tables] at new
    have whole : Spans s x _ (counted s).dtd :=
      spans_retable_iff.mp (spans.trans (spansGap.trans (spansModel.trans spansClose)))
    refine ⟨space, name, gap, model, ⟨apart, spaces, named, gaps, unclosed, ?_, ?_⟩, ?_, ?_⟩
    · exact fun c isFirst isSpaced =>
        Bool.false_ne_true (((spansModel.stops_iff.mp stops).1 c isFirst).symm.trans (isSpace_iff.mpr isSpaced))
    · exact fun c isFirst => isNameChar_eq_false_iff.mp (((spansGap.trans spansModel).stops_iff.mp ends).1 c isFirst)
    · refine (if_pos ⟨within, short, new⟩).trans ?_
      rw [isModel, Option.map_some, spansClose.tables]
      rfl
    · refine ⟨?_, ?_⟩
      · simpa [Declaration.render, u32] using whole.rest
      · rw [whole.same]
  · rintro ⟨space, name, gap, model, ⟨apart, spaces, named, gaps, unclosed, starts, ends⟩, tables, spans⟩
    have allowed : s.dtd.declarationCount + 1 ≤ p.options.maxDtdDeclarations ∧
        name.length ≤ p.options.maxTokenBytes ∧ lookupKey (utf8 name) s.dtd.elements = none := by
      by_contra refused
      exact absurd ((if_neg refused).symm.trans tables) (by simp)
    obtain ⟨declaration, isModel, entered⟩ := Option.map_eq_some_iff.mp ((if_pos allowed).symm.trans tables)
    obtain ⟨within, short, new⟩ := allowed
    have written : Declaration.render (.element space name gap model) =
        (u32 "<!ELEMENT" ++ (space ++ name)) ++ (gap ++ (model ++ ([0x3E] ++ []))) := by
      simp [Declaration.render, u32]
    rw [written, ← entered] at spans
    obtain ⟨u, spans1, spans2⟩ := (spans_retable_iff.mpr spans : Spans (counted s) t _ _).split (counted s).dtd
    obtain ⟨v, spans3, spans4⟩ := spans2.split (counted s).dtd
    obtain ⟨w, spans5, spans6⟩ := spans4.split (counted s).dtd
    obtain ⟨x, spans7, spans8⟩ := spans6.split (counted s).dtd
    have stops : StopsAt isSpace v.rest := spans5.stops_iff.mpr
      ⟨fun c isFirst => Bool.eq_false_iff.mpr (mt isSpace_iff.mp (starts c isFirst)),
        fun _ => spans7.stops rfl (by decide)⟩
    have nameEnds : StopsAt isNameChar u.rest := (spans3.trans spans5).stops_iff.mpr
      ⟨fun c isFirst => isNameChar_eq_false_iff.mpr (ends c isFirst), fun _ => spans7.stops rfl (by decide)⟩
    have taken : (scan (whilePeek (· != 0x3E) p.takePeek [])).run v = (.ok (utf8 model), w) := by
      rw [scan_model_eq_ok_iff, spans3.tables]
      exact ⟨model, ⟨unclosed, spans7.stops rfl (by decide), rfl⟩, spans5⟩
    have closed : (scan (p.expect 0x3E "ELEMENT declaration close")).run w = (.ok (), x) := by
      rw [scan_expect_eq_ok_iff, spans5.tables]
      exact spans7
    refine ⟨within, space, name, u, ⟨apart, spaces⟩, ⟨named, short⟩, nameEnds, spans1, ?_⟩
    rw [spaced_eq_ok_iff, spans1.tables]
    refine ⟨gap, v, gaps, stops, spans3, ?_⟩
    rw [run_bind_of_ok taken, run_bind_of_ok closed, declareElement_eq_ok_iff, spans7.tables]
    refine ⟨new, declaration, isModel, ?_⟩
    rw [spans_nil_iff.mp spans8]
    rfl

theorem scan_scanComment_eq_ok_iff_tabulates {text : Bytes} : (scan p.scanComment).run s = (.ok text, t) ↔
    ∃ body, text = utf8 body ∧ p.Tabulates (.comment body) s t := by
  rw [scan_scanComment_eq_ok_iff]
  refine exists_congr fun body => ?_
  constructor
  · rintro ⟨hyphens, rfl, short, spans⟩
    refine ⟨rfl, hyphens, ?_, ?_⟩
    · rw [spans.tables]
      exact if_pos short
    · rw [spans.tables]
      exact spans
  · rintro ⟨rfl, hyphens, tables, spans⟩
    have short : (utf8 body).length ≤ p.options.maxTokenBytes := by
      by_contra long
      exact absurd ((if_neg long).symm.trans tables) (by simp)
    rw [← Option.some.inj ((if_pos short).symm.trans tables)] at spans
    exact ⟨hyphens, rfl, short, spans⟩

/-! ## The internal subset -/

/-- What the rounds of `parse_internal_subset` look for. -/
theorem startsWith_of_spans {u : ParserState} {text : Text} {dtd : DtdState} (spans : Spans u t text dtd) (word : Text) :
    startsWith word u.rest = word.isPrefixOf (text ++ values t.rest) := by
  rw [← spans.values_rest]
  rfl

theorem eof_of_spans {u : ParserState} {text : Text} {dtd : DtdState} (spans : Spans s u text dtd)
    (more : eof u.rest = false) : eof s.rest = false := by
  obtain ⟨consumed, split, _⟩ := spans.rest
  rw [split]
  cases consumed with
  | nil => exact more
  | cons c consumed => rfl

theorem more_of_peek {rest : List DecodedChar} {c : Nat} (front : peek rest = c) (isChar : c ≠ 0) :
    eof rest = false := by
  cases rest with
  | nil => exact absurd front.symm isChar
  | cons d rest => rfl

theorem stopsAt_of_peek {condition : Nat → Bool} {rest : List DecodedChar} {c : Nat} (front : peek rest = c)
    (ends : condition c = false) : StopsAt condition rest := by
  intro d isFirst
  cases rest with
  | nil => cases isFirst
  | cons e rest =>
      cases isFirst
      exact (congrArg condition front).trans ends

theorem starts_of_peek_ne {rest : List DecodedChar} {first : Nat} {others : Text} (differs : peek rest ≠ first) :
    startsWith (first :: others) rest = false := by
  cases rest with
  | nil => rfl
  | cons c rest =>
      have other : (first == c.value) = false := beq_eq_false_iff_ne.mpr (Ne.symm differs)
      simp [startsWith, List.isPrefixOf, other]

theorem internalSubsetRound_eq_ok_iff {step : LoopStep Unit Unit} :
    (p.internalSubsetRound ()).run s = (.ok step, t) ↔
      ∃ space u, Spaces space ∧ Spans s u space s.dtd ∧
        ((step = .done () ∧ peek u.rest = 0x5D ∧ t = u) ∨
          (step = .next () ∧ ∃ declaration, p.Tabulates declaration u t)) := by
  unfold internalSubsetRound
  rw [run_look_bind]
  constructor
  · intro ran
    split at ran
    · cases ran
    obtain ⟨space, u, spaces, _, spans, ran1⟩ := spaced_eq_ok_iff.mp ran
    refine ⟨space, u, spaces, spans, ?_⟩
    rw [run_look_bind] at ran1
    split at ran1
    · rename_i bracket
      cases ran1
      exact .inl ⟨rfl, beq_iff_eq.mp bracket, rfl⟩
    refine .inr ?_
    rw [run_look_bind] at ran1
    split at ran1
    · obtain ⟨_, v, scanned, behind⟩ := bind_eq_ok.mp ran1
      cases behind
      obtain ⟨body, _, tabulates⟩ := scan_scanComment_eq_ok_iff_tabulates.mp scanned
      exact ⟨rfl, _, tabulates⟩
    rw [run_look_bind] at ran1
    split at ran1
    · obtain ⟨_, v, parsed, behind⟩ := bind_eq_ok.mp ran1
      cases behind
      obtain ⟨space, name, gap, model, tabulates⟩ := parseElementDeclaration_eq_ok_iff_tabulates.mp parsed
      exact ⟨rfl, _, tabulates⟩
    rw [run_look_bind] at ran1
    split at ran1
    · obtain ⟨_, v, parsed, behind⟩ := bind_eq_ok.mp ran1
      cases behind
      obtain ⟨space, name, gap, value, after, tabulates⟩ := parseEntityDeclaration_eq_ok_iff.mp parsed
      exact ⟨rfl, _, tabulates⟩
    · cases ran1
  · rintro ⟨space, u, spaces, spans, ⟨rfl, bracket, rfl⟩ | ⟨rfl, declaration, tabulates⟩⟩
    · rw [eof_of_spans spans (more_of_peek bracket (by decide)), if_neg Bool.false_ne_true, spaced_eq_ok_iff]
      refine ⟨space, t, spaces, stopsAt_of_peek bracket (by decide), spans, ?_⟩
      rw [run_look_bind, bracket]
      rfl
    · have front : peek u.rest = 0x3C := by
        cases declaration with
        | comment body | element space name gap model | entity space name gap value after =>
            exact tabulates.spans.peek_eq rfl
      rw [eof_of_spans spans (more_of_peek front (by decide)), if_neg Bool.false_ne_true, spaced_eq_ok_iff]
      refine ⟨space, u, spaces, stopsAt_of_peek front (by decide), spans, ?_⟩
      have word := startsWith_of_spans tabulates.spans
      rw [run_look_bind, front, if_neg (by decide), run_look_bind]
      cases declaration with
      | comment body =>
          have isComment : startsWith (u32 "<!--") u.rest = true := (word _).trans rfl
          rw [isComment, if_pos rfl, run_bind_of_ok (scan_scanComment_eq_ok_iff_tabulates.mpr ⟨body, rfl, tabulates⟩)]
          rfl
      | element space name gap model =>
          have noComment : startsWith (u32 "<!--") u.rest = false := (word _).trans rfl
          have isElement : startsWith (u32 "<!ELEMENT") u.rest = true := (word _).trans rfl
          rw [noComment, if_neg Bool.false_ne_true, run_look_bind, isElement, if_pos rfl,
            run_bind_of_ok (parseElementDeclaration_eq_ok_iff_tabulates.mpr ⟨space, name, gap, model, tabulates⟩)]
          rfl
      | entity space name gap value after =>
          have noComment : startsWith (u32 "<!--") u.rest = false := (word _).trans rfl
          have noElement : startsWith (u32 "<!ELEMENT") u.rest = false := (word _).trans rfl
          have isEntity : startsWith (u32 "<!ENTITY") u.rest = true := (word _).trans rfl
          rw [noComment, if_neg Bool.false_ne_true, run_look_bind, noElement, if_neg Bool.false_ne_true,
            run_look_bind, isEntity, if_pos rfl,
            run_bind_of_ok (parseEntityDeclaration_eq_ok_iff.mpr ⟨space, name, gap, value, after, tabulates⟩)]
          rfl

/-- Declarations up to the closing bracket; the induction is on the rounds, and back on the declarations. -/
theorem parseInternalSubset_eq_ok_iff : p.parseInternalSubset.run s = (.ok (), t) ↔
    ∃ items before, (∀ item ∈ items, Spaces item.1 ∧ item.2.Readable) ∧ Spaces before ∧
      enterDeclarations p.options items s.dtd = some t.dtd ∧ Spans s t (renderDeclarations items ++ before) t.dtd ∧
      peek t.rest = 0x5D := by
  have shrinks := shrinks_of_advances p.internalSubsetRound_strict
  unfold parseInternalSubset
  constructor
  · generalize () = current
    intro ran
    induction current, s using loop_induction shrinks with
    | round current s ih =>
        rw [run_loop shrinks] at ran
        cases round : (p.internalSubsetRound current).run s with
        | mk outcome next =>
            rw [round] at ran
            cases outcome with
            | error halt => cases ran
            | ok step =>
                obtain ⟨space, u, spaces, spans, ⟨rfl, bracket, rfl⟩ | ⟨rfl, declaration, tabulates⟩⟩ :=
                  internalSubsetRound_eq_ok_iff.mp round
                · cases ran
                  refine ⟨[], space, List.forall_mem_nil _, spaces, ?_, ?_, bracket⟩
                  · exact congrArg some spans.tables.symm
                  · rw [spans.tables]
                    exact spans
                · obtain ⟨items, before, readable, befores, tables, behind, bracket⟩ := ih () next round ran
                  refine ⟨(space, declaration) :: items, before,
                    List.forall_mem_cons.mpr ⟨⟨spaces, tabulates.readable⟩, readable⟩, befores, ?_, ?_, bracket⟩
                  · have entered := tabulates.tables
                    rw [spans.tables] at entered
                    exact Option.bind_eq_some_iff.mpr ⟨next.dtd, entered, tables⟩
                  · have whole := spans.trans (tabulates.spans.trans behind)
                    simpa [renderDeclarations] using whole
  · rintro ⟨items, before, readable, spaces, tables, spans, bracket⟩
    induction items generalizing s with
    | nil =>
        have same : s.dtd = t.dtd := Option.some.inj tables
        refine run_loop_of_done shrinks (internalSubsetRound_eq_ok_iff.mpr ⟨before, t, spaces, ?_, ?_⟩)
        · rw [same]
          exact spans
        · exact .inl ⟨rfl, bracket, rfl⟩
    | cons item items ih =>
        obtain ⟨dtd, entered, behind⟩ := Option.bind_eq_some_iff.mp tables
        obtain ⟨⟨spaced, isReadable⟩, readable⟩ := List.forall_mem_cons.mp readable
        have written : renderDeclarations (item :: items) ++ before =
            item.1 ++ (item.2.render ++ (renderDeclarations items ++ before)) := by
          simp [renderDeclarations]
        rw [written] at spans
        obtain ⟨u, spans1, spans2⟩ := spans.split s.dtd
        obtain ⟨v, spans3, spans4⟩ := spans2.split dtd
        have tabulates : p.Tabulates item.2 u v := by
          refine ⟨isReadable, ?_, ?_⟩
          · rw [spans1.tables, spans3.tables]
            exact entered
          · rw [spans3.tables]
            exact spans3
        have round : (p.internalSubsetRound ()).run s = (.ok (.next ()), v) :=
          internalSubsetRound_eq_ok_iff.mpr ⟨item.1, u, spaced, spans1, .inr ⟨rfl, item.2, tabulates⟩⟩
        rw [run_loop_of_next shrinks round]
        refine ih readable ?_ spans4
        rw [spans3.tables]
        exact behind

/-- The internal subset, if there is one, and the close of the declaration. -/
theorem bracketed_eq_ok_iff {description : String} {rest : ParserM Unit} :
    (p.parseBracketedSubset >>= fun _ => scan (p.expect 0x3E description) >>= fun _ => rest).run s = (.ok (), t) ↔
      ∃ subset u, (∀ internal ∈ subset, InternalSubset.Readable internal) ∧
        enterDeclarations p.options ((subset.map InternalSubset.declarations).getD []) s.dtd = some u.dtd ∧
        Spans s u (renderSubset subset ++ [0x3E]) u.dtd ∧ rest.run u = (.ok (), t) := by
  constructor
  · intro ran
    obtain ⟨_, v, bracketed, ran1⟩ := bind_eq_ok.mp ran
    obtain ⟨_, u, closed, ran2⟩ := bind_eq_ok.mp ran1
    have closing := scan_expect_eq_ok_iff.mp closed
    unfold parseBracketedSubset at bracketed
    rw [run_look_bind] at bracketed
    cases bracket : peek s.rest == 0x5B with
    | false =>
        rw [bracket, if_neg Bool.false_ne_true] at bracketed
        cases bracketed
        exact ⟨none, u, by simp, congrArg some closing.tables.symm, closing.tables ▸ closing, ran2⟩
    | true =>
        rw [bracket, if_pos rfl] at bracketed
        obtain ⟨_, s1, advanced, ran3⟩ := bind_eq_ok.mp bracketed
        obtain ⟨_, s2, parsed, ran4⟩ := bind_eq_ok.mp ran3
        obtain ⟨_, s3, bracketClosed, skipped⟩ := bind_eq_ok.mp ran4
        have opening := (scan_advance_eq_ok_iff (beq_iff_eq.mp bracket)).mp advanced
        obtain ⟨items, before, readable, befores, tables, inside, _⟩ := parseInternalSubset_eq_ok_iff.mp parsed
        have ending := scan_expect_eq_ok_iff.mp bracketClosed
        obtain ⟨after, ⟨afters, _⟩, behind⟩ := scan_skipWhitespace_eq_ok_iff.mp skipped
        rw [ending.tables] at behind
        rw [behind.tables] at closing
        rw [opening.tables] at tables
        refine ⟨some ⟨items, before, after⟩, u, ?_, ?_, ?_, ran2⟩
        · intro internal isInternal
          cases isInternal
          exact ⟨readable, befores, afters⟩
        · rw [closing.tables]
          exact tables
        · rw [closing.tables]
          have whole := opening.trans (inside.trans (ending.trans (behind.trans closing)))
          simpa [renderSubset, InternalSubset.render] using whole
  · rintro ⟨subset, u, readable, tables, spans, ran⟩
    obtain ⟨v, spans1, spans2⟩ := spans.split u.dtd
    have closed : (scan (p.expect 0x3E description)).run v = (.ok (), u) := by
      rw [scan_expect_eq_ok_iff, spans1.tables]
      exact spans2
    have bracketed : p.parseBracketedSubset.run s = (.ok (), v) := by
      unfold parseBracketedSubset
      cases subset with
      | none =>
          have bracket : (peek s.rest == 0x5B) = false := by
            rw [spans.peek_eq rfl]
            rfl
          have same : s.dtd = u.dtd := Option.some.inj tables
          rw [run_look_bind, bracket, if_neg Bool.false_ne_true, spans_nil_iff.mp spans1, ← same]
          rfl
      | some internal =>
          have isReadable := readable internal rfl
          have written : renderSubset (some internal) = [0x5B] ++
              ((renderDeclarations internal.declarations ++ internal.before) ++ ([0x5D] ++ internal.after)) := by
            simp [renderSubset, InternalSubset.render]
          rw [written] at spans1
          obtain ⟨s1, opening, spans3⟩ := spans1.split s.dtd
          obtain ⟨s2, inside, spans4⟩ := spans3.split u.dtd
          obtain ⟨s3, ending, behind⟩ := spans4.split u.dtd
          have front : peek s.rest = 0x5B := opening.peek_eq rfl
          have parsed : p.parseInternalSubset.run s1 = (.ok (), s2) := by
            rw [parseInternalSubset_eq_ok_iff, inside.tables, opening.tables]
            exact ⟨internal.declarations, internal.before, isReadable.declarations, isReadable.before, tables, inside,
              ending.peek_eq rfl⟩
          have bracketClosed : (scan (p.expect 0x5D "DOCTYPE internal subset close")).run s2 = (.ok (), s3) := by
            rw [scan_expect_eq_ok_iff, inside.tables]
            exact ending
          rw [run_look_bind, front, if_pos (beq_self_eq_true 0x5B), run_bind_of_ok ((scan_advance_eq_ok_iff front).mpr opening),
            run_bind_of_ok parsed, run_bind_of_ok bracketClosed, scan_skipWhitespace_eq_ok_iff, ending.tables]
          exact ⟨internal.after, ⟨isReadable.after, spans2.stops rfl (by decide)⟩, behind⟩
    rw [run_bind_of_ok bracketed, run_bind_of_ok closed]
    exact ran

/-! ## The external identifier -/

/-- A keyword that has been seen is dropped. -/
theorem scan_drop_eq_ok_iff {word : Text} (starts : startsWith word s.rest = true) :
    (scan (Comp.modify (List.drop word.length))).run s = (.ok (), t) ↔ Spans s t word s.dtd := by
  constructor
  · intro ran
    obtain ⟨rest, dropped, rfl⟩ := run_scan_eq_ok_iff.mp ran
    cases dropped
    obtain ⟨consumed, after, split, rfl⟩ := startsWith_split starts
    have behind : s.rest.drop (values consumed).length = after := by rw [split, values_length, List.drop_left]
    rw [behind]
    exact spans_withRest split
  · intro spans
    obtain ⟨consumed, split, rfl⟩ := spans.rest
    have behind : s.rest.drop (values consumed).length = t.rest := by rw [split, values_length, List.drop_left]
    refine run_scan_eq_ok_iff.mpr ⟨t.rest, ?_, spans.same⟩
    rw [← behind]
    rfl

/-- A literal and the white space behind it, entered as the system identifier. -/
theorem systemId_eq_ok_iff (stops : StopsAt isSpace t.rest) :
    (do
      let systemId ← scan p.parseQuotedLiteral
      modifyDtd fun dtd => { dtd with hasExternalSubset := true, externalSystemId := systemId }
      scan p.skipWhitespace).run s = (.ok (), t) ↔
      ∃ literal after, Quoted.Readable literal ∧ Spaces after ∧ Spans s t (literal.render ++ after)
        { s.dtd with hasExternalSubset := true, externalSystemId := utf8 literal.body } := by
  constructor
  · intro ran
    obtain ⟨_, u, taken, ran1⟩ := bind_eq_ok.mp ran
    obtain ⟨literal, readable, rfl, spans⟩ := scan_parseQuotedLiteral_eq_ok_iff.mp taken
    unfold modifyDtd at ran1
    rw [run_modify_bind, spans.tables] at ran1
    obtain ⟨after, ⟨afters, _⟩, behind⟩ := scan_skipWhitespace_eq_ok_iff.mp ran1
    exact ⟨literal, after, readable, afters, spans.trans (spans_retable_iff.mp behind)⟩
  · rintro ⟨literal, after, readable, afters, spans⟩
    obtain ⟨u, spans1, spans2⟩ := spans.split s.dtd
    have taken : (scan p.parseQuotedLiteral).run s = (.ok (utf8 literal.body), u) :=
      scan_parseQuotedLiteral_eq_ok_iff.mpr ⟨literal, readable, rfl, spans1⟩
    unfold modifyDtd
    rw [run_bind_of_ok taken, run_modify_bind, scan_skipWhitespace_eq_ok_iff, spans1.tables]
    exact ⟨after, ⟨afters, stops⟩, spans_retable_iff.mpr spans2⟩

theorem parseExternalId_eq_ok_iff (front : peek t.rest = 0x5B ∨ peek t.rest = 0x3E) :
    p.parseExternalId.run s = (.ok (), t) ↔
      ∃ externalId : Option (ExternalId × Text), (∀ item ∈ externalId, item.1.Readable ∧ Spaces item.2) ∧
        Spans s t (renderExternalId externalId) (enterExternalId s.dtd externalId) := by
  have stops : StopsAt isSpace t.rest := by
    rcases front with front | front
    · exact stopsAt_of_peek front (by decide)
    · exact stopsAt_of_peek front (by decide)
  unfold parseExternalId
  rw [run_look_bind]
  constructor
  · intro ran
    cases system : startsWith (u32 "SYSTEM") s.rest with
    | true =>
        rw [system, if_pos rfl] at ran
        obtain ⟨_, u, dropped, ran1⟩ := bind_eq_ok.mp ran
        have keyword := (scan_drop_eq_ok_iff system).mp dropped
        obtain ⟨gap, v, gaps, _, spaced, ran2⟩ := spaced_eq_ok_iff.mp ran1
        obtain ⟨literal, after, readable, afters, spans⟩ := (systemId_eq_ok_iff stops).mp ran2
        rw [keyword.tables] at spaced
        rw [spaced.tables] at spans
        refine ⟨some (.systemId gap literal, after), ?_, ?_⟩
        · intro item isItem
          cases isItem
          exact ⟨⟨gaps, readable⟩, afters⟩
        · simpa [renderExternalId, ExternalId.render, enterExternalId, ExternalId.name, u32] using
            keyword.trans (spaced.trans spans)
    | false =>
        rw [system, if_neg Bool.false_ne_true, run_look_bind] at ran
        cases publicId : startsWith (u32 "PUBLIC") s.rest with
        | true =>
            rw [publicId, if_pos rfl] at ran
            obtain ⟨_, u, dropped, ran1⟩ := bind_eq_ok.mp ran
            have keyword := (scan_drop_eq_ok_iff publicId).mp dropped
            obtain ⟨gap, v, gaps, _, spaced, ran2⟩ := spaced_eq_ok_iff.mp ran1
            obtain ⟨_, w, taken, ran3⟩ := bind_eq_ok.mp ran2
            obtain ⟨publicName, readableName, rfl, spansName⟩ := scan_parseQuotedLiteral_eq_ok_iff.mp taken
            obtain ⟨between, x, betweens, _, parted, ran4⟩ := spaced_eq_ok_iff.mp ran3
            obtain ⟨literal, after, readable, afters, spans⟩ := (systemId_eq_ok_iff stops).mp ran4
            rw [keyword.tables] at spaced
            rw [spaced.tables] at spansName
            rw [spansName.tables] at parted
            rw [parted.tables] at spans
            refine ⟨some (.publicId gap publicName between literal, after), ?_, ?_⟩
            · intro item isItem
              cases isItem
              exact ⟨⟨gaps, readableName, betweens, readable⟩, afters⟩
            · have whole := keyword.trans (spaced.trans (spansName.trans (parted.trans spans)))
              simpa [renderExternalId, ExternalId.render, enterExternalId, ExternalId.name, u32] using whole
        | false =>
            rw [publicId, if_neg Bool.false_ne_true] at ran
            cases ran
            exact ⟨none, by simp, spans_nil_iff.mpr rfl⟩
  · rintro ⟨externalId, readable, spans⟩
    cases externalId with
    | none =>
        have same : t = s := (spans_nil_iff.mp spans).trans rfl
        subst same
        have absent : ∀ {first}, first ≠ 0x5B → first ≠ 0x3E → peek t.rest ≠ first := by
          rintro first noBracket noClose rfl
          exact front.elim noBracket noClose
        have system : startsWith (u32 "SYSTEM") t.rest = false := starts_of_peek_ne (absent (by decide) (by decide))
        have publicId : startsWith (u32 "PUBLIC") t.rest = false := starts_of_peek_ne (absent (by decide) (by decide))
        rw [system, if_neg Bool.false_ne_true, run_look_bind, publicId, if_neg Bool.false_ne_true]
        rfl
    | some item =>
        obtain ⟨identifier, after⟩ := item
        obtain ⟨isReadable, afters⟩ := readable _ rfl
        cases identifier with
        | systemId gap name =>
            obtain ⟨gaps, readableName⟩ := isReadable
            have written : renderExternalId (some (.systemId gap name, after)) =
                u32 "SYSTEM" ++ (gap ++ (name.render ++ after)) := by
              simp [renderExternalId, ExternalId.render, u32]
            have system : startsWith (u32 "SYSTEM") s.rest = true := (startsWith_of_spans spans _).trans rfl
            rw [written] at spans
            obtain ⟨u, keyword, spans1⟩ := spans.split s.dtd
            obtain ⟨v, spaced, spans2⟩ := spans1.split s.dtd
            have dropped : (scan (Comp.modify (List.drop 6))).run s = (.ok (), u) :=
              (scan_drop_eq_ok_iff system).mpr keyword
            rw [system, if_pos rfl, run_bind_of_ok dropped, spaced_eq_ok_iff, keyword.tables]
            refine ⟨gap, v, gaps, spans2.stops rfl readableName.not_inside.1, spaced, ?_⟩
            rw [systemId_eq_ok_iff stops, spaced.tables]
            exact ⟨name, after, readableName, afters, spans2⟩
        | publicId gap publicName between name =>
            obtain ⟨gaps, readablePublic, betweens, readableName⟩ := isReadable
            have written : renderExternalId (some (.publicId gap publicName between name, after)) =
                u32 "PUBLIC" ++ (gap ++ (publicName.render ++ (between ++ (name.render ++ after)))) := by
              simp [renderExternalId, ExternalId.render, u32]
            have system : startsWith (u32 "SYSTEM") s.rest = false := (startsWith_of_spans spans _).trans rfl
            have publicId : startsWith (u32 "PUBLIC") s.rest = true := (startsWith_of_spans spans _).trans rfl
            rw [written] at spans
            obtain ⟨u, keyword, spans1⟩ := spans.split s.dtd
            obtain ⟨v, spaced, spans2⟩ := spans1.split s.dtd
            obtain ⟨w, spansPublic, spans3⟩ := spans2.split s.dtd
            obtain ⟨x, parted, spans4⟩ := spans3.split s.dtd
            have taken : (scan p.parseQuotedLiteral).run v = (.ok (utf8 publicName.body), w) := by
              rw [scan_parseQuotedLiteral_eq_ok_iff, spaced.tables]
              exact ⟨publicName, readablePublic, rfl, spansPublic⟩
            have dropped : (scan (Comp.modify (List.drop 6))).run s = (.ok (), u) :=
              (scan_drop_eq_ok_iff publicId).mpr keyword
            rw [system, if_neg Bool.false_ne_true, run_look_bind, publicId, if_pos rfl, run_bind_of_ok dropped,
              spaced_eq_ok_iff, keyword.tables]
            refine ⟨gap, v, gaps, spansPublic.stops rfl readablePublic.not_inside.1, spaced, ?_⟩
            rw [run_bind_of_ok taken, spaced_eq_ok_iff, spansPublic.tables]
            refine ⟨between, x, betweens, spans4.stops rfl readableName.not_inside.1, parted, ?_⟩
            rw [systemId_eq_ok_iff stops, parted.tables]
            exact ⟨name, after, readableName, afters, spans4⟩

/-! ## The whole declaration -/

theorem front_of_subset {subset : Option InternalSubset} {dtd : DtdState}
    (spans : Spans s t (renderSubset subset ++ [0x3E]) dtd) : peek s.rest = 0x5B ∨ peek s.rest = 0x3E := by
  cases subset with
  | none => exact .inr (spans.peek_eq rfl)
  | some internal => exact .inl (spans.peek_eq rfl)

theorem stops_of_identifier {externalId : Option (ExternalId × Text)} {dtd : DtdState}
    (spans : Spans s t (renderExternalId externalId) dtd) (front : peek t.rest = 0x5B ∨ peek t.rest = 0x3E) :
    StopsAt isSpace s.rest ∧ (externalId = none → StopsAt isNameChar s.rest) := by
  cases externalId with
  | none =>
      rw [spans_nil_iff.mp spans] at front
      rcases front with front | front
      · exact ⟨stopsAt_of_peek front (by decide), fun _ => stopsAt_of_peek front (by decide)⟩
      · exact ⟨stopsAt_of_peek front (by decide), fun _ => stopsAt_of_peek front (by decide)⟩
  | some item =>
      obtain ⟨identifier, after⟩ := item
      cases identifier with
      | systemId gap name => exact ⟨spans.stops rfl (by decide), by simp⟩
      | publicId gap publicName between name => exact ⟨spans.stops rfl (by decide), by simp⟩

/-- The parser takes a document type declaration exactly if it is spelled by the grammar and its
tables can be entered; then these are the tables, in front of the external subset. -/
theorem parseDoctypeIfPresent_eq_ok_iff : p.parseDoctypeIfPresent.run s = (.ok (), t) ↔
    (startsWith (u32 "<!DOCTYPE") s.rest = false ∧ t = s) ∨
      ∃ doctype u, Doctype.Readable doctype ∧ doctype.declare p.options s.dtd = some u.dtd ∧
        Spans s u doctype.render u.dtd ∧ p.resolveExternalSubsetIfNeeded.run u = (.ok (), t) := by
  unfold parseDoctypeIfPresent
  rw [run_look_bind]
  cases present : startsWith (u32 "<!DOCTYPE") s.rest with
  | false =>
      rw [Bool.not_false, if_pos rfl]
      constructor
      · intro ran
        cases ran
        exact .inl ⟨rfl, rfl⟩
      · rintro (⟨_, rfl⟩ | ⟨doctype, u, _, _, spans, _⟩)
        · rfl
        · exact absurd (present.symm.trans ((startsWith_of_spans spans _).trans rfl)) Bool.false_ne_true
  | true =>
      rw [Bool.not_true, if_neg Bool.false_ne_true, modifyDtd, run_modify_bind, named_eq_ok_iff fun _ => Iff.rfl]
      constructor
      · rintro ⟨space, root, u, ⟨apart, spaces⟩, ⟨named, short⟩, ends, spans, ran⟩
        rw [modifyDtd, run_modify_bind, spans.tables] at ran
        obtain ⟨gap, v, gaps, _, spansGap, ran1⟩ := spaced_eq_ok_iff.mp ran
        obtain ⟨_, w, identified, ran2⟩ := bind_eq_ok.mp ran1
        obtain ⟨subset, x, readableSubset, tables, spansSubset, ran3⟩ := bracketed_eq_ok_iff.mp ran2
        obtain ⟨externalId, readableId, spansId⟩ := (parseExternalId_eq_ok_iff (front_of_subset spansSubset)).mp identified
        replace spansGap := spans_retable_iff.mp spansGap
        rw [spansGap.tables] at spansId
        rw [spansId.tables] at tables
        have joined : gap = [] → externalId = none := by
          rintro rfl
          have heads := ((spansGap.trans spansId).stops_iff.mp ends).1
          cases externalId with
          | none => rfl
          | some item =>
              obtain ⟨identifier, after⟩ := item
              cases identifier with
              | systemId gap name => exact absurd (heads 0x53 rfl) (by decide)
              | publicId gap publicName between name => exact absurd (heads 0x50 rfl) (by decide)
        refine .inr ⟨⟨space, root, gap, externalId, subset⟩, x,
          ⟨apart, spaces, named, gaps, joined, readableId, readableSubset⟩, (if_pos short).trans tables, ?_, ran3⟩
        have whole := spans_retable_iff.mp (spans.trans (spansGap.trans (spansId.trans spansSubset)))
        simpa [Doctype.render, u32] using whole
      · rintro (⟨absent, _⟩ | ⟨doctype, x, readable, declared, spans, ran⟩)
        · cases absent
        have short : doctype.root.length ≤ p.options.maxTokenBytes := by
          by_contra long
          exact absurd ((if_neg long).symm.trans declared) (by simp)
        have tables := (if_pos short).symm.trans declared
        let opened : DtdState := { s.dtd with hasDoctype := true }
        let rooted : DtdState := { opened with rootName := utf8 doctype.root }
        have written : doctype.render = (u32 "<!DOCTYPE" ++ (doctype.space ++ doctype.root)) ++ (doctype.gap ++
            (renderExternalId doctype.externalId ++ (renderSubset doctype.subset ++ [0x3E]))) := by
          simp [Doctype.render, u32]
        rw [written] at spans
        obtain ⟨u, spans1, spans2⟩ := spans.split opened
        obtain ⟨v, spans3, spans4⟩ := spans2.split rooted
        obtain ⟨w, spans5, spans6⟩ := spans4.split (enterExternalId rooted doctype.externalId)
        have front := front_of_subset spans6
        obtain ⟨stops, unnamed⟩ := stops_of_identifier spans5 front
        have ends : StopsAt isNameChar u.rest := spans3.stops_iff.mpr
          ⟨fun c isFirst => isNameChar_of_isSpace (readable.gap c (List.mem_of_mem_head? isFirst)),
            fun empty => unnamed (readable.joined empty)⟩
        have identified : p.parseExternalId.run v = (.ok (), w) := by
          rw [parseExternalId_eq_ok_iff front, spans3.tables]
          exact ⟨doctype.externalId, readable.externalId, spans5⟩
        refine ⟨doctype.space, doctype.root, u, ⟨readable.apart, readable.space⟩, ⟨readable.root, short⟩, ends,
          spans_retable_iff.mpr spans1, ?_⟩
        rw [modifyDtd, run_modify_bind, spaced_eq_ok_iff, spans1.tables]
        refine ⟨doctype.gap, v, readable.gap, stops, spans_retable_iff.mpr spans3, ?_⟩
        rw [run_bind_of_ok identified, bracketed_eq_ok_iff, spans5.tables]
        exact ⟨doctype.subset, x, readable.subset, tables, spans6, ran⟩

end Parser

end XmlParser
