import XmlParser.Accepting
import XmlParser.Library.DoctypeGrammar

/-! What has been read between two states, and what the scanning members take of a text. -/

set_option autoImplicit false

namespace XmlParser

open XmlParser.Computation Comp Grammar

/-! ## What is read between two states -/

/-- The parser has read the text, and its tables have become these. -/
structure Spans (s t : ParserState) (text : Text) (dtd : DtdState) : Prop where
  rest : ∃ consumed, s.rest = consumed ++ t.rest ∧ values consumed = text
  same : t = { s with rest := t.rest, dtd }

section Spans

variable {s t : ParserState} {text left right : Text} {dtd between : DtdState}

theorem Spans.tables (spans : Spans s t text dtd) : t.dtd = dtd := by rw [spans.same]

theorem Spans.values_rest (spans : Spans s t text dtd) : values s.rest = text ++ values t.rest := by
  obtain ⟨consumed, split, rfl⟩ := spans.rest
  rw [split, values_append]

theorem Spans.trans {u : ParserState} (first : Spans s u left between) (second : Spans u t right dtd) :
    Spans s t (left ++ right) dtd := by
  obtain ⟨front, splitFront, rfl⟩ := first.rest
  obtain ⟨behind, splitBehind, rfl⟩ := second.rest
  refine ⟨⟨front ++ behind, by rw [splitFront, splitBehind, List.append_assoc], values_append _ _⟩, ?_⟩
  rw [second.same, first.same]

/-- What has been read in two parts has a state between them, whatever tables are put into it. -/
theorem Spans.split (between : DtdState) (spans : Spans s t (left ++ right) dtd) :
    ∃ u, Spans s u left between ∧ Spans u t right dtd := by
  obtain ⟨consumed, split, whole⟩ := spans.rest
  obtain ⟨front, behind, rfl, isLeft, isRight⟩ := values_eq_append whole
  refine ⟨{ s with rest := behind ++ t.rest, dtd := between }, ⟨⟨front, ?_, isLeft⟩, rfl⟩,
    ⟨behind, rfl, isRight⟩, spans.same⟩
  rw [split, List.append_assoc]

theorem spans_nil_iff : Spans s t [] dtd ↔ t = { s with dtd } := by
  constructor
  · intro spans
    obtain ⟨consumed, split, whole⟩ := spans.rest
    have nothing : consumed = [] := List.map_eq_nil_iff.mp whole
    rw [nothing, List.nil_append] at split
    rw [spans.same, ← split]
  · rintro rfl
    exact ⟨⟨[], rfl, rfl⟩, rfl⟩

theorem spans_withRest {consumed rest : List DecodedChar} (split : s.rest = consumed ++ rest) :
    Spans s (s.withRest rest) (values consumed) s.dtd := ⟨⟨consumed, split, rfl⟩, rfl⟩

/-- The tables in front of a text play no part in reading it. -/
theorem spans_retable_iff {other : DtdState} : Spans { s with dtd := other } t text dtd ↔ Spans s t text dtd :=
  ⟨fun spans => ⟨spans.rest, spans.same⟩, fun spans => ⟨spans.rest, spans.same⟩⟩

theorem Spans.peek_eq {c : Nat} {others : Text} (spans : Spans s t text dtd)
    (front : text ++ values t.rest = c :: others) : peek s.rest = c := by
  rw [← spans.values_rest] at front
  cases rest : s.rest with
  | nil =>
      rw [rest] at front
      cases front
  | cons d after =>
      rw [rest] at front
      exact (List.cons.inj front).1

theorem Spans.stops {condition : Nat → Bool} {c : Nat} {others : Text} (spans : Spans s t text dtd)
    (front : text ++ values t.rest = c :: others) (ends : condition c = false) : StopsAt condition s.rest := by
  rw [← spans.values_rest] at front
  intro d isFirst
  cases rest : s.rest with
  | nil =>
      rw [rest] at isFirst
      cases isFirst
  | cons e after =>
      rw [rest] at front isFirst
      cases isFirst
      rw [(List.cons.inj front).1]
      exact ends

theorem Spans.stops_iff {condition : Nat → Bool} (spans : Spans s t text dtd) :
    StopsAt condition s.rest ↔
      (∀ c ∈ text.head?, condition c = false) ∧ (text = [] → StopsAt condition t.rest) := by
  cases text with
  | nil =>
      rw [spans_nil_iff.mp spans]
      simp
  | cons c text =>
      constructor
      · intro stops
        refine ⟨fun d isFirst => ?_, fun empty => absurd empty (List.cons_ne_nil _ _)⟩
        cases isFirst
        obtain ⟨consumed, split, whole⟩ := spans.rest
        obtain ⟨first, others, rfl, rfl, _⟩ := List.map_eq_cons_iff.mp whole
        exact stops first (by rw [split]; rfl)
      · exact fun heads => spans.stops rfl (heads.1 c rfl)

theorem Grammar.Quoted.Readable.not_inside {literal : Quoted} (readable : literal.Readable) :
    isSpace literal.quote = false ∧ isNameChar literal.quote = false := by
  rcases readable.quote with quote | quote
  · rw [quote]
    decide
  · rw [quote]
    decide

theorem not_spaced_of_stops {rest : List DecodedChar} (stops : StopsAt isSpace rest) : isSpace (peek rest) = false := by
  cases rest with
  | nil => rfl
  | cons c rest => exact stops c rfl

/-- What a scanner takes. -/
theorem scan_eq_ok_iff {α : Type} {source : Cursor α} (Takes : α → Text → List DecodedChar → Prop)
    (exact : ∀ rest value final, source.run rest = (.ok value, final) ↔
      ∃ consumed, rest = consumed ++ final ∧ Takes value (values consumed) final) {value : α} :
    (scan source).run s = (.ok value, t) ↔ ∃ text, Takes value text t.rest ∧ Spans s t text s.dtd := by
  rw [run_scan_eq_ok_iff]
  constructor
  · rintro ⟨rest, ran, rfl⟩
    obtain ⟨consumed, split, takes⟩ := (exact _ _ _).mp ran
    exact ⟨values consumed, takes, spans_withRest split⟩
  · rintro ⟨text, takes, spans⟩
    obtain ⟨consumed, split, rfl⟩ := spans.rest
    exact ⟨t.rest, (exact _ _ _).mpr ⟨consumed, split, takes⟩, spans.same⟩

end Spans

namespace Parser

variable {p : Parser} {s t : ParserState}

theorem scan_skipWhitespace_eq_ok_iff : (scan p.skipWhitespace).run s = (.ok (), t) ↔
    ∃ space, (Spaces space ∧ StopsAt isSpace t.rest) ∧ Spans s t space s.dtd :=
  scan_eq_ok_iff (fun _ text final => Spaces text ∧ StopsAt isSpace final) fun rest value final => by
    rw [p.skipWhitespace_eq_ok_iff]
    simp only [isSpace_iff]
    rfl

theorem scan_parseName_eq_ok_iff {name : Bytes} : (scan p.parseName).run s = (.ok name, t) ↔
    ∃ text, (Name text ∧ StopsAt isNameChar t.rest ∧ name = utf8 text ∧ text.length ≤ p.options.maxTokenBytes) ∧
      Spans s t text s.dtd :=
  scan_eq_ok_iff (fun name text final =>
    Name text ∧ StopsAt isNameChar final ∧ name = utf8 text ∧ text.length ≤ p.options.maxTokenBytes)
    fun rest value final => by
      rw [p.parseName_eq_ok_iff]
      simp only [values_length]

theorem scan_expect_eq_ok_iff {value : Nat} {description : String} :
    (scan (p.expect value description)).run s = (.ok (), t) ↔ Spans s t [value] s.dtd := by
  refine (scan_eq_ok_iff (fun _ text _ => text = [value]) fun rest _ final => ?_).trans ?_
  · rw [p.expect_eq_ok_iff]
    constructor
    · rintro ⟨c, rfl, rfl⟩
      exact ⟨[c], rfl, rfl⟩
    · rintro ⟨consumed, rfl, whole⟩
      obtain ⟨c, rfl, isValue⟩ := List.map_eq_singleton_iff.mp whole
      exact ⟨c, isValue, rfl⟩
  · simp

theorem scan_advance_eq_ok_iff {value : Nat} (front : peek s.rest = value) :
    (scan p.advance).run s = (.ok (), t) ↔ Spans s t [value] s.dtd := by
  rw [← @scan_expect_eq_ok_iff p s t value "", run_scan_eq_ok_iff, run_scan_eq_ok_iff, run_expect, front,
    if_neg (by simp)]

theorem scan_expectSequence_eq_ok_iff {text : Text} {description : String} :
    (scan (p.expectSequence text description)).run s = (.ok (), t) ↔ Spans s t text s.dtd := by
  refine (scan_eq_ok_iff (fun _ other _ => other = text) fun rest _ final => ?_).trans ?_
  · rw [p.expectSequence_eq_ok_iff]
    simp only [and_comm]
  · simp

theorem scan_parseQuotedLiteral_eq_ok_iff {value : Bytes} :
    (scan p.parseQuotedLiteral).run s = (.ok value, t) ↔
      ∃ literal : Quoted, literal.Readable ∧ value = utf8 literal.body ∧ Spans s t literal.render s.dtd := by
  refine (scan_eq_ok_iff (fun value text _ => ∃ literal : Quoted, literal.Readable ∧ value = utf8 literal.body ∧
    text = literal.render) fun rest _ final => ?_).trans ?_
  · rw [p.parseQuotedLiteral_eq_ok_iff]
    constructor
    · rintro ⟨consumed, quote, body, split, spelled, quoted, absent, rfl⟩
      exact ⟨consumed, split, ⟨quote, body⟩, ⟨quoted, absent⟩, rfl, spelled⟩
    · rintro ⟨consumed, split, ⟨quote, body⟩, readable, rfl, spelled⟩
      exact ⟨consumed, quote, body, split, spelled, readable.quote, readable.closed, rfl⟩
  · constructor
    · rintro ⟨_, ⟨literal, readable, isValue, rfl⟩, spans⟩
      exact ⟨literal, readable, isValue, spans⟩
    · rintro ⟨literal, readable, isValue, spans⟩
      exact ⟨literal.render, ⟨literal, readable, isValue, rfl⟩, spans⟩

theorem scan_scanComment_eq_ok_iff {text : Bytes} : (scan p.scanComment).run s = (.ok text, t) ↔
    ∃ body, (¬ [0x2D, 0x2D] <:+: body ++ [0x2D]) ∧ text = utf8 body ∧ text.length ≤ p.options.maxTokenBytes ∧
      Spans s t (renderComment body) s.dtd := by
  refine (scan_eq_ok_iff (fun text spelled _ => ∃ body, (¬ [0x2D, 0x2D] <:+: body ++ [0x2D]) ∧ text = utf8 body ∧
    text.length ≤ p.options.maxTokenBytes ∧ spelled = renderComment body) fun rest _ final => ?_).trans ?_
  · rw [p.scanComment_eq_ok_iff]
    constructor
    · rintro ⟨consumed, body, split, spelled, hyphens, rfl, short⟩
      exact ⟨consumed, split, body, hyphens, rfl, short, spelled⟩
    · rintro ⟨consumed, split, body, hyphens, rfl, short, spelled⟩
      exact ⟨consumed, body, split, spelled, hyphens, rfl, short⟩
  · constructor
    · rintro ⟨_, ⟨body, hyphens, isText, short, rfl⟩, spans⟩
      exact ⟨body, hyphens, isText, short, spans⟩
    · rintro ⟨body, hyphens, isText, short, spans⟩
      exact ⟨renderComment body, ⟨body, hyphens, isText, short, rfl⟩, spans⟩

/-- What an element declaration takes as its content model. -/
theorem scan_model_eq_ok_iff {model : Bytes} :
    (scan (whilePeek (· != 0x3E) p.takePeek [])).run s = (.ok model, t) ↔
      ∃ text, (0x3E ∉ text ∧ StopsAt (· != 0x3E) t.rest ∧ model = utf8 text) ∧ Spans s t text s.dtd := by
  refine scan_eq_ok_iff (fun model text final => 0x3E ∉ text ∧ StopsAt (· != 0x3E) final ∧ model = utf8 text)
    fun rest _ final => ?_
  rw [p.takePeek_buffers.whilePeek_eq_ok_iff]
  refine exists_congr fun consumed => and_congr_right fun _ => ?_
  have unclosed : (∀ value ∈ values consumed, (value != 0x3E) = true) ↔ 0x3E ∉ values consumed := by
    constructor
    · exact fun passed member => absurd (passed _ member) (by decide)
    · exact fun absent value member => bne_iff_ne.mpr fun same => absent (same ▸ member)
  rw [unclosed, foldl_utf8]
  simp [and_assoc]

end Parser

end XmlParser
