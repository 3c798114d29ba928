import XmlParser.DoctypeTables
import XmlParser.EntityExpansion
import XmlParser.LooserLimits
import XmlParser.ReferenceCounts
import XmlParser.XmlDeclaration

/-! Whole documents, with an XML declaration and a document type declaration: what is
accepted has been derived from the grammar, under the entities that it declares. -/

set_option autoImplicit false

namespace XmlParser

open XmlParser.Computation Comp Grammar

/-! ## What references denote -/

namespace Parser

variable {p : Parser} {entities : List (Bytes × Bytes)}

/-- The dialect of a table of entities: a reference denotes a character, or the expansion of
the replacement text that is declared for it. -/
def declaredDialect (p : Parser) (entities : List (Bytes × Bytes)) : Dialect where
  literal c := isValidXmlChar c p.options.version = true
  denotes name value :=
    Legal p.options.version value ∧ ∃ calls, p.Denotes entities (toAscii name) (utf8 value) calls

/-- With more expansions allowed the parser of the same document. -/
def expanding (p : Parser) (count : Nat) : Parser :=
  { p with options := { p.options with maxEntityExpansions := count } }

/-- A limit that has not been met plays no part. -/
theorem resolveReference_expanding {count : Nat} {name value : Bytes} {start : SourceLocation} {before after : Nat}
    (le : p.options.maxEntityExpansions ≤ count)
    (resolved : (p.resolveReference entities name start).run before = (.ok value, after)) :
    ((p.expanding count).resolveReference entities name start).run before = (.ok value, after) := by
  have tighter : Tighter p.options (p.expanding count).options :=
    ⟨rfl, rfl, rfl, rfl, rfl, rfl, Nat.le_refl _, Nat.le_refl _, Nat.le_refl _, Nat.le_refl _, le, Nat.le_refl _,
      Nat.le_refl _, Nat.le_refl _, Nat.le_refl _⟩
  have alike := tighter.alike p.handler p.endLocation
  have ends := (alike.resolveReference entities name (rfl : start = start)).ends before before rfl
  rw [resolved] at ends
  generalize loose : Comp.run _ before = ran at ends
  cases ends with
  | returned values states =>
      rw [values, states] at loose
      exact loose
  | parted parts => exact parts.elim

theorem denotes_of_resolveReference {name value : Bytes} {start : SourceLocation} {before after : Nat}
    (resolved : (p.resolveReference entities name start).run before = (.ok value, after)) :
    ∃ calls, p.Denotes entities name value calls := by
  let q := p.expanding (max p.options.maxEntityExpansions before)
  have ran := resolveReference_expanding (Nat.le_max_left p.options.maxEntityExpansions before) resolved
  have room : before ≤ q.options.maxEntityExpansions := Nat.le_max_right _ _
  obtain ⟨calls, denotes, _⟩ := counts_of_resolveReference room ran
  exact ⟨calls, denotes⟩

theorem dialect_within_declared (p : Parser) (entities : List (Bytes × Bytes)) :
    (p.dialect entities).Within (p.declaredDialect entities) := by
  refine ⟨fun _ literal => literal, fun name value denotes => ?_⟩
  obtain ⟨legal, _, _, _, resolved⟩ := denotes
  exact ⟨legal, denotes_of_resolveReference resolved⟩

end Parser

/-! ## What a whole document means -/

/-- There is none, or it has the words that are searched for. -/
def PassedDeclaration (options : ParserOptions) (declaration : Text) : Prop :=
  declaration = [] ∨ ∃ c body, declaration = u32 "<?xml" ++ (c :: body ++ u32 "?>") ∧ IsSpace c ∧
    ¬ u32 "?>" <:+: c :: body ∧ (utf8 (c :: body)).length ≤ options.maxTokenBytes ∧
    HoldsWords options.version (utf8 (c :: body))

/-- The tables behind the prologue. -/
def DoctypeTables (options : ParserOptions) : Option Doctype → DtdState → Prop
  | none, dtd => dtd = {}
  | some doctype, dtd => doctype.Tables options {} dtd

structure Grammar.WholeDocument.Readable (options : ParserOptions) (d : Dialect) (whole : WholeDocument) : Prop where
  declaration : PassedDeclaration options whole.declaration
  before : ∀ misc ∈ whole.before, misc.Readable d
  doctype : ∀ doctype ∈ whole.doctype, doctype.Readable
  document : whole.document.Readable d
  named : whole.document.Named options.namespaces

/-- Neither declaration has events of its own. -/
def Grammar.WholeDocument.events (mode : NamespaceMode) (whole : WholeDocument) : List Event :=
  { whole.document with prolog := whole.before ++ whole.document.prolog }.events mode

namespace Parser

variable {p : Parser} {s t : ParserState}

theorem parseXmlDeclarationIfPresent_spans (ran : (scan p.parseXmlDeclarationIfPresent).run s = (.ok (), t)) :
    ∃ declaration, PassedDeclaration p.options declaration ∧ Spans s t declaration s.dtd := by
  obtain ⟨rest, taken, rfl⟩ := run_scan_eq_ok_iff.mp ran
  unfold parseXmlDeclarationIfPresent at taken
  rw [run_read_bind, run_read_bind] at taken
  split at taken
  · cases taken
    exact ⟨[], .inl rfl, spans_nil_iff.mpr rfl⟩
  rw [run_read_bind] at taken
  obtain ⟨_, after, opened, taken1⟩ := bind_eq_ok.mp taken
  obtain ⟨opening, isOpening, split⟩ := p.expectSequence_eq_ok_iff.mp opened
  rw [run_read_bind] at taken1
  split at taken1
  · cases taken1
  rename_i spaced
  obtain ⟨text, _, scanned, taken2⟩ := bind_eq_ok.mp taken1
  obtain ⟨_, final, closed, judged⟩ := bind_eq_ok.mp taken2
  obtain ⟨closing, isClosing, rfl⟩ := p.expectSequence_eq_ok_iff.mp closed
  have stopped : u32 "?>" <+: values (closing ++ final) := by simp [isClosing]
  obtain ⟨body, rfl, avoids, rfl, fits⟩ := (whileNotAt_appendPeek_eq_ok_iff p stopped).mp scanned
  rw [values_append, isClosing] at avoids
  have first := (avoids_pair_iff (by decide) _ _).mp avoids
  dsimp only at judged
  split at judged
  · cases judged
  rename_i words
  split at judged
  · cases judged
  rename_i versions
  cases judged
  have split' : s.rest = (opening ++ (body ++ closing)) ++ rest := by simp [split]
  have spans := spans_withRest split'
  rw [values_append, values_append, isOpening, isClosing] at spans
  cases body with
  | nil =>
      obtain ⟨question, others, rfl, isQuestion, _⟩ := List.map_eq_cons_iff.mp isClosing
      have sign : peek ([] ++ (question :: others ++ rest)) = 0x3F := isQuestion
      rw [sign] at spaced
      exact absurd rfl spaced
  | cons c body =>
      have isSpaced : IsSpace c.value := isSpace_iff.mp (by simpa using spaced)
      exact ⟨_, .inr ⟨c.value, values body, rfl, isSpaced, first, fits, holdsWords_iff.mpr ⟨words, versions⟩⟩, spans⟩

end Parser

/-! ## The prologue -/

/-- The parser has read a text and delivered events, whatever it has entered into its tables. -/
structure Recites (s t : ParserState) (text : Text) (events : List Event) : Prop where
  rest : ∃ consumed, s.rest = consumed ++ t.rest ∧ values consumed = text
  namespaceScopes : t.namespaceScopes = s.namespaceScopes
  events : t.events.map Event.withoutLocations = s.events.map Event.withoutLocations ++ events

section Recites

variable {r s t : ParserState} {left right : Text} {before after : List Event}

theorem Recites.trans (first : Recites r s left before) (second : Recites s t right after) :
    Recites r t (left ++ right) (before ++ after) := by
  obtain ⟨front, splitFront, rfl⟩ := first.rest
  obtain ⟨behind, splitBehind, rfl⟩ := second.rest
  refine ⟨⟨front ++ behind, ?_, values_append _ _⟩, second.namespaceScopes.trans first.namespaceScopes, ?_⟩
  · rw [splitFront, splitBehind, List.append_assoc]
  · rw [second.events, first.events, List.append_assoc]

theorem Reads.recites (reads : Reads s t left before) : Recites s t left before :=
  ⟨reads.rest, reads.namespaceScopes, reads.events⟩

theorem Spans.recites {dtd : DtdState} (spans : Spans s t left dtd) : Recites s t left [] := by
  refine ⟨spans.rest, ?_, ?_⟩
  · rw [spans.same]
  · rw [spans.same]
    simp [ParserState.events]

end Recites

namespace Parser

variable {p : Parser} {s t : ParserState}

theorem parseDoctypeIfPresent_recites (ran : p.parseDoctypeIfPresent.run s = (.ok (), t)) (fresh : s.dtd = {}) :
    ∃ doctype : Option Doctype, (∀ present ∈ doctype, present.Readable) ∧
      DoctypeTables p.options doctype t.dtd ∧ Recites s t ((doctype.map Doctype.render).getD []) [] := by
  rcases parseDoctypeIfPresent_spans ran with ⟨absent, rfl⟩ | ⟨doctype, readable, tables, spans⟩
  · have nothing : Spans t t [] t.dtd := spans_nil_iff.mpr rfl
    exact ⟨none, by simp, fresh, nothing.recites⟩
  · refine ⟨some doctype, by simpa using readable, ?_, spans.recites⟩
    rw [fresh] at tables
    exact tables

/-- The prologue has been spelled by both declarations and the items around them. -/
theorem parseProlog_recites {chars : List DecodedChar} (legal : Legal p.options.version (values chars))
    (returned : p.parseProlog.run { rest := chars } = (.ok (), s)) :
    ∃ declaration before doctype after, Sound p.options.version s ∧ PassedDeclaration p.options declaration ∧
      (∀ misc ∈ before ++ after, misc.Readable (p.dialect s.dtd.entities)) ∧
      (∀ present ∈ doctype, present.Readable) ∧ DoctypeTables p.options doctype s.dtd ∧
      Recites { rest := chars } s
        (declaration ++ (renderMiscs before ++ ((doctype.map Doctype.render).getD [] ++ renderMiscs after)))
        (.startDocument :: miscEvents (before ++ after)) := by
  unfold parseProlog at returned
  obtain ⟨_, s1, started, rest1⟩ := bind_eq_ok.mp returned
  obtain ⟨rfl, _⟩ := p.emit_eq_ok_iff.mp started
  have sound1 : Sound p.options.version (ParserState.deliver .startDocument { rest := chars }) :=
    ⟨legal, List.forall_mem_nil _⟩
  obtain ⟨_, s2, declared, rest2⟩ := bind_eq_ok.mp rest1
  obtain ⟨declaration, passed, spans2⟩ := parseXmlDeclarationIfPresent_spans declared
  have sound2 := ((p.quietly_scan p.scans_parseXmlDeclarationIfPresent).of_run declared).sound sound1
  obtain ⟨_, s3, skipped3, rest3⟩ := bind_eq_ok.mp rest2
  obtain ⟨⟨before, readable3, reads3⟩, _⟩ := p.skipMisc_reads sound2 skipped3
  have sound3 := reads3.sound sound2
  obtain ⟨_, s4, doctypeRan, skipped5⟩ := bind_eq_ok.mp rest3
  obtain ⟨doctype, readableDoctype, tables, recites4⟩ :=
    parseDoctypeIfPresent_recites doctypeRan (reads3.dtd.trans spans2.tables)
  have sound4 := (p.quietly_parseDoctypeIfPresent.of_run doctypeRan).sound sound3
  obtain ⟨⟨after, readable5, reads5⟩, _⟩ := p.skipMisc_reads sound4 skipped5
  have literal : ∀ entities c, (p.dialect entities).literal c → (p.dialect s.dtd.entities).literal c :=
    fun _ _ literal => literal
  have readable : ∀ misc ∈ before ++ after, misc.Readable (p.dialect s.dtd.entities) := by
    intro misc member
    cases List.mem_append.mp member with
    | inl left => exact (readable3 misc left).of_literal (literal _)
    | inr right => exact (readable5 misc right).of_literal (literal _)
  refine ⟨declaration, before, doctype, after, reads5.sound sound4, passed, readable, readableDoctype, ?_, ?_⟩
  · rw [reads5.dtd]
    exact tables
  · have started := (reads_deliver { rest := chars } .startDocument).recites
    have recites := (((started.trans spans2.recites).trans reads3.recites).trans recites4).trans reads5.recites
    rw [miscEvents_append]
    simpa [Event.withoutLocations] using recites

end Parser

/-! ## Derivations -/

/-- A document that is accepted has been derived from the grammar: its declarations stand for
the tables of the parser, references denote what these say, and the events are those of the
derivation. -/
theorem accepted_derived {xml : Bytes} {handler : SaxHandler} {options : ParserOptions} {s : ParserState}
    (accepted : parseXmlDocument xml handler options = (.ok (), s)) :
    ∃ decoded, ∃ whole : WholeDocument, decodeDocument xml options = .ok decoded ∧ whole.render = values decoded.chars ∧
      whole.Readable options ((Parser.mk handler options decoded.endLocation).declaredDialect s.dtd.entities) ∧
      DoctypeTables options whole.doctype s.dtd ∧
      s.events.map Event.withoutLocations = whole.events options.namespaces := by
  cases decodes : decodeDocument xml options with
  | error error =>
      rw [parseXmlDocument_of_error decodes] at accepted
      cases accepted
  | ok decoded =>
      rw [parseXmlDocument_of_ok decodes, Parser.parse_eq_prolog] at accepted
      obtain ⟨_, u, prolog, rest⟩ := bind_eq_ok.mp accepted
      obtain ⟨declaration, before, doctype, after, sound, passed, readable, readableDoctype, tables, recites⟩ :=
        Parser.parseProlog_recites (decodeDocument_legal decodes) prolog
      rw [run_look_bind] at rest
      obtain ⟨tag, body, epilog, readableElement, readableEpilog, named, reads, ended⟩ :=
        Parser.parseRest_reads _ sound recites.namespaceScopes rest
      obtain ⟨readableBefore, readableAfter⟩ := List.forall_mem_append.mp readable
      have spelled := recites.trans reads.recites
      have within := Parser.dialect_within_declared ⟨handler, options, decoded.endLocation⟩ s.dtd.entities
      rw [← reads.dtd] at readableBefore readableAfter readableElement readableEpilog tables
      refine ⟨decoded, ⟨declaration, before, doctype, ⟨after, tag, body, epilog⟩⟩, rfl, ?_,
        ⟨passed, fun misc member => (readableBefore misc member).mono within, readableDoctype,
          ⟨fun misc member => (readableAfter misc member).mono within, readableElement.mono within,
            fun misc member => (readableEpilog misc member).mono within⟩, named⟩, tables, ?_⟩
      · obtain ⟨consumed, split, isText⟩ := spelled.rest
        rw [ended, List.append_nil] at split
        have same : decoded.chars = consumed := split
        rw [same, isText]
        simp [WholeDocument.render, Document.render]
      · rw [spelled.events]
        simp [WholeDocument.events, Document.events, ParserState.events, miscEvents_append]

/-- Both declarations, with the content models of two elements and an entity that the
document element refers to. -/
def declaringDocument : Bytes :=
  ascii "<?xml version='1.0'?><!DOCTYPE a [<!ELEMENT a ( c? )><!ELEMENT c EMPTY><!ENTITY e 'x&lt;'>]><a b='&e;'><c/></a>"

def declaredDtd : DtdState where
  hasDoctype := true
  rootName := ascii "a"
  elements := [(ascii "a", ⟨.children, [ascii "c"]⟩), (ascii "c", ⟨.empty, []⟩)]
  entities := [(ascii "e", ascii "x&lt;")]
  declarationCount := 3

theorem accepted_derived_sample :
    ∃ decoded, ∃ whole : WholeDocument, decodeDocument declaringDocument { validation := .dtd } = .ok decoded ∧
      whole.render = values decoded.chars ∧
      whole.Readable { validation := .dtd } ((Parser.mk .recording { validation := .dtd } decoded.endLocation).declaredDialect
        declaredDtd.entities) ∧
      DoctypeTables { validation := .dtd } whole.doctype declaredDtd ∧
      whole.events .enabled =
        [.startDocument, .startElement ⟨[], ascii "a", ascii "a"⟩ [⟨⟨[], ascii "b", ascii "b"⟩, ascii "x<", {}⟩],
          .startElement ⟨[], ascii "c", ascii "c"⟩ [], .endElement ⟨[], ascii "c", ascii "c"⟩,
          .endElement ⟨[], ascii "a", ascii "a"⟩, .endDocument] := by
  let options : ParserOptions := { validation := .dtd }
  have accepted : (parseXmlDocument declaringDocument .recording options).1 = .ok () := by decide +kernel
  have declared : (parseXmlDocument declaringDocument .recording options).2.dtd = declaredDtd := by decide +kernel
  have delivered : (parseXmlDocument declaringDocument .recording options).2.events.map Event.withoutLocations =
      [.startDocument, .startElement ⟨[], ascii "a", ascii "a"⟩ [⟨⟨[], ascii "b", ascii "b"⟩, ascii "x<", {}⟩],
        .startElement ⟨[], ascii "c", ascii "c"⟩ [], .endElement ⟨[], ascii "c", ascii "c"⟩,
        .endElement ⟨[], ascii "a", ascii "a"⟩, .endDocument] := by decide +kernel
  have returned : ∀ {ran : Except Halt Unit × ParserState}, ran.1 = .ok () → ran = (.ok (), ran.2) :=
    fun ended => Prod.ext ended rfl
  obtain ⟨decoded, whole, decodes, spelled, readable, tables, events⟩ := accepted_derived (returned accepted)
  rw [declared] at readable tables
  rw [delivered] at events
  exact ⟨decoded, whole, decodes, spelled, readable, tables, events.symm⟩

end XmlParser
