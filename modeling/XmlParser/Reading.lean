import XmlParser.Meaning
import XmlParser.ReferencesProperties
import Mathlib.Data.List.Nodup

/-! Acceptance is sound: every member that returns has read the spelling of a
syntax tree and has delivered the events of that tree. -/

set_option autoImplicit false

namespace XmlParser

open XmlParser.Computation Comp Grammar

/-- Between two states the parser has read a text and delivered events, given
without source locations; its stacks are as before. -/
structure Reads (s t : ParserState) (text : Text) (events : List Event) : Prop where
  rest : ∃ consumed, s.rest = consumed ++ t.rest ∧ values consumed = text
  elementStack : t.elementStack = s.elementStack
  elementNameStack : t.elementNameStack = s.elementNameStack
  namespaceScopes : t.namespaceScopes = s.namespaceScopes
  validationDepth : t.validationStack.length = s.validationStack.length
  dtd : t.dtd = s.dtd
  events : t.events.map Event.withoutLocations = s.events.map Event.withoutLocations ++ events

theorem Reads.refl (s : ParserState) : Reads s s [] [] :=
  ⟨⟨[], rfl, rfl⟩, rfl, rfl, rfl, rfl, rfl, (List.append_nil _).symm⟩

theorem Reads.trans {r s t : ParserState} {left right : Text} {before after : List Event}
    (first : Reads r s left before) (second : Reads s t right after) :
    Reads r t (left ++ right) (before ++ after) := by
  obtain ⟨leftChars, splitLeft, rfl⟩ := first.rest
  obtain ⟨rightChars, splitRight, rfl⟩ := second.rest
  refine ⟨⟨leftChars ++ rightChars, ?_, values_append _ _⟩,
    second.elementStack.trans first.elementStack,
    second.elementNameStack.trans first.elementNameStack,
    second.namespaceScopes.trans first.namespaceScopes,
    second.validationDepth.trans first.validationDepth, second.dtd.trans first.dtd, ?_⟩
  · rw [splitLeft, splitRight, List.append_assoc]
  · rw [second.events, first.events, List.append_assoc]

theorem Reads.ahead {s t : ParserState} {text : Text} {events : List Event}
    (reads : Reads s t text events) : Ahead s.rest t.rest := by
  obtain ⟨consumed, split, _⟩ := reads.rest
  exact ⟨consumed, split.symm⟩

theorem Reads.sound {version : XmlVersion} {s t : ParserState} {text : Text} {events : List Event}
    (reads : Reads s t text events) (sound : Sound version s) : Sound version t :=
  sound.ahead reads.ahead (congrArg _ reads.dtd)

theorem Reads.legal {version : XmlVersion} {s t : ParserState} {text : Text} {events : List Event}
    (reads : Reads s t text events) (sound : Sound version s) : Legal version text := by
  obtain ⟨consumed, split, rfl⟩ := reads.rest
  have whole := sound.rest
  rw [split, values_append] at whole
  exact (legal_append.mp whole).1

theorem reads_withRest {s : ParserState} {consumed rest : List DecodedChar}
    (split : s.rest = consumed ++ rest) : Reads s (s.withRest rest) (values consumed) [] :=
  ⟨⟨consumed, split, rfl⟩, rfl, rfl, rfl, rfl, rfl, (List.append_nil _).symm⟩

theorem reads_one {s : ParserState} {c : DecodedChar} {rest : List DecodedChar}
    (split : s.rest = c :: rest) : Reads s (s.withRest rest) [c.value] [] :=
  ⟨⟨[c], split, rfl⟩, rfl, rfl, rfl, rfl, rfl, (List.append_nil _).symm⟩

theorem reads_deliver (s : ParserState) (event : Event) :
    Reads s (s.deliver event) [] [event.withoutLocations] := by
  refine ⟨⟨[], rfl, rfl⟩, rfl, rfl, rfl, rfl, rfl, ?_⟩
  simp [ParserState.deliver, ParserState.events]

theorem run_scan_eq_ok_iff {α : Type} {source : Cursor α} {s t : ParserState} {value : α} :
    (scan source).run s = (.ok value, t) ↔
      ∃ rest, source.run s.rest = (.ok value, rest) ∧ t = s.withRest rest :=
  run_onPart_eq_iff

@[simp] theorem run_look_bind {α β : Type} (view : List DecodedChar → α)
    (continuation : α → ParserM β) (s : ParserState) :
    (look view >>= continuation).run s = (continuation (view s.rest)).run s := rfl

namespace Parser

variable (p : Parser)

/-- The dialect that the parser reads inside a document with these entities. -/
def dialect (entities : List (Bytes × Bytes)) : Dialect where
  literal c := isValidXmlChar c p.options.version = true
  denotes name value := Legal p.options.version value ∧ ∃ start before after,
    (p.resolveReference entities (toAscii name) start).run before = (.ok (utf8 value), after)

theorem emit_eq_ok_iff {event : Event} {s t : ParserState} {result : Unit} :
    (p.emit event).run s = (.ok result, t) ↔
      t = s.deliver event ∧ p.handler.respond (s.deliver event).events = none := by
  unfold emit
  rw [run_modify_bind, run_read_bind]
  cases response : p.handler.respond (s.deliver event).events with
  | none => simp [eq_comm]
  | some exception => simp

/-! ## Comments, CDATA sections and processing instructions -/

theorem scanComment_reads {s t : ParserState} {text : Bytes} (sound : Sound p.options.version s)
    (returned : (scan p.scanComment).run s = (.ok text, t)) :
    ∃ body, CommentReadable (p.dialect s.dtd.entities) body ∧ Reads s t (renderComment body) [] ∧
      text = utf8 body := by
  obtain ⟨rest, ran, rfl⟩ := run_scan_eq_ok_iff.mp returned
  obtain ⟨consumed, body, split, rendered, hyphens, rfl, _⟩ := p.scanComment_eq_ok_iff.mp ran
  have reads := reads_withRest split
  rw [rendered] at reads
  refine ⟨body, ⟨?_, hyphens⟩, reads, rfl⟩
  have legal := reads.legal sound
  unfold renderComment at legal
  exact (legal_append.mp (legal_append.mp legal).1).2

theorem scanCdata_reads {s t : ParserState} {text : Bytes} (sound : Sound p.options.version s)
    (returned : (scan p.scanCdata).run s = (.ok text, t)) :
    ∃ body, CdataReadable (p.dialect s.dtd.entities) body ∧ Reads s t (renderCdata body) [] ∧
      text = utf8 body := by
  obtain ⟨rest, ran, rfl⟩ := run_scan_eq_ok_iff.mp returned
  obtain ⟨consumed, body, split, rendered, close, rfl, _⟩ := p.scanCdata_eq_ok_iff.mp ran
  have reads := reads_withRest split
  rw [rendered] at reads
  refine ⟨body, ⟨?_, close⟩, reads, rfl⟩
  have legal := reads.legal sound
  unfold renderCdata at legal
  exact (legal_append.mp (legal_append.mp legal).1).2

theorem scanProcessingInstruction_reads {s t : ParserState} {parts : Bytes × Bytes}
    (sound : Sound p.options.version s)
    (returned : (scan p.scanProcessingInstruction).run s = (.ok parts, t)) :
    ∃ target gap data, InstructionReadable (p.dialect s.dtd.entities) target gap data ∧
      Reads s t (renderInstruction target gap data) [] ∧ parts = (utf8 target, utf8 data) := by
  obtain ⟨rest, ran, rfl⟩ := run_scan_eq_ok_iff.mp returned
  obtain ⟨consumed, target, gap, data, split, rendered, named, reserved, spaces, close, start,
    joined, rfl, _⟩ := p.scanProcessingInstruction_eq_ok_iff.mp ran
  have reads := reads_withRest split
  rw [rendered] at reads
  refine ⟨target, gap, data, ⟨named, reserved, spaces, ?_, close, start, joined⟩, reads, rfl⟩
  have legal := reads.legal sound
  unfold renderInstruction at legal
  exact (legal_append.mp (legal_append.mp legal).1).2

/-- What is read in front of an event is read with it. -/
theorem emit_reads {s t u : ParserState} {text : Text} {event : Event} {result : Unit} (reads : Reads s t text [])
    (emitted : (p.emit event).run t = (.ok result, u)) : Reads s u text [event.withoutLocations] := by
  obtain ⟨rfl, _⟩ := p.emit_eq_ok_iff.mp emitted
  have whole := reads.trans (reads_deliver t event)
  rwa [List.append_nil] at whole

theorem parseComment_reads {s t : ParserState} {result : Unit}
    (sound : Sound p.options.version s) (returned : p.parseComment.run s = (.ok result, t)) :
    ∃ body, CommentReadable (p.dialect s.dtd.entities) body ∧
      Reads s t (renderComment body) [.comment (utf8 body)] := by
  obtain ⟨text, next, scanned, emitted⟩ := bind_eq_ok.mp returned
  obtain ⟨body, readable, reads, rfl⟩ := p.scanComment_reads sound scanned
  exact ⟨body, readable, p.emit_reads reads emitted⟩

theorem parseCdata_reads {s t : ParserState} {result : Unit}
    (sound : Sound p.options.version s) (returned : p.parseCdata.run s = (.ok result, t)) :
    ∃ body, CdataReadable (p.dialect s.dtd.entities) body ∧
      Reads s t (renderCdata body) [.cdata (utf8 body)] := by
  obtain ⟨text, next, scanned, emitted⟩ := bind_eq_ok.mp returned
  obtain ⟨body, readable, reads, rfl⟩ := p.scanCdata_reads sound scanned
  exact ⟨body, readable, p.emit_reads reads emitted⟩

theorem parseProcessingInstruction_reads {s t : ParserState} {result : Unit}
    (sound : Sound p.options.version s)
    (returned : p.parseProcessingInstruction.run s = (.ok result, t)) :
    ∃ target gap data, InstructionReadable (p.dialect s.dtd.entities) target gap data ∧
      Reads s t (renderInstruction target gap data)
        [.processingInstruction (utf8 target) (utf8 data)] := by
  obtain ⟨parts, next, scanned, emitted⟩ := bind_eq_ok.mp returned
  obtain ⟨target, gap, data, readable, reads, rfl⟩ := p.scanProcessingInstruction_reads sound scanned
  exact ⟨target, gap, data, readable, p.emit_reads reads emitted⟩

end Parser

/-! ## References and pieces of text -/

theorem Grammar.Piece.Readable.exclude {d : Dialect} {excluded wider : Nat → Prop} {item : Piece}
    (readable : item.Readable d excluded)
    (others : ∀ c, item = .literal c → ¬ wider c) : item.Readable d wider := by
  cases item with
  | literal c => exact ⟨readable.1, others c rfl⟩
  | reference name value => exact readable

/-- The state after a count. -/
def ParserState.withCount (count : Nat) (s : ParserState) : ParserState :=
  { s with entityExpansions := count }

namespace Parser

variable (p : Parser)

theorem counting_eq_ok_iff {α : Type} {source : Comp Nat Halt α} {s t : ParserState} {value : α} :
    (counting source).run s = (.ok value, t) ↔
      ∃ count, source.run s.entityExpansions = (.ok value, count) ∧ t = s.withCount count :=
  run_onPart_eq_iff

theorem countExpansion_eq_ok_iff {start : SourceLocation} {before after : Nat} {result : Unit} :
    (p.countExpansion start).run before = (.ok result, after) ↔
      after = before + 1 ∧ before + 1 ≤ p.options.maxEntityExpansions := by
  unfold countExpansion
  rw [run_modify_bind, run_read_bind]
  change Comp.run (if _ then _ else _) _ = _ ↔ _
  split
  · rename_i large
    constructor
    · intro ran
      cases ran
    · intro fits
      exact absurd large (Nat.not_lt.mpr fits.2)
  · rename_i small
    constructor
    · intro ran
      cases ran
      exact ⟨rfl, Nat.not_lt.mp small⟩
    · intro fits
      rw [fits.1]
      rfl

/-- The name that is pushed character by character up to a semicolon. -/
theorem name_of_pushing {start : SourceLocation} {rest final : List DecodedChar} {buffer : List Nat}
    (returned : (whilePeek (· != 0x3B) (p.pushPeek start) []).run rest = (.ok buffer, final)) :
    ∃ name, rest = name ++ final ∧ buffer = values name ∧ 0x3B ∉ values name := by
  obtain ⟨name, split, ⟨others, _⟩, same, _⟩ := (p.pushPeek_buffers start).whilePeek_eq_ok_iff.mp returned
  rw [foldl_push, List.nil_append] at same
  exact ⟨name, split, same, fun member => by simpa using others _ member⟩

/-- A reference is read up to its semicolon, counted and resolved. -/
theorem parseReference_takes {s t : ParserState} {bytes : Bytes}
    (returned : p.parseReference.run s = (.ok bytes, t)) :
    ∃ consumed rest name count, s.rest = consumed ++ rest ∧ values consumed = 0x26 :: (name ++ [0x3B]) ∧
      0x3B ∉ name ∧ s.entityExpansions + 1 ≤ p.options.maxEntityExpansions ∧
      (p.resolveReference s.dtd.entities (toAscii name) (p.location s.rest)).run (s.entityExpansions + 1) =
        (.ok bytes, count) ∧ t = (s.withRest rest).withCount count := by
  unfold parseReference at returned
  rw [run_look_bind] at returned
  obtain ⟨_, _, opened, returned⟩ := bind_eq_ok.mp returned
  obtain ⟨_, _, counted, returned⟩ := bind_eq_ok.mp returned
  obtain ⟨_, _, named, returned⟩ := bind_eq_ok.mp returned
  obtain ⟨_, _, closed, returned⟩ := bind_eq_ok.mp returned
  rw [run_read_bind] at returned
  obtain ⟨rest1, ran, rfl⟩ := run_scan_eq_ok_iff.mp opened
  obtain ⟨ampersand, isAmpersand, split1⟩ := p.expect_eq_ok_iff.mp ran
  obtain ⟨count2, counts, rfl⟩ := counting_eq_ok_iff.mp counted
  obtain ⟨rfl, room⟩ := p.countExpansion_eq_ok_iff.mp counts
  obtain ⟨rest3, ran, rfl⟩ := run_scan_eq_ok_iff.mp named
  obtain ⟨name, split3, rfl, ended⟩ := p.name_of_pushing ran
  obtain ⟨rest4, ran, rfl⟩ := run_scan_eq_ok_iff.mp closed
  obtain ⟨semicolon, isSemicolon, split4⟩ := p.expect_eq_ok_iff.mp ran
  obtain ⟨count5, resolved, rfl⟩ := counting_eq_ok_iff.mp returned
  refine ⟨ampersand :: (name ++ [semicolon]), rest4, values name, count5, ?_, ?_, ended, room, resolved, rfl⟩
  · rw [split1, show rest1 = name ++ rest3 from split3, show rest3 = semicolon :: rest4 from split4]
    simp
  · simp [isAmpersand, isSemicolon]

theorem parseReference_reads {s t : ParserState} {bytes : Bytes}
    (sound : Sound p.options.version s) (returned : p.parseReference.run s = (.ok bytes, t)) :
    ∃ name value, 0x3B ∉ name ∧ (p.dialect s.dtd.entities).denotes name value ∧
      Reads s t (Piece.reference name value).render [] ∧ bytes = utf8 value := by
  obtain ⟨consumed, rest, name, count, split, spelled, ended, _, resolved, rfl⟩ := p.parseReference_takes returned
  obtain ⟨value, rfl, legal⟩ := p.encoded_resolveReference sound.entities resolved
  refine ⟨name, value, ended, ⟨legal, _, _, _, resolved⟩, ?_, rfl⟩
  exact ⟨⟨consumed, split, spelled⟩, rfl, rfl, rfl, rfl, rfl, (List.append_nil _).symm⟩

/-- A step of text takes a reference or a character other than an ampersand. -/
theorem takePiece_reads {s t : ParserState} {text result : Bytes}
    (sound : Sound p.options.version s)
    (returned : (p.takePiece text).run s = (.ok result, t)) :
    ∃ item : Piece, item.Readable (p.dialect s.dtd.entities) (fun c => c = 0x26) ∧
      Reads s t item.render [] ∧ result = text ++ utf8 item.value ∧
      ∀ c, item = .literal c → peek s.rest = c := by
  unfold takePiece at returned
  rw [run_look_bind] at returned
  split at returned
  · obtain ⟨expansion, _, read, returned⟩ := bind_eq_ok.mp returned
    obtain ⟨name, value, absent, denotes, reads, rfl⟩ := p.parseReference_reads sound read
    cases returned
    exact ⟨.reference name value, ⟨absent, denotes⟩, reads, rfl, fun c same => nomatch same⟩
  · rename_i notAmpersand
    obtain ⟨rest, ran, rfl⟩ := run_scan_eq_ok_iff.mp returned
    cases front : s.rest with
    | nil =>
        rw [front] at ran
        cases ran
    | cons c others =>
        rw [front] at ran
        obtain ⟨rfl, rfl, _⟩ := (p.takePeek_buffers.cons _ _ _ _ _).mp ran
        have reads := reads_one front
        refine ⟨.literal c.value, ⟨?_, ?_⟩, reads, ?_, ?_⟩
        · exact reads.legal sound c.value (List.mem_singleton_self _)
        · intro isAmpersand
          exact notAmpersand (by rw [front, peek_cons, isAmpersand]; rfl)
        · simp [appendUtf8, Piece.value, utf8]
        · intro d same
          cases same
          rfl

/-! ## Attribute values -/

/-- The loop of an attribute value reads pieces up to the quote. -/
theorem attributeValueLoop_reads {start : SourceLocation} {quote : Nat} {value result : Bytes}
    {s t : ParserState} (sound : Sound p.options.version s)
    (returned : (loop (fun _ s => s.rest.length) .outOfFuel (p.attributeValueRound start quote)
      value).run s = (.ok result, t)) :
    ∃ pieces, (∀ item ∈ pieces, item.Readable (p.dialect s.dtd.entities) (ExcludedFromValue quote)) ∧
      Reads s t (renderPieces pieces ++ [quote]) [] ∧ result = value ++ utf8 (pieceValues pieces) := by
  have shrinks := shrinks_of_advances (p.attributeValueRound_strict start quote)
  induction value, s using loop_induction shrinks with
  | round value s ih =>
      cases ran : (p.attributeValueRound start quote value).run s with
      | mk outcome next =>
          cases outcome with
          | error error =>
              rw [run_loop_of_error shrinks ran] at returned
              cases returned
          | ok step =>
              have round := ran
              unfold attributeValueRound at round
              rw [run_look_bind, run_look_bind] at round
              split at round
              · obtain ⟨_, _, closed, finished⟩ := bind_eq_ok.mp round
                cases finished
                rw [run_loop_of_done shrinks ran] at returned
                cases returned
                obtain ⟨rest, expected, rfl⟩ := run_scan_eq_ok_iff.mp closed
                obtain ⟨c, rfl, split⟩ := p.expect_eq_ok_iff.mp expected
                exact ⟨[], List.forall_mem_nil _, reads_one split, (List.append_nil _).symm⟩
              rename_i inside
              rw [run_look_bind] at round
              split at round
              · cases round
              rename_i notTag
              obtain ⟨text, _, taken, enforced⟩ := bind_eq_ok.mp round
              obtain ⟨_, _, fits, continued⟩ := bind_eq_ok.mp enforced
              obtain ⟨_, rfl⟩ := p.enforceTokenSize_eq_ok_iff.mp fits
              cases continued
              rw [run_loop_of_next shrinks ran] at returned
              obtain ⟨item, readable, reads, rfl, first⟩ := p.takePiece_reads sound taken
              obtain ⟨pieces, allReadable, readsRest, rfl⟩ := ih _ _ ran (reads.sound sound) returned
              refine ⟨item :: pieces, ?_, ?_, ?_⟩
              · intro other member
                cases List.mem_cons.mp member with
                | inl same =>
                    subst same
                    refine Piece.Readable.exclude readable fun c literal excluded => ?_
                    subst literal
                    have peeked := first c rfl
                    rw [peeked] at inside notTag
                    rcases excluded with isTag | isAmpersand | isQuote
                    · exact notTag (beq_iff_eq.mpr isTag)
                    · exact readable.2 isAmpersand
                    · exact inside (by rw [isQuote, beq_self_eq_true, Bool.or_true])
                | inr member =>
                    have same := allReadable other member
                    rwa [reads.dtd] at same
              · have whole := reads.trans readsRest
                rwa [← List.append_assoc] at whole
              · simp [pieceValues, utf8_append]

theorem parseAttributeValue_reads {s t : ParserState} {value : Bytes}
    (sound : Sound p.options.version s)
    (returned : p.parseAttributeValue.run s = (.ok value, t)) :
    ∃ quote pieces, (quote = 0x27 ∨ quote = 0x22) ∧
      (∀ item ∈ pieces, item.Readable (p.dialect s.dtd.entities) (ExcludedFromValue quote)) ∧
      Reads s t (quote :: (renderPieces pieces ++ [quote])) [] ∧ value = utf8 (pieceValues pieces) := by
  unfold parseAttributeValue at returned
  rw [run_look_bind, run_look_bind] at returned
  split at returned
  · cases returned
  rename_i quoted
  obtain ⟨_, _, advanced, looped⟩ := bind_eq_ok.mp returned
  obtain ⟨rest, ran, rfl⟩ := run_scan_eq_ok_iff.mp advanced
  cases front : s.rest with
  | nil =>
      rw [front] at ran
      cases ran
  | cons c others =>
      rw [front, run_advance_cons] at ran
      cases ran
      have opened := reads_one front
      obtain ⟨pieces, readable, reads, rfl⟩ :=
        p.attributeValueLoop_reads (opened.sound sound) looped
      rw [front, peek_cons] at quoted reads readable
      refine ⟨c.value, pieces, ?_, readable, opened.trans reads, rfl⟩
      simp only [Bool.and_eq_true, bne_iff_ne, ne_eq, not_and, not_not] at quoted
      by_cases single : c.value = 0x27
      · exact .inl single
      · exact .inr (quoted single)

/-! ## Attributes -/

/-- The spaces in front of a character that is none. -/
theorem skipWhitespace_reads {s t : ParserState} {result : Unit}
    (returned : (scan p.skipWhitespace).run s = (.ok result, t)) :
    ∃ space, Spaces space ∧ Reads s t space [] ∧ StopsAt isSpace t.rest ∧
      (space = [] → t = s) := by
  obtain ⟨rest, ran, rfl⟩ := run_scan_eq_ok_iff.mp returned
  obtain ⟨space, split, spaces, stops⟩ := p.skipWhitespace_eq_ok_iff.mp ran
  refine ⟨values space, spaces_iff.mp spaces, reads_withRest split, stops, fun empty => ?_⟩
  have none : space = [] := List.map_eq_nil_iff.mp empty
  subst none
  have same : s.rest = rest := split
  rw [← same]
  rfl

theorem parseName_reads {s t : ParserState} {name : Bytes}
    (returned : (scan p.parseName).run s = (.ok name, t)) :
    ∃ text, Name text ∧ Reads s t text [] ∧ StopsAt isNameChar t.rest ∧ name = utf8 text := by
  obtain ⟨rest, ran, rfl⟩ := run_scan_eq_ok_iff.mp returned
  obtain ⟨consumed, split, named, stops, rfl, _⟩ := p.parseName_eq_ok_iff.mp ran
  exact ⟨values consumed, named, reads_withRest split, stops, rfl⟩

theorem expect_reads {s t : ParserState} {value : Nat} {description : String} {result : Unit}
    (returned : (scan (p.expect value description)).run s = (.ok result, t)) :
    Reads s t [value] [] := by
  obtain ⟨rest, ran, rfl⟩ := run_scan_eq_ok_iff.mp returned
  obtain ⟨c, rfl, split⟩ := p.expect_eq_ok_iff.mp ran
  exact reads_one split

theorem expectSequence_reads {s t : ParserState} {text : List Nat} {description : String}
    {result : Unit} (returned : (scan (p.expectSequence text description)).run s = (.ok result, t)) :
    Reads s t text [] := by
  obtain ⟨rest, ran, rfl⟩ := run_scan_eq_ok_iff.mp returned
  obtain ⟨consumed, rfl, split⟩ := p.expectSequence_eq_ok_iff.mp ran
  exact reads_withRest split

theorem attributesLoop_reads {raws result : List RawAttribute} {s t : ParserState}
    (sound : Sound p.options.version s)
    (returned : (loop (fun _ s => s.rest.length) .outOfFuel p.attributesRound raws).run s =
      (.ok result, t)) :
    ∃ attributes after, (∀ attr ∈ attributes, attr.Readable (p.dialect s.dtd.entities)) ∧
      Spaces after ∧ Reads s t (renderAttributes attributes ++ after) [] ∧
      result.map RawAttribute.pair = raws.map RawAttribute.pair ++
        attributes.map (fun attr => (utf8 attr.name, utf8 (pieceValues attr.value))) ∧
      ((raws.map RawAttribute.name).Nodup → (result.map RawAttribute.name).Nodup) ∧
      (StopsAt isNameChar s.rest → ∀ attr ∈ attributes.head?, attr.before ≠ []) ∧
      (peek t.rest = 0x3E ∨ startsWith (u32 "/>") t.rest = true) := by
  have shrinks := shrinks_of_advances p.attributesRound_strict
  induction raws, s using loop_induction shrinks with
  | round raws s ih =>
      cases ran : (p.attributesRound raws).run s with
      | mk outcome next =>
          cases outcome with
          | error error =>
              rw [run_loop_of_error shrinks ran] at returned
              cases returned
          | ok step =>
              have round := ran
              unfold attributesRound at round
              obtain ⟨_, s1, skipped, tested⟩ := bind_eq_ok.mp round
              obtain ⟨before, spaces, reads1, _, unmoved⟩ := p.skipWhitespace_reads skipped
              rw [run_look_bind, run_look_bind] at tested
              split at tested
              · rename_i closes
                cases tested
                rw [run_loop_of_done shrinks ran] at returned
                cases returned
                refine ⟨[], before, List.forall_mem_nil _, spaces, reads1, by simp, id, ?_, ?_⟩
                · intro _ attr member
                  cases member
                · simpa using closes
              rw [run_look_bind] at tested
              obtain ⟨name, s2, parsed, guarded⟩ := bind_eq_ok.mp tested
              obtain ⟨nameText, named, reads2, _, rfl⟩ := p.parseName_reads parsed
              split at guarded
              · cases guarded
              rename_i new
              split at guarded
              · cases guarded
              obtain ⟨_, s3, skippedBefore, rest3⟩ := bind_eq_ok.mp guarded
              obtain ⟨beforeEquals, spacesBefore, reads3, _⟩ := p.skipWhitespace_reads skippedBefore
              obtain ⟨_, s4, expected, rest4⟩ := bind_eq_ok.mp rest3
              have reads4 := p.expect_reads expected
              obtain ⟨_, s5, skippedAfter, rest5⟩ := bind_eq_ok.mp rest4
              obtain ⟨afterEquals, spacesAfter, reads5, _⟩ := p.skipWhitespace_reads skippedAfter
              obtain ⟨value, s6, valued, finished⟩ := bind_eq_ok.mp rest5
              have toValue := (((reads1.trans reads2).trans reads3).trans reads4).trans reads5
              obtain ⟨quote, pieces, quoted, readable, reads6, rfl⟩ :=
                p.parseAttributeValue_reads (toValue.sound sound) valued
              cases finished
              rw [run_loop_of_next shrinks ran] at returned
              have toNext := toValue.trans reads6
              obtain ⟨attributes, after, allReadable, spacesLast, readsRest, pairs, distinct, _, closes⟩ :=
                ih _ _ ran (toNext.sound sound) returned
              rw [toValue.dtd] at readable
              rw [toNext.dtd] at allReadable
              refine ⟨⟨before, nameText, beforeEquals, afterEquals, quote, pieces⟩ :: attributes, after,
                ?_, spacesLast, ?_, ?_, ?_, ?_, closes⟩
              · intro attr member
                cases List.mem_cons.mp member with
                | inl same =>
                    subst same
                    exact ⟨spaces, named, spacesBefore, spacesAfter, quoted, readable⟩
                | inr member => exact allReadable attr member
              · have whole := toNext.trans readsRest
                simpa [renderAttributes, Attribute.render] using whole
              · rw [pairs]
                simp [RawAttribute.pair]
              · intro nodup
                apply distinct
                rw [List.map_append, List.map_singleton, List.nodup_append]
                refine ⟨nodup, List.nodup_cons.mpr ⟨List.not_mem_nil, List.nodup_nil⟩, ?_⟩
                intro left member right single same
                rw [List.mem_singleton.mp single] at same
                obtain ⟨raw, old, rfl⟩ := List.mem_map.mp member
                exact new (List.any_eq_true.mpr ⟨raw, old, beq_iff_eq.mpr same⟩)
              · intro follows attr member empty
                cases member
                have moved := unmoved empty
                subst moved
                obtain ⟨consumed, split, rfl⟩ := reads2.rest
                cases consumed with
                | nil => exact named
                | cons c consumed =>
                    have stopped := follows c (by rw [split]; rfl)
                    rw [isNameChar_eq_false_iff] at stopped
                    exact stopped (.inl named.1)

theorem parseAttributes_reads {result : List RawAttribute} {s t : ParserState}
    (sound : Sound p.options.version s) (returned : p.parseAttributes.run s = (.ok result, t)) :
    ∃ attributes after, (∀ attr ∈ attributes, attr.Readable (p.dialect s.dtd.entities)) ∧
      Spaces after ∧ Reads s t (renderAttributes attributes ++ after) [] ∧
      result.map RawAttribute.pair =
        attributes.map (fun attr => (utf8 attr.name, utf8 (pieceValues attr.value))) ∧
      (attributes.map Attribute.name).Nodup ∧
      (StopsAt isNameChar s.rest → ∀ attr ∈ attributes.head?, attr.before ≠ []) := by
  obtain ⟨attributes, after, readable, spaces, reads, pairs, distinct, first, _⟩ :=
    p.attributesLoop_reads sound returned
  refine ⟨attributes, after, readable, spaces, reads, pairs, ?_, first⟩
  have names : result.map RawAttribute.name = (attributes.map Attribute.name).map utf8 := by
    have firsts := congrArg (List.map Prod.fst) pairs
    simpa [RawAttribute.pair, Function.comp_def] using firsts
  have nodup := distinct List.nodup_nil
  rw [names] at nodup
  exact List.Nodup.of_map utf8 nodup

/-! ## Text -/

theorem textLoop_reads {start : SourceLocation} {text result : Bytes} {s t : ParserState}
    (sound : Sound p.options.version s)
    (returned : (loop (fun _ s => s.rest.length) .outOfFuel (p.textRound start) text).run s =
      (.ok result, t)) :
    ∃ pieces, (∀ item ∈ pieces, item.Readable (p.dialect s.dtd.entities) ExcludedFromText) ∧
      Reads s t (renderPieces pieces) [] ∧ result = text ++ utf8 (pieceValues pieces) ∧
      (eof t.rest = true ∨ peek t.rest = 0x3C) := by
  have shrinks := shrinks_of_advances (p.textRound_strict start)
  induction text, s using loop_induction shrinks with
  | round text s ih =>
      cases ran : (p.textRound start text).run s with
      | mk outcome next =>
          cases outcome with
          | error error =>
              rw [run_loop_of_error shrinks ran] at returned
              cases returned
          | ok step =>
              have round := ran
              unfold textRound at round
              rw [run_look_bind, run_look_bind] at round
              split at round
              · rename_i ends
                cases round
                rw [run_loop_of_done shrinks ran] at returned
                cases returned
                refine ⟨[], List.forall_mem_nil _, Reads.refl _, (List.append_nil _).symm, ?_⟩
                simpa using ends
              rename_i inside
              obtain ⟨taken, _, took, enforced⟩ := bind_eq_ok.mp round
              obtain ⟨_, _, fits, continued⟩ := bind_eq_ok.mp enforced
              obtain ⟨_, rfl⟩ := p.enforceTokenSize_eq_ok_iff.mp fits
              cases continued
              rw [run_loop_of_next shrinks ran] at returned
              obtain ⟨item, readable, reads, rfl, first⟩ := p.takePiece_reads sound took
              obtain ⟨pieces, allReadable, readsRest, rfl, ends⟩ :=
                ih _ _ ran (reads.sound sound) returned
              refine ⟨item :: pieces, ?_, reads.trans readsRest, ?_, ends⟩
              · intro other member
                cases List.mem_cons.mp member with
                | inl same =>
                    subst same
                    refine Piece.Readable.exclude readable fun c literal excluded => ?_
                    subst literal
                    have peeked := first c rfl
                    rw [peeked] at inside
                    cases excluded with
                    | inl isTag => exact inside (by rw [isTag, beq_self_eq_true, Bool.or_true])
                    | inr isAmpersand => exact readable.2 isAmpersand
                | inr member =>
                    have same := allReadable other member
                    rwa [reads.dtd] at same
              · simp [pieceValues, utf8_append]

theorem deliverText_reads {text : Bytes} {s t : ParserState} {result : Unit}
    (returned : (p.deliverText text).run s = (.ok result, t)) :
    t.rest = s.rest ∧ Reads s t [] (flushText text) := by
  unfold deliverText at returned
  unfold flushText
  split at returned
  · rename_i empty
    cases returned
    rw [if_pos empty]
    exact ⟨rfl, Reads.refl s⟩
  rename_i nonempty
  rw [if_neg nonempty]
  rw [run_modify_bind] at returned
  obtain ⟨rfl, _⟩ := p.emit_eq_ok_iff.mp returned
  have marked : Reads s (if text.any (fun ch => !isAsciiSpace ch) then
      { s with validationStack := recordText s.validationStack } else s) [] [] := by
    split
    · refine ⟨⟨[], rfl, rfl⟩, rfl, rfl, rfl, ?_, rfl, (List.append_nil _).symm⟩
      cases s.validationStack with
      | nil => rfl
      | cons frame rest => rfl
    · exact Reads.refl s
  refine ⟨?_, marked.trans (reads_deliver _ (.characters text))⟩
  split
  · rfl
  · rfl

theorem parseText_reads {s t : ParserState} {result : Unit}
    (sound : Sound p.options.version s) (returned : p.parseText.run s = (.ok result, t)) :
    ∃ pieces, (∀ item ∈ pieces, item.Readable (p.dialect s.dtd.entities) ExcludedFromText) ∧
      Reads s t (renderPieces pieces) (flushText (utf8 (pieceValues pieces))) ∧
      (eof t.rest = true ∨ peek t.rest = 0x3C) := by
  unfold parseText at returned
  rw [run_look_bind] at returned
  obtain ⟨text, _, looped, delivered⟩ := bind_eq_ok.mp returned
  obtain ⟨pieces, readable, reads, rfl, ends⟩ := p.textLoop_reads sound looped
  obtain ⟨same, flushed⟩ := p.deliverText_reads delivered
  have whole := reads.trans flushed
  rw [List.append_nil] at whole
  exact ⟨pieces, readable, whole, same ▸ ends⟩

/-! ## Tags -/

theorem topOf_eq_ok_iff {σ α : Type} {stack : List α} {s t : σ} {top : α} :
    (topOf stack : Comp σ Halt α).run s = (.ok top, t) ↔
      t = s ∧ ∃ rest, stack = top :: rest := by
  cases stack with
  | nil => simp [topOf]
  | cons first rest => simp [topOf, eq_comm, and_comm]

theorem parseEndTag_reads {nameText : Text} (named : Name nameText) {top : QualifiedName}
    {s t : ParserState} {result : Unit} (inside : s.elementNameStack.head? = some top)
    (returned : (p.parseEndTag (utf8 nameText)).run s = (.ok result, t)) :
    ∃ space, Spaces space ∧ Reads s t (renderEndTag nameText space) [.endElement top] := by
  unfold parseEndTag at returned
  rw [run_look_bind] at returned
  obtain ⟨_, _, opened, rest1⟩ := bind_eq_ok.mp returned
  have reads1 := p.expectSequence_reads opened
  obtain ⟨endName, _, parsed, rest2⟩ := bind_eq_ok.mp rest1
  obtain ⟨endText, endNamed, reads2, _, rfl⟩ := p.parseName_reads parsed
  obtain ⟨_, _, skipped, rest3⟩ := bind_eq_ok.mp rest2
  obtain ⟨space, spaces, reads3, _⟩ := p.skipWhitespace_reads skipped
  obtain ⟨_, _, closed, rest4⟩ := bind_eq_ok.mp rest3
  have reads4 := p.expect_reads closed
  have reads := ((reads1.trans reads2).trans reads3).trans reads4
  split at rest4
  · cases rest4
  rename_i matching
  rw [run_read_bind] at rest4
  obtain ⟨found, _, popped, emitted⟩ := bind_eq_ok.mp rest4
  obtain ⟨rfl, others, stack⟩ := topOf_eq_ok_iff.mp popped
  obtain ⟨rfl, _⟩ := p.emit_eq_ok_iff.mp emitted
  rw [reads.elementNameStack] at stack
  rw [stack] at inside
  cases inside
  have sameName : endText = nameText := by
    have sameBytes : utf8 endText = utf8 nameText := by simpa using matching
    exact utf8_injective (endNamed.legal .xml10) (named.legal .xml10) sameBytes
  subst sameName
  have whole := reads.trans (reads_deliver _ (.endElement top))
  rw [List.append_nil] at whole
  exact ⟨space, spaces, whole⟩

/-- Behind a start tag the parser is one element deeper. -/
structure Enters (mode : NamespaceMode) (tags : List StartTag) (tag : Tag) (s t : ParserState)
    (text : Text) : Prop where
  rest : ∃ consumed, s.rest = consumed ++ t.rest ∧ values consumed = text
  elementStack : t.elementStack = utf8 tag.name :: s.elementStack
  elementNameStack : t.elementNameStack =
    tag.elementName mode (tag.startTag :: tags) :: s.elementNameStack
  namespaceScopes : t.namespaceScopes = scopesOf mode (tag.startTag :: tags)
  validationDepth : t.validationStack.length = s.validationStack.length + 1
  dtd : t.dtd = s.dtd
  events : t.events.map Event.withoutLocations = s.events.map Event.withoutLocations ++
    [.startElement (tag.elementName mode (tag.startTag :: tags))
      (attributesIn mode (tag.startTag :: tags) tag.startTag)]

theorem openElement_reads {nameText : Text} (named : Name nameText) {start : SourceLocation}
    {tags : List StartTag} {s t : ParserState} {elementName : QualifiedName}
    (sound : Sound p.options.version s)
    (inScope : s.namespaceScopes = scopesOf p.options.namespaces tags)
    (follows : StopsAt isNameChar s.rest)
    (returned : (p.openElement (utf8 nameText) start).run s = (.ok elementName, t)) :
    ∃ tag : Tag, tag.name = nameText ∧ tag.Readable (p.dialect s.dtd.entities) ∧
      NamedIn p.options.namespaces (tag.startTag :: tags) tag.startTag ∧
      elementName = tag.elementName p.options.namespaces (tag.startTag :: tags) ∧
      Enters p.options.namespaces tags tag s t (renderAttributes tag.attributes ++ tag.after) := by
  unfold openElement pushScope pushElement at returned
  obtain ⟨raws, u, parsed, rest1⟩ := bind_eq_ok.mp returned
  obtain ⟨attributes, after, readable, spaces, reads, pairs, distinct, first⟩ :=
    p.parseAttributes_reads sound parsed
  have spelled : (⟨utf8 nameText, raws.map RawAttribute.pair⟩ : StartTag) =
      (⟨nameText, attributes, after⟩ : Tag).startTag := by
    rw [pairs]
    rfl
  rw [run_modify_bind, run_read_bind] at rest1
  dsimp only at rest1
  have scopes : p.collectNamespaceDeclarations raws :: u.namespaceScopes =
      scopesOf p.options.namespaces (⟨utf8 nameText, raws.map RawAttribute.pair⟩ :: tags) := by
    rw [reads.namespaceScopes, inScope]
    exact collectNamespaceDeclarations_eq p (utf8 nameText) raws tags
  rw [scopes] at rest1
  obtain ⟨_, _, resolved, rest2⟩ := bind_eq_ok.mp rest1
  obtain ⟨views, _, viewed, rest3⟩ := bind_eq_ok.mp rest2
  obtain ⟨namedIn, rfl, rfl, rfl, rfl⟩ := p.resolveTag_ok_iff.mp ⟨resolved, viewed⟩
  rw [run_modify_bind] at rest3
  obtain ⟨_, _, emitted, finished⟩ := bind_eq_ok.mp rest3
  obtain ⟨rfl, _⟩ := p.emit_eq_ok_iff.mp emitted
  cases finished
  have shown := viewsOf_withoutLocation p.options.namespaces
    (⟨utf8 nameText, raws.map RawAttribute.pair⟩ :: tags) raws (utf8 nameText)
  rw [spelled] at namedIn shown ⊢
  refine ⟨⟨nameText, attributes, after⟩, rfl, ⟨named, readable, first follows, distinct, spaces⟩,
    namedIn, rfl, reads.rest, ?_, ?_, rfl, ?_, reads.dtd, ?_⟩
  · exact congrArg _ reads.elementStack
  · exact congrArg _ reads.elementNameStack
  · exact congrArg (· + 1) reads.validationDepth
  · have events := reads.events
    rw [List.append_nil] at events
    simp only [ParserState.deliver, ParserState.events, List.map_append, List.map_cons,
      List.map_nil, Event.withoutLocations, shown] at events ⊢
    rw [events]
    rfl

/-- What parsing an element reads and delivers. -/
def ElementReads (element : ParserM Unit) : Prop :=
  ∀ (tags : List StartTag) (s t : ParserState) (result : Unit),
    Sound p.options.version s → s.namespaceScopes = scopesOf p.options.namespaces tags →
    element.run s = (.ok result, t) →
    ∃ tag body, (elementContent tag body .nil).Readable (p.dialect s.dtd.entities) ∧
      (elementContent tag body .nil).Named p.options.namespaces tags ∧
      Reads s t (elementContent tag body .nil).render
        ((elementContent tag body .nil).events p.options.namespaces tags [])


/-! ## Content -/

/-- The text of content in front of an end tag never starts with a piece if it
starts with markup. -/
theorem no_piece_of_markup {s t : ParserState} {content : Content} {closing : Text}
    {events : List Event} {d : Dialect} (readable : content.Readable d)
    (reads : Reads s t (content.render ++ closing) events)
    (markup : eof s.rest = true ∨ peek s.rest = 0x3C) :
    ∀ item next, content ≠ .piece item next := by
  intro item next same
  subst same
  obtain ⟨consumed, split, spelled⟩ := reads.rest
  have front : ∃ c rest, values s.rest = c :: rest ∧ c ≠ 0x3C := by
    rw [split, values_append, spelled]
    cases item with
    | literal c => exact ⟨c, _, rfl, fun isTag => readable.1.2 (.inl isTag)⟩
    | reference name value => exact ⟨0x26, _, rfl, by decide⟩
  obtain ⟨c, rest, same, notTag⟩ := front
  cases chars : s.rest with
  | nil =>
      rw [chars] at same
      cases same
  | cons d others =>
      rw [chars, values_cons] at same
      cases same
      rw [chars] at markup
      simp [notTag] at markup

theorem contentLoop_reads {fuel : Nat} (elementReads : p.ElementReads (p.parseElement fuel))
    {nameText : Text} (named : Name nameText) {top : QualifiedName} {tags : List StartTag}
    {s t : ParserState} {result : Unit} (sound : Sound p.options.version s)
    (inScope : s.namespaceScopes = scopesOf p.options.namespaces tags)
    (inside : s.elementNameStack.head? = some top)
    (returned : (p.parseContent (p.parseElement fuel) (utf8 nameText)).run s = (.ok result, t)) :
    ∃ (content : Content) (space : Text), content.Readable (p.dialect s.dtd.entities) ∧
      content.Named p.options.namespaces tags ∧ Spaces space ∧
      Reads s t (content.render ++ renderEndTag nameText space)
        (content.events p.options.namespaces tags [] ++ [.endElement top]) := by
  have shrinks := p.contentRound_shrinks fuel (utf8 nameText)
  unfold parseContent at returned
  generalize current : () = turn at returned
  induction turn, s using loop_induction shrinks with
  | round turn s ih =>
      have continues : ∀ {next : ParserState} {text : Text} {events : List Event},
          (p.contentRound (p.parseElement fuel) (utf8 nameText) turn).run s =
            (.ok (.next ()), next) → Reads s next text events →
          ∃ (content : Content) (space : Text), content.Readable (p.dialect s.dtd.entities) ∧
            content.Named p.options.namespaces tags ∧ Spaces space ∧
            Reads next t (content.render ++ renderEndTag nameText space)
              (content.events p.options.namespaces tags [] ++ [.endElement top]) := by
        intro next text events ran reads
        rw [run_loop_of_next shrinks ran] at returned
        have more := ih () next ran (reads.sound sound) (reads.namespaceScopes.trans inScope)
          (reads.elementNameStack ▸ inside) rfl returned
        rwa [reads.dtd] at more
      cases ran : (p.contentRound (p.parseElement fuel) (utf8 nameText) turn).run s with
      | mk outcome next =>
          cases outcome with
          | error error =>
              rw [run_loop_of_error shrinks ran] at returned
              cases returned
          | ok step =>
              have round := ran
              unfold contentRound at round
              rw [run_look_bind] at round
              split at round
              · cases round
              rw [run_look_bind] at round
              split at round
              · obtain ⟨_, _, ended, finished⟩ := bind_eq_ok.mp round
                cases finished
                rw [run_loop_of_done shrinks ran] at returned
                cases returned
                obtain ⟨space, spaces, reads⟩ := p.parseEndTag_reads named inside ended
                exact ⟨.nil, space, trivial, trivial, spaces, reads⟩
              rw [run_look_bind] at round
              split at round
              · obtain ⟨_, _, parsed, finished⟩ := bind_eq_ok.mp round
                cases finished
                obtain ⟨body, readable, reads⟩ := p.parseComment_reads sound parsed
                obtain ⟨content, space, readableRest, namedRest, spaces, readsRest⟩ := continues ran reads
                exact ⟨.comment body content, space, ⟨readable, readableRest⟩, namedRest, spaces,
                  by simpa [Content.render, Content.events, flushText] using reads.trans readsRest⟩
              rw [run_look_bind] at round
              split at round
              · obtain ⟨_, _, parsed, finished⟩ := bind_eq_ok.mp round
                cases finished
                obtain ⟨body, readable, reads⟩ := p.parseCdata_reads sound parsed
                obtain ⟨content, space, readableRest, namedRest, spaces, readsRest⟩ := continues ran reads
                exact ⟨.cdata body content, space, ⟨readable, readableRest⟩, namedRest, spaces,
                  by simpa [Content.render, Content.events, flushText] using reads.trans readsRest⟩
              rw [run_look_bind] at round
              split at round
              · obtain ⟨_, _, parsed, finished⟩ := bind_eq_ok.mp round
                cases finished
                obtain ⟨target, gap, data, readable, reads⟩ :=
                  p.parseProcessingInstruction_reads sound parsed
                obtain ⟨content, space, readableRest, namedRest, spaces, readsRest⟩ := continues ran reads
                exact ⟨.instruction target gap data content, space, ⟨readable, readableRest⟩,
                  namedRest, spaces,
                  by simpa [Content.render, Content.events, flushText] using reads.trans readsRest⟩
              rw [run_look_bind] at round
              split at round
              · obtain ⟨_, _, parsed, finished⟩ := bind_eq_ok.mp round
                cases finished
                obtain ⟨tag, body, readable, namedIn, reads⟩ :=
                  elementReads tags s _ _ sound inScope parsed
                obtain ⟨content, space, readableRest, namedRest, spaces, readsRest⟩ := continues ran reads
                refine ⟨elementContent tag body content, space,
                  readable_elementContent.mpr ⟨readable, readableRest⟩,
                  named_elementContent.mpr ⟨namedIn, namedRest⟩, spaces, ?_⟩
                rw [render_elementContent, events_elementContent]
                simpa using reads.trans readsRest
              · obtain ⟨_, _, parsed, finished⟩ := bind_eq_ok.mp round
                cases finished
                obtain ⟨pieces, readable, reads, ends⟩ := p.parseText_reads sound parsed
                obtain ⟨content, space, readableRest, namedRest, spaces, readsRest⟩ := continues ran reads
                have markup := no_piece_of_markup readableRest readsRest ends
                refine ⟨prependPieces pieces content, space,
                  readable_prependPieces.mpr ⟨readable, readableRest⟩,
                  named_prependPieces.mpr namedRest, spaces, ?_⟩
                rw [render_prependPieces, events_prependPieces, events_flush _ _ _ markup]
                simpa using reads.trans readsRest

/-! ## Elements -/

/-- Only the record of reported errors changes. -/
def OnlyReports (s t : ParserState) : Prop := t = { s with reported := t.reported }

instance : Std.Refl OnlyReports := ⟨fun _ => rfl⟩

instance : IsTrans ParserState OnlyReports := ⟨by
  intro r s t first second
  unfold OnlyReports at first second ⊢
  rw [first] at second
  exact second⟩

theorem obeys_recoverableValidityError (location : SourceLocation) (message : String) :
    Obeys OnlyReports Halt.IsThrown (p.recoverableValidityError location message) := by
  unfold recoverableValidityError
  split
  · exact obeys_failAt _ _ _
  · refine obeys_bind (obeys_modify fun _ => rfl) fun _ => obeys_bind (obeys_read _) fun response => ?_
    cases response with
    | none => exact obeys_pure _
    | some exception => exact obeys_throw (isThrown_thrown _)

theorem obeys_validateElement (frame : ValidationFrame) (location : SourceLocation) :
    Obeys OnlyReports Halt.IsThrown (p.validateElement frame location) := by
  have reports := p.obeys_recoverableValidityError location
  refine obeys_bind (obeys_read _) fun s => obeys_ite (fun _ => obeys_pure _) fun _ => obeys_bind ?_ fun _ => ?_
  · exact obeys_bind (obeys_read _) fun s => obeys_ite (fun _ => reports _) fun _ => obeys_pure _
  · refine obeys_bind (obeys_read _) fun elements => ?_
    split
    · exact reports _
    · split
      · exact obeys_pure _
      · exact obeys_ite (fun _ => reports _) fun _ => obeys_pure _
      · exact obeys_ite (fun _ => reports _) fun _ => obeys_pure _
      · exact obeys_ite (fun _ => reports _) fun _ => obeys_pure _

theorem recordChild_length (name : Bytes) (stack : List ValidationFrame) :
    (recordChild name stack).length = stack.length := by
  cases stack with
  | nil => rfl
  | cons frame rest => rfl

/-- Behind an element the parser is one element less deep. -/
structure Leaves (s t : ParserState) : Prop where
  rest : t.rest = s.rest
  elementStack : t.elementStack = s.elementStack.tail
  elementNameStack : t.elementNameStack = s.elementNameStack.tail
  namespaceScopes : t.namespaceScopes = s.namespaceScopes.tail
  validationDepth : t.validationStack.length + 1 = s.validationStack.length
  dtd : t.dtd = s.dtd
  trace : t.trace = s.trace

theorem closeElement_leaves {location : SourceLocation} {s t : ParserState} {result : Unit}
    (returned : (p.finishValidationFrame location >>= fun _ => popElement).run s = (.ok result, t)) :
    Leaves s t := by
  obtain ⟨_, s1, finished, popped⟩ := bind_eq_ok.mp returned
  unfold finishValidationFrame at finished
  rw [run_read_bind] at finished
  obtain ⟨frame, _, taken, rest1⟩ := bind_eq_ok.mp finished
  obtain ⟨rfl, others, stack⟩ := topOf_eq_ok_iff.mp taken
  rw [run_modify_bind] at rest1
  obtain ⟨_, s2, validated, recorded⟩ := bind_eq_ok.mp rest1
  have only := (p.obeys_validateElement frame location).of_run validated
  cases recorded
  unfold OnlyReports at only
  unfold popElement at popped
  rw [run_read_bind] at popped
  split at popped
  · cases popped
  cases popped
  rw [only]
  refine ⟨rfl, rfl, rfl, rfl, ?_, rfl, rfl⟩
  rw [recordChild_length, stack]
  rfl

theorem parseTagName_reads {start : SourceLocation} {s t : ParserState} {name : Bytes}
    (returned : (p.parseTagName start).run s = (.ok name, t)) :
    ∃ text, Name text ∧ name = utf8 text ∧ Reads s t (0x3C :: text) [] ∧
      StopsAt isNameChar t.rest := by
  unfold parseTagName at returned
  obtain ⟨_, _, opened, rest1⟩ := bind_eq_ok.mp returned
  have reads1 := p.expect_reads opened
  rw [run_look_bind] at rest1
  split at rest1
  · cases rest1
  obtain ⟨_, _, parsed, rest2⟩ := bind_eq_ok.mp rest1
  obtain ⟨text, named, reads2, stops, rfl⟩ := p.parseName_reads parsed
  rw [run_read_bind] at rest2
  split at rest2
  · cases rest2
  · cases rest2
    exact ⟨text, named, rfl, reads1.trans reads2, stops⟩

/-- Both exits of an element: the rest of its tag, or its content and end tag. -/
theorem parseBody_reads {fuel : Nat} (elementReads : p.ElementReads (p.parseElement fuel))
    {tag : Tag} (named : Name tag.name) {tags : List StartTag} {s t : ParserState} {result : Unit}
    (sound : Sound p.options.version s)
    (inScope : s.namespaceScopes = scopesOf p.options.namespaces tags)
    {top : QualifiedName} (inside : s.elementNameStack.head? = some top)
    (returned : (p.parseBody (p.parseElement fuel) (utf8 tag.name) top).run s = (.ok result, t)) :
    Reads s t [0x2F, 0x3E] [.endElement top] ∨
    ∃ (content : Content) (space : Text), content.Readable (p.dialect s.dtd.entities) ∧
      content.Named p.options.namespaces tags ∧ Spaces space ∧
      Reads s t (0x3E :: (content.render ++ renderEndTag tag.name space))
        (content.events p.options.namespaces tags [] ++ [.endElement top]) := by
  unfold parseBody at returned
  rw [run_look_bind] at returned
  split at returned
  · obtain ⟨_, _, closed, emitted⟩ := bind_eq_ok.mp returned
    obtain ⟨rfl, _⟩ := p.emit_eq_ok_iff.mp emitted
    exact .inl ((p.expectSequence_reads closed).trans (reads_deliver _ (.endElement top)))
  · obtain ⟨_, _, closed, parsed⟩ := bind_eq_ok.mp returned
    have opened := p.expect_reads closed
    obtain ⟨content, space, readable, namedIn, spaces, reads⟩ :=
      p.contentLoop_reads elementReads named (opened.sound sound)
        (opened.namespaceScopes.trans inScope) (opened.elementNameStack ▸ inside) parsed
    rw [opened.dtd] at readable
    exact .inr ⟨content, space, readable, namedIn, spaces, opened.trans reads⟩

/-- What is read and delivered from the bracket of a start tag on, until the
element is left. -/
theorem Enters.reads {mode : NamespaceMode} {tags : List StartTag} {tag : Tag}
    {s s1 s2 s3 t : ParserState} {text attributes : Text} {events : List Event}
    (opened : Reads s s1 (0x3C :: tag.name) []) (inScope : s.namespaceScopes = scopesOf mode tags)
    (enters : Enters mode tags tag s1 s2 attributes) (inside : Reads s2 s3 text events)
    (leaves : Leaves s3 t) :
    Reads s t ([0x3C] ++ (tag.name ++ attributes) ++ text)
      (.startElement (tag.elementName mode (tag.startTag :: tags))
        (attributesIn mode (tag.startTag :: tags) tag.startTag) :: events) := by
  obtain ⟨nameChars, split1, named⟩ := opened.rest
  obtain ⟨attributeChars, split2, spelled⟩ := enters.rest
  obtain ⟨textChars, split3, rfl⟩ := inside.rest
  refine ⟨⟨nameChars ++ attributeChars ++ textChars, ?_, ?_⟩, ?_, ?_, ?_, ?_, ?_, ?_⟩
  · rw [split1, split2, split3, leaves.rest]
    simp
  · rw [values_append, values_append, named, spelled]
    simp
  · rw [leaves.elementStack, inside.elementStack, enters.elementStack, List.tail_cons,
      opened.elementStack]
  · rw [leaves.elementNameStack, inside.elementNameStack, enters.elementNameStack, List.tail_cons,
      opened.elementNameStack]
  · rw [leaves.namespaceScopes, inside.namespaceScopes, enters.namespaceScopes, inScope]
    unfold scopesOf
    cases mode with
    | enabled => rfl
    | disabled => rfl
  · have outer := leaves.validationDepth
    rw [inside.validationDepth, enters.validationDepth, opened.validationDepth] at outer
    omega
  · rw [leaves.dtd, inside.dtd, enters.dtd, opened.dtd]
  · have same : t.events = s3.events := congrArg (List.map Delivery.event) leaves.trace
    rw [same, inside.events, enters.events, opened.events]
    simp

theorem parseElement_reads (fuel : Nat) : p.ElementReads (p.parseElement fuel) := by
  induction fuel with
  | zero =>
      intro tags s t result sound inScope returned
      cases returned
  | succ fuel ih =>
      intro tags s t result sound inScope returned
      unfold parseElement at returned
      rw [run_look_bind] at returned
      obtain ⟨_, s1, parsed, rest1⟩ := bind_eq_ok.mp returned
      obtain ⟨nameText, named, rfl, reads1, follows⟩ := p.parseTagName_reads parsed
      obtain ⟨_, s2, opened, rest2⟩ := bind_eq_ok.mp rest1
      obtain ⟨tag, rfl, readable, namedIn, rfl, enters⟩ :=
        p.openElement_reads named (reads1.sound sound) (reads1.namespaceScopes.trans inScope) follows opened
      obtain ⟨_, s3, bodied, closed⟩ := bind_eq_ok.mp rest2
      have leaves := p.closeElement_leaves closed
      have sound2 : Sound p.options.version s2 := by
        obtain ⟨consumed, split, _⟩ := enters.rest
        exact (reads1.sound sound).ahead ⟨consumed, split.symm⟩ (congrArg _ enters.dtd)
      have top : s2.elementNameStack.head? =
          some (tag.elementName p.options.namespaces (tag.startTag :: tags)) := by
        rw [enters.elementNameStack, List.head?_cons]
      rw [reads1.dtd] at readable
      have body := p.parseBody_reads ih named sound2 enters.namespaceScopes top bodied
      rw [enters.dtd, reads1.dtd] at body
      cases body with
      | inl empty =>
          refine ⟨tag, none, ⟨readable, trivial⟩, ⟨namedIn, trivial⟩, ?_⟩
          have whole := Enters.reads reads1 inScope enters empty leaves
          simpa [elementContent, Content.render, Content.events, Tag.render, flushText] using whole
      | inr full =>
          obtain ⟨content, space, readableContent, namedContent, spaces, inside⟩ := full
          refine ⟨tag, some (content, space), ⟨readable, readableContent, spaces, trivial⟩,
            ⟨namedIn, namedContent, trivial⟩, ?_⟩
          have whole := Enters.reads reads1 inScope enters inside leaves
          simpa [elementContent, Content.render, Content.events, Tag.render, flushText] using whole

end Parser

/-! ## Comments, processing instructions and spaces around the element -/

theorem readable_spaces {d : Dialect} {space : Text} (spaces : Spaces space) :
    ∀ misc ∈ space.map Misc.space, misc.Readable d := by
  intro misc member
  obtain ⟨c, isSpace, rfl⟩ := List.mem_map.mp member
  exact spaces c isSpace

theorem renderMiscs_spaces (space : Text) : renderMiscs (space.map Misc.space) = space := by
  induction space with
  | nil => rfl
  | cons c space ih =>
      change c :: renderMiscs (space.map Misc.space) = _
      rw [ih]

theorem miscEvents_spaces (space : Text) : miscEvents (space.map Misc.space) = [] := by
  induction space with
  | nil => rfl
  | cons c space ih => exact ih

theorem renderMiscs_append (left right : List Misc) :
    renderMiscs (left ++ right) = renderMiscs left ++ renderMiscs right := List.flatMap_append

theorem miscEvents_append (left right : List Misc) :
    miscEvents (left ++ right) = miscEvents left ++ miscEvents right := List.flatMap_append

/-- The misc items a member has read, with their events. -/
def ReadsMiscs (d : Dialect) (s t : ParserState) : Prop :=
  ∃ miscs, (∀ misc ∈ miscs, misc.Readable d) ∧ Reads s t (renderMiscs miscs) (miscEvents miscs)

theorem ReadsMiscs.trans {d : Dialect} {r s t : ParserState} (first : ReadsMiscs d r s)
    (second : ReadsMiscs d s t) : ReadsMiscs d r t := by
  obtain ⟨left, readableLeft, readsLeft⟩ := first
  obtain ⟨right, readableRight, readsRight⟩ := second
  refine ⟨left ++ right, List.forall_mem_append.mpr ⟨readableLeft, readableRight⟩, ?_⟩
  rw [renderMiscs_append, miscEvents_append]
  exact readsLeft.trans readsRight

namespace Parser

variable (p : Parser)

theorem skipWhitespace_readsMiscs {s t : ParserState} {result : Unit} {d : Dialect}
    (returned : (scan p.skipWhitespace).run s = (.ok result, t)) : ReadsMiscs d s t := by
  obtain ⟨space, spaces, reads, _⟩ := p.skipWhitespace_reads returned
  refine ⟨space.map Misc.space, readable_spaces spaces, ?_⟩
  rw [renderMiscs_spaces, miscEvents_spaces]
  exact reads

theorem parseComment_readsMiscs {s t : ParserState} {result : Unit}
    (sound : Sound p.options.version s) (returned : p.parseComment.run s = (.ok result, t)) :
    ReadsMiscs (p.dialect s.dtd.entities) s t := by
  obtain ⟨body, readable, reads⟩ := p.parseComment_reads sound returned
  exact ⟨[.comment body], List.forall_mem_singleton.mpr readable,
    by simpa [renderMiscs, miscEvents, Misc.render, Misc.events] using reads⟩

theorem parseProcessingInstruction_readsMiscs {s t : ParserState} {result : Unit}
    (sound : Sound p.options.version s)
    (returned : p.parseProcessingInstruction.run s = (.ok result, t)) :
    ReadsMiscs (p.dialect s.dtd.entities) s t := by
  obtain ⟨target, gap, data, readable, reads⟩ :=
    p.parseProcessingInstruction_reads sound returned
  exact ⟨[.instruction target gap data], List.forall_mem_singleton.mpr readable,
    by simpa [renderMiscs, miscEvents, Misc.render, Misc.events] using reads⟩

/-- One round reads spaces and at most one item, and ends behind spaces. -/
theorem skipMiscRound_reads {s t : ParserState} {turn : Unit} {step : LoopStep Unit Unit}
    (sound : Sound p.options.version s)
    (returned : (p.skipMiscRound turn).run s = (.ok step, t)) :
    ReadsMiscs (p.dialect s.dtd.entities) s t ∧
      (step = .done () → StopsAt isSpace t.rest ∧ startsWith (u32 "<!--") t.rest = false ∧
        startsWith (u32 "<?") t.rest = false) := by
  unfold skipMiscRound at returned
  rw [run_look_bind] at returned
  obtain ⟨_, s1, skipped, rest1⟩ := bind_eq_ok.mp returned
  have first : ReadsMiscs (p.dialect s.dtd.entities) s s1 :=
    p.skipWhitespace_readsMiscs skipped
  obtain ⟨_, _, reads1, stops, _⟩ := p.skipWhitespace_reads skipped
  rw [run_look_bind, run_look_bind] at rest1
  split at rest1
  · obtain ⟨_, _, parsed, finished⟩ := bind_eq_ok.mp rest1
    cases finished
    have second := p.parseComment_readsMiscs (reads1.sound sound) parsed
    rw [reads1.dtd] at second
    exact ⟨first.trans second, fun same => nomatch same⟩
  rename_i notComment
  rw [run_look_bind] at rest1
  split at rest1
  · obtain ⟨_, _, parsed, finished⟩ := bind_eq_ok.mp rest1
    cases finished
    have second := p.parseProcessingInstruction_readsMiscs (reads1.sound sound) parsed
    rw [reads1.dtd] at second
    exact ⟨first.trans second, fun same => nomatch same⟩
  rename_i notInstruction
  split at rest1
  · cases rest1
    exact ⟨first, fun same => nomatch same⟩
  · cases rest1
    exact ⟨first, fun _ => ⟨stops, by simpa using notComment, by simpa using notInstruction⟩⟩

theorem skipMisc_reads {s t : ParserState} {result : Unit} (sound : Sound p.options.version s)
    (returned : p.skipMisc.run s = (.ok result, t)) :
    ReadsMiscs (p.dialect s.dtd.entities) s t ∧ StopsAt isSpace t.rest ∧
      startsWith (u32 "<!--") t.rest = false ∧ startsWith (u32 "<?") t.rest = false := by
  have shrinks := shrinks_of_advances p.skipMiscRound_movesOn
  unfold skipMisc at returned
  generalize current : () = turn at returned
  induction turn, s using loop_induction shrinks with
  | round turn s ih =>
      cases ran : (p.skipMiscRound turn).run s with
      | mk outcome next =>
          cases outcome with
          | error error =>
              rw [run_loop_of_error shrinks ran] at returned
              cases returned
          | ok step =>
              obtain ⟨first, ends⟩ := p.skipMiscRound_reads sound ran
              cases step with
              | done result =>
                  rw [run_loop_of_done shrinks ran] at returned
                  cases returned
                  exact ⟨first, ends rfl⟩
              | next following =>
                  rw [run_loop_of_next shrinks ran] at returned
                  obtain ⟨_, _, reads⟩ := id first
                  obtain ⟨second, ends⟩ := ih following next ran (reads.sound sound) rfl returned
                  rw [reads.dtd] at second
                  exact ⟨first.trans second, ends⟩

/-- A document without declarations in front of its element. -/
theorem skipMisc_twice_reads {s1 s2 s3 : ParserState} {first second : Unit}
    (sound : Sound p.options.version s1) (skipped : p.skipMisc.run s1 = (.ok first, s2))
    (again : p.skipMisc.run s2 = (.ok second, s3)) :
    ReadsMiscs (p.dialect s1.dtd.entities) s1 s3 := by
  obtain ⟨before, _⟩ := p.skipMisc_reads sound skipped
  obtain ⟨_, _, reads⟩ := id before
  obtain ⟨after, _⟩ := p.skipMisc_reads (reads.sound sound) again
  rw [reads.dtd] at after
  exact before.trans after

end Parser

/-! ## Documents -/

/-- The text begins with an XML declaration. -/
def HasXmlDeclaration (text : Text) : Prop :=
  ∃ c rest, text = u32 "<?xml" ++ c :: rest ∧ IsSpace c

/-- A document type declaration follows the items in front of the element. -/
def HasDoctype (d : Dialect) (text : Text) : Prop :=
  ∃ miscs rest, (∀ misc ∈ miscs, misc.Readable d) ∧
    text = renderMiscs miscs ++ (u32 "<!DOCTYPE" ++ rest)

/-- Between two states the parser has delivered events, and kept its stacks. -/
structure Precedes (s t : ParserState) (events : List Event) : Prop where
  rest : Ahead s.rest t.rest
  namespaceScopes : t.namespaceScopes = s.namespaceScopes
  events : t.events.map Event.withoutLocations = s.events.map Event.withoutLocations ++ events

theorem Precedes.trans {r s t : ParserState} {before after : List Event}
    (first : Precedes r s before) (second : Precedes s t after) :
    Precedes r t (before ++ after) := by
  refine ⟨second.rest.trans first.rest, second.namespaceScopes.trans first.namespaceScopes, ?_⟩
  rw [second.events, first.events, List.append_assoc]

theorem Reads.precedes {s t : ParserState} {text : Text} {events : List Event}
    (reads : Reads s t text events) : Precedes s t events :=
  ⟨reads.ahead, reads.namespaceScopes, reads.events⟩

theorem Still.precedes {s t : ParserState} (still : Still s t) : Precedes s t [] := by
  refine ⟨still.rest, still.namespaceScopes, ?_⟩
  have same : t.events = s.events := congrArg (List.map Delivery.event) still.trace
  rw [same, List.append_nil]

namespace Parser

variable (p : Parser)

/-- The element and what follows it. -/
theorem parseRest_reads {fuel : Nat} {s t : ParserState} {result : Unit}
    (sound : Sound p.options.version s) (outside : s.namespaceScopes = [])
    (returned : (do
      p.parseElement fuel
      p.skipMisc
      if !(← look eof) then
        p.failHere .wellFormedness "extra content after document element"
      else
        p.emit .endDocument : ParserM Unit).run s = (.ok result, t)) :
    ∃ tag body epilog, (elementContent tag body .nil).Readable (p.dialect s.dtd.entities) ∧
      (∀ misc ∈ epilog, misc.Readable (p.dialect s.dtd.entities)) ∧
      (elementContent tag body .nil).Named p.options.namespaces [] ∧
      Reads s t ((elementContent tag body .nil).render ++ renderMiscs epilog)
        ((elementContent tag body .nil).events p.options.namespaces [] [] ++
          (miscEvents epilog ++ [.endDocument])) ∧ t.rest = [] := by
  obtain ⟨_, s1, parsed, rest1⟩ := bind_eq_ok.mp returned
  have scopes : scopesOf p.options.namespaces [] = [] := by
    cases p.options.namespaces with
    | enabled => rfl
    | disabled => rfl
  obtain ⟨tag, body, readable, named, reads⟩ :=
    p.parseElement_reads fuel [] s s1 () sound (outside.trans scopes.symm) parsed
  obtain ⟨_, s2, skipped, rest2⟩ := bind_eq_ok.mp rest1
  obtain ⟨⟨epilog, readableEpilog, readsEpilog⟩, _⟩ := p.skipMisc_reads (reads.sound sound) skipped
  rw [reads.dtd] at readableEpilog
  rw [run_look_bind] at rest2
  split at rest2
  · cases rest2
  rename_i ended
  obtain ⟨rfl, _⟩ := p.emit_eq_ok_iff.mp rest2
  have exhausted : s2.rest = [] := by simpa [eof] using ended
  refine ⟨tag, body, epilog, readable, readableEpilog, named, ?_, exhausted⟩
  have whole := (reads.trans readsEpilog).trans (reads_deliver s2 .endDocument)
  simpa [Event.withoutLocations] using whole

/-- What `parse` does in front of the document element. -/
def parseProlog : ParserM Unit := do
  p.emit .startDocument
  scan p.parseXmlDeclarationIfPresent
  p.skipMisc
  p.parseDoctypeIfPresent
  p.skipMisc

theorem parse_eq_prolog : p.parse = (do
    p.parseProlog
    p.parseElement ((← look List.length) + 1)
    p.skipMisc
    if !(← look eof) then
      p.failHere .wellFormedness "extra content after document element"
    else
      p.emit .endDocument) := by
  unfold parse parseProlog
  simp only [bind_assoc]

/-- The prologue delivers the events of its misc items, and leaves the parser
outside every element. -/
theorem parseProlog_precedes {chars : List DecodedChar} {s : ParserState} {result : Unit}
    (legal : Legal p.options.version (values chars))
    (returned : p.parseProlog.run { rest := chars } = (.ok result, s)) :
    ∃ miscs, Sound p.options.version s ∧ (∀ misc ∈ miscs, misc.Readable (p.dialect [])) ∧
      Precedes { rest := chars } s (.startDocument :: miscEvents miscs) := by
  unfold parseProlog at returned
  obtain ⟨_, s1, started, rest1⟩ := bind_eq_ok.mp returned
  obtain ⟨rfl, _⟩ := p.emit_eq_ok_iff.mp started
  have sound1 : Sound p.options.version (ParserState.deliver .startDocument { rest := chars }) :=
    ⟨legal, List.forall_mem_nil _⟩
  obtain ⟨_, s2, declared, rest2⟩ := bind_eq_ok.mp rest1
  have quiet2 := (p.quietly_scan p.scans_parseXmlDeclarationIfPresent).of_run declared
  obtain ⟨_, s3, skipped3, rest3⟩ := bind_eq_ok.mp rest2
  obtain ⟨⟨miscs3, readable3, reads3⟩, _⟩ := p.skipMisc_reads (quiet2.sound sound1) skipped3
  obtain ⟨_, s4, doctype, skipped5⟩ := bind_eq_ok.mp rest3
  have quiet4 := p.quietly_parseDoctypeIfPresent.of_run doctype
  have sound4 := quiet4.sound (reads3.sound (quiet2.sound sound1))
  obtain ⟨⟨miscs5, readable5, reads5⟩, _⟩ := p.skipMisc_reads sound4 skipped5
  have started := (reads_deliver { rest := chars } .startDocument).precedes
  have precedes := (((started.trans quiet2.toStill.precedes).trans reads3.precedes).trans
    quiet4.toStill.precedes).trans reads5.precedes
  have readable : ∀ misc ∈ miscs3 ++ miscs5, misc.Readable (p.dialect []) := by
    have literal : ∀ entities c, (p.dialect entities).literal c → (p.dialect []).literal c :=
      fun _ _ literal => literal
    intro misc member
    cases List.mem_append.mp member with
    | inl left => exact (readable3 misc left).of_literal (literal _)
    | inr right => exact (readable5 misc right).of_literal (literal _)
  refine ⟨miscs3 ++ miscs5, reads5.sound sound4, readable, ?_⟩
  rw [miscEvents_append]
  simpa [Event.withoutLocations] using precedes

/-- Behind the prologue of an accepted document are an element and misc items,
whose events are delivered behind those of the prologue. -/
theorem parse_reads_element {chars : List DecodedChar} {t : ParserState} {result : Unit}
    (legal : Legal p.options.version (values chars))
    (returned : p.parse.run { rest := chars } = (.ok result, t)) :
    ∃ s miscs tag body epilog, p.parseProlog.run { rest := chars } = (.ok (), s) ∧
      (∀ misc ∈ miscs, misc.Readable (p.dialect [])) ∧
      (elementContent tag body .nil).Readable (p.dialect s.dtd.entities) ∧
      (∀ misc ∈ epilog, misc.Readable (p.dialect s.dtd.entities)) ∧
      (elementContent tag body .nil).Named p.options.namespaces [] ∧
      values s.rest = (elementContent tag body .nil).render ++ renderMiscs epilog ∧
      t.events.map Event.withoutLocations = .startDocument :: (miscEvents miscs ++
        ((elementContent tag body .nil).events p.options.namespaces [] [] ++
          (miscEvents epilog ++ [.endDocument]))) := by
  rw [parse_eq_prolog] at returned
  obtain ⟨_, s, prolog, rest⟩ := bind_eq_ok.mp returned
  obtain ⟨miscs, sound, readableMiscs, precedes⟩ := p.parseProlog_precedes legal prolog
  rw [run_look_bind] at rest
  obtain ⟨tag, body, epilog, readable, readableEpilog, named, reads, ended⟩ :=
    p.parseRest_reads sound precedes.namespaceScopes rest
  refine ⟨s, miscs, tag, body, epilog, prolog, readableMiscs, readable, readableEpilog, named, ?_, ?_⟩
  · obtain ⟨consumed, split, spelled⟩ := reads.rest
    rw [ended, List.append_nil] at split
    rw [split, spelled]
  · rw [reads.events, precedes.events]
    simp [ParserState.events]

/-- What `peek(5)` sees behind `<?xml`. -/
theorem peekAt_opening {opening after : List DecodedChar} (opened : values opening = u32 "<?xml") :
    peekAt 5 (opening ++ after) = peek after := by
  have length : opening.length = 5 := by
    rw [← values_length, opened]
    rfl
  unfold peek peekAt
  rw [List.getElem?_append_right (by omega), length]

theorem run_parseXmlDeclarationIfPresent_of_none {rest : List DecodedChar}
    (none : ¬ HasXmlDeclaration (values rest)) :
    p.parseXmlDeclarationIfPresent.run rest = (.ok (), rest) := by
  unfold parseXmlDeclarationIfPresent
  rw [run_read_bind, run_read_bind]
  refine congrArg (fun source : Cursor Unit => source.run rest) (if_pos ?_)
  cases starts : startsWith (u32 "<?xml") rest with
  | false => rfl
  | true =>
      obtain ⟨consumed, after, rfl, same⟩ := startsWith_split starts
      rw [peekAt_opening same]
      cases isSpaceNext : isSpace (peek after) with
      | false => rfl
      | true =>
          cases after with
          | nil => cases isSpaceNext
          | cons c after =>
              refine absurd ⟨c.value, values after, ?_, isSpace_iff.mp isSpaceNext⟩ none
              rw [values_append, same, values_cons]

theorem run_parseDoctypeIfPresent_of_none {s : ParserState}
    (none : startsWith (u32 "<!DOCTYPE") s.rest = false) :
    p.parseDoctypeIfPresent.run s = (.ok (), s) := by
  unfold parseDoctypeIfPresent
  rw [run_look_bind, none]
  rfl

/-- An accepted document without declarations is the spelling of a tree, and
its events are those of the tree. -/
theorem parse_reads_document {chars : List DecodedChar} {t : ParserState} {result : Unit}
    (legal : Legal p.options.version (values chars))
    (noDeclaration : ¬ HasXmlDeclaration (values chars))
    (noDoctype : ¬ HasDoctype (p.dialect []) (values chars))
    (returned : p.parse.run { rest := chars } = (.ok result, t)) :
    ∃ document : Document, document.Readable (p.dialect []) ∧
      document.Named p.options.namespaces ∧ document.render = values chars ∧
      t.events.map Event.withoutLocations = document.events p.options.namespaces := by
  unfold parse at returned
  obtain ⟨_, s1, started, rest1⟩ := bind_eq_ok.mp returned
  obtain ⟨rfl, _⟩ := p.emit_eq_ok_iff.mp started
  have sound : Sound p.options.version (ParserState.deliver .startDocument { rest := chars }) :=
    ⟨legal, List.forall_mem_nil _⟩
  obtain ⟨_, s2, declared, rest2⟩ := bind_eq_ok.mp rest1
  obtain ⟨after, ran, rfl⟩ := run_scan_eq_ok_iff.mp declared
  have undeclared := p.run_parseXmlDeclarationIfPresent_of_none noDeclaration
  rw [show (ParserState.deliver .startDocument { rest := chars }).rest = chars from rfl,
    undeclared] at ran
  cases ran
  obtain ⟨_, s3, skipped3, rest3⟩ := bind_eq_ok.mp rest2
  obtain ⟨reads3, _⟩ := p.skipMisc_reads sound skipped3
  obtain ⟨_, s4, doctype, rest4⟩ := bind_eq_ok.mp rest3
  have noDoctypeHere : startsWith (u32 "<!DOCTYPE") s3.rest = false := by
    cases starts : startsWith (u32 "<!DOCTYPE") s3.rest with
    | false => rfl
    | true =>
        obtain ⟨miscs, readable, reads⟩ := reads3
        obtain ⟨consumed, split, spelled⟩ := reads.rest
        obtain ⟨keyword, others, splitRest, same⟩ := startsWith_split starts
        refine absurd ⟨miscs, values others, readable, ?_⟩ noDoctype
        have whole : chars = consumed ++ (keyword ++ others) := splitRest ▸ split
        rw [whole, values_append, values_append, spelled, same]
  rw [p.run_parseDoctypeIfPresent_of_none noDoctypeHere] at doctype
  cases doctype
  obtain ⟨_, s5, skipped5, rest5⟩ := bind_eq_ok.mp rest4
  obtain ⟨prolog, readableProlog, readsProlog⟩ := p.skipMisc_twice_reads sound skipped3 skipped5
  rw [run_look_bind] at rest5
  obtain ⟨tag, body, epilog, readable, readableEpilog, named, reads, ended⟩ :=
    p.parseRest_reads (readsProlog.sound sound) readsProlog.namespaceScopes rest5
  rw [readsProlog.dtd] at readable readableEpilog
  have whole := readsProlog.trans reads
  refine ⟨⟨prolog, tag, body, epilog⟩, ⟨readableProlog, readable, readableEpilog⟩, named, ?_, ?_⟩
  · obtain ⟨consumed, split, spelled⟩ := whole.rest
    rw [ended, List.append_nil] at split
    have same : chars = consumed := split
    rw [same, spelled]
    rfl
  · rw [whole.events]
    rfl

end Parser

end XmlParser
