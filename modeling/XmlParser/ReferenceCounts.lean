import XmlParser.EntityTables
import XmlParser.Library.Triple

/-! The counter of `parse_reference` and `expand_entity_text` counts references: how far
it moves is how many references of the text read have been begun, direct and nested. -/

set_option autoImplicit false

namespace XmlParser

open XmlParser.Computation Comp Macros
open Grammar (Text Name NameChar Spaces)

namespace Parser

variable (p : Parser)

/-! ## Texts -/

/-- The text has so many references, those in replacement texts included. -/
def References (entities : List (Bytes × Bytes)) (text : Text) (count : Nat) : Prop :=
  ∃ expansion, (p.entitySystem entities).Valid expansion ∧
    (p.entitySystem entities).text expansion = toAscii text ∧ expansion.calls = count

/-- A reference that has been begun and not been replaced, and how many that makes: its
name has no end yet, or it stands for nothing or is one too many, or its replacement
text has been expanded in part. -/
inductive Begins (entities : List (Bytes × Bytes)) : Text → Nat → Prop
  | nothing : Begins entities [] 0
  | cut {name : Text} : 0x3B ∉ name → Begins entities (0x26 :: name) 1
  | refused {name : Text} : 0x3B ∉ name → Begins entities (0x26 :: (name ++ [0x3B])) 1
  | inside {name : Text} {body : Bytes} {begun : Nat} : 0x3B ∉ name →
      (p.entitySystem entities).constant (toAscii name) = none →
      (p.entitySystem entities).body (toAscii name) = some body →
      (p.entitySystem entities).Breaks body begun → Begins entities (0x26 :: (name ++ [0x3B])) (1 + begun)

variable {p} {entities : List (Bytes × Bytes)} {start : SourceLocation} {nested : Bytes → Comp Nat Halt Bytes}

theorem References.append {text other : Text} {count more : Nat} (first : p.References entities text count)
    (second : p.References entities other more) : p.References entities (text ++ other) (count + more) := by
  obtain ⟨expansion, valid, spelled, rfl⟩ := first
  obtain ⟨others, validOthers, spelledOthers, rfl⟩ := second
  refine ⟨expansion.append others, valid.append validOthers, ?_, Expansion.calls_append _ _⟩
  rw [System.text_append, spelled, spelledOthers, toAscii_append]

/-- A text without ampersands has no references. -/
theorem references_plain {text : Text} (plain : 0x26 ∉ text) : p.References entities text 0 :=
  ⟨(toAscii text).foldr Expansion.symbol .nil,
    System.valid_foldr_symbol (not_mem_toAscii (by decide) (by decide) plain), System.text_foldr_symbol _,
    Expansion.calls_foldr_symbol _⟩

theorem References.eq_zero {text : Text} {count : Nat} (references : p.References entities text count)
    (plain : 0x26 ∉ text) : count = 0 := by
  obtain ⟨expansion, _, spelled, rfl⟩ := references
  refine System.calls_eq_zero ((?_ : (p.entitySystem entities).opening ∉ (p.entitySystem entities).text expansion))
  rw [spelled]
  exact not_mem_toAscii (by decide) (by decide) plain

/-- The expansion of a reference that stands for something. -/
theorem Denotes.exists_expansion {name value : Bytes} {calls : Nat} (denotes : p.Denotes entities name value calls)
    (closed : 0x3B ∉ name) :
    ∃ expansion, (p.entitySystem entities).Valid expansion ∧
      (p.entitySystem entities).text expansion = (p.entitySystem entities).reference name ∧
      expansion.calls = 1 + calls := by
  rcases denotes with ⟨known, rfl⟩ | ⟨unknown, inner, declared, valid, rfl, rfl⟩
  · exact ⟨.constant name value .nil, ⟨closed, known, trivial⟩, List.append_nil _, rfl⟩
  · exact ⟨.call name inner .nil, ⟨closed, unknown, declared, valid, trivial⟩, List.append_nil _, rfl⟩

theorem references_reference {name : Text} {value : Bytes} {calls : Nat} (closed : 0x3B ∉ name)
    (denotes : p.Denotes entities (toAscii name) value calls) :
    p.References entities (0x26 :: (name ++ [0x3B])) (1 + calls) := by
  obtain ⟨expansion, valid, spelled, counted⟩ := denotes.exists_expansion (closed_toAscii closed)
  exact ⟨expansion, valid, spelled.trans (toAscii_reference name).symm, counted⟩

/-! ## Expansions -/

/-- A reference that is refused has not been expanded, or in part. -/
theorem expandReference_eq_error {before after : Nat} {name : Bytes} {halt : Halt}
    (threw : (p.expandReference entities start nested name).run before = (.error halt, after)) :
    after = before ∨ (p.entitySystem entities).constant name = none ∧
      ∃ body, (p.entitySystem entities).body name = some body ∧ (nested body).run before = (.error halt, after) := by
  unfold expandReference at threw
  unfold entitySystem
  dsimp only
  cases known : predefined name with
  | some value =>
      rw [known] at threw
      cases threw
  | none =>
      rw [known] at threw
      dsimp only at threw ⊢
      by_cases marked : name.head? = some 0x23
      · rw [if_pos (beq_iff_eq.mpr marked)] at threw
        have unmoved : Obeys Eq Halt.IsThrown (p.parseCharacterReference name start : Comp Nat Halt Bytes) :=
          p.obeys_parseCharacterReference name start
        exact .inl (unmoved.of_run threw).symm
      · rw [if_neg (mt beq_iff_eq.mp marked)] at threw
        have unread : characterReference? p.options.version name = none := by
          rw [Option.eq_none_iff_forall_ne_some]
          exact fun value read => marked (characterReference?_head read)
        cases found : lookupKey name entities with
        | none =>
            rw [found] at threw
            cases threw
            exact .inl rfl
        | some replacement =>
            rw [found] at threw
            exact .inr ⟨unread, replacement, if_neg marked, threw⟩

/-- What a nested call that throws has to have done, from a count on. -/
def CountsBreaks (p : Parser) (entities : List (Bytes × Bytes)) (nested : Bytes → Comp Nat Halt Bytes)
    (lower : Nat) : Prop :=
  ∀ text before after halt, lower ≤ before → before ≤ p.options.maxEntityExpansions →
    (nested text).run before = (.error halt, after) →
      ∃ begun, (p.entitySystem entities).Breaks text begun ∧ after = before + begun

variable (p) in
theorem countExpansion_eq_error {before after : Nat} {halt : Halt}
    (threw : (p.countExpansion start).run before = (.error halt, after)) : after = before + 1 := by
  by_cases room : before + 1 ≤ p.options.maxEntityExpansions
  · rw [p.run_countExpansion start room] at threw
    cases threw
  · rw [p.run_countExpansion_beyond start room] at threw
    cases threw
    rfl

theorem reference_append (name more : Bytes) :
    (p.entitySystem entities).reference name ++ more = 0x26 :: (name ++ 0x3B :: more) := by
  simp [System.reference, entitySystem]

/-- A round on an ampersand throws before the reference, at it or behind it. -/
theorem breaks_of_expandRound {lower : Nat} (evaluates : p.Evaluates entities nested (lower + 1))
    (counts : p.CountsBreaks entities nested (lower + 1)) {rest expanded : Bytes} {before after : Nat}
    {halt : Halt} (reached : lower ≤ before)
    (threw : (p.expandRound entities start nested (0x26 :: rest, expanded)).run before = (.error halt, after)) :
    ∃ begun, (p.entitySystem entities).Breaks (0x26 :: rest) begun ∧ after = before + begun := by
  by_cases ended : 0x3B ∈ rest
  · obtain ⟨name, more, rfl, closed⟩ := List.eq_append_cons_of_mem ended
    have here : (p.entitySystem entities).Breaks ((p.entitySystem entities).reference name ++ more) 1 :=
      .refused .nil more trivial closed
    rw [p.expandRound_reference closed] at threw
    rw [reference_append] at here
    rcases bind_eq_error.mp threw with uncounted | ⟨_, _, counted, threw⟩
    · exact ⟨1, here, p.countExpansion_eq_error uncounted⟩
    obtain ⟨rfl, room⟩ := p.countExpansion_eq_ok_iff.mp counted
    rcases bind_eq_error.mp threw with refused | ⟨value, _, expands, threw⟩
    · rcases expandReference_eq_error refused with rfl | ⟨unknown, body, declared, inner⟩
      · exact ⟨1, here, rfl⟩
      · obtain ⟨begun, breaks, rfl⟩ := counts _ _ _ _ (by omega) room inner
        refine ⟨1 + begun, ?_, by omega⟩
        have inside := System.Breaks.inside .nil more trivial closed unknown declared breaks
        rwa [Expansion.calls, Nat.zero_add, reference_append] at inside
    · obtain ⟨calls, denotes, rfl, _⟩ := denotes_of_expandReference evaluates (by omega) room expands
      obtain ⟨front, valid, isReference, taken⟩ := denotes.exists_expansion closed
      split at threw
      · cases threw
        have behind := System.Breaks.behind front more valid
        rw [isReference, taken, reference_append] at behind
        exact ⟨1 + calls, behind, by omega⟩
      · cases threw
  · rw [expandRound, if_neg (by decide), if_pos (by simpa using ended)] at threw
    cases threw
    exact ⟨0, .behind .nil _ trivial, rfl⟩

theorem breaks_of_expandLoop {lower : Nat} (evaluates : p.Evaluates entities nested (lower + 1))
    (counts : p.CountsBreaks entities nested (lower + 1)) {text expanded : Bytes} {before after : Nat}
    {halt : Halt} (reached : lower ≤ before) (room : before ≤ p.options.maxEntityExpansions)
    (threw : (loop (fun current _ => current.1.length) Halt.outOfFuel (p.expandRound entities start nested)
      (text, expanded)).run before = (.error halt, after)) :
    ∃ begun, (p.entitySystem entities).Breaks text begun ∧ after = before + begun := by
  have shrinks := p.expandRound_shrinks entities start nested
  generalize bound : text.length = limit
  induction limit using Nat.strongRecOn generalizing text expanded before with
  | ind limit ih =>
      cases text with
      | nil =>
          have done : (p.expandRound entities start nested ([], expanded)).run before =
              (.ok (.done expanded), before) := rfl
          rw [run_loop_of_done shrinks done] at threw
          cases threw
      | cons ch rest =>
          rw [List.length_cons] at bound
          by_cases ampersand : ch = 0x26
          · subst ampersand
            cases ran : (p.expandRound entities start nested (0x26 :: rest, expanded)).run before with
            | mk outcome between =>
                cases outcome with
                | error error =>
                    rw [run_loop_of_error shrinks ran] at threw
                    cases threw
                    exact breaks_of_expandRound evaluates counts reached ran
                | ok step =>
                    obtain ⟨name, more, value, calls, rfl, closed, denotes, _, rfl, fits, rfl⟩ :=
                      (expandRound_eq_ok_iff_denotes evaluates reached).mp ran
                    rw [List.length_append, List.length_cons] at bound
                    rw [run_loop_of_next shrinks ran] at threw
                    obtain ⟨begun, breaks, rfl⟩ := ih more.length (by omega) (by omega) fits threw rfl
                    obtain ⟨front, valid, isReference, taken⟩ := denotes.exists_expansion closed
                    have after := breaks.after valid
                    rw [isReference, taken, reference_append] at after
                    exact ⟨1 + calls + begun, after, by omega⟩
          · rw [run_loop_of_next shrinks (p.expandRound_of_ne entities start nested ampersand rest
              expanded before)] at threw
            obtain ⟨begun, breaks, rfl⟩ := ih rest.length (by omega) reached room threw rfl
            have one : (p.entitySystem entities).Valid (.symbol ch .nil) := ⟨ampersand, trivial⟩
            have after := breaks.after one
            exact ⟨begun, by simpa [System.text, Expansion.calls] using after, rfl⟩

/-- What has been counted when a call throws. -/
theorem breaks_of_expandEntityText {fuel depth before after : Nat} {text : Bytes} {halt : Halt}
    (enough : p.options.maxEntityExpansions < fuel + before) (deep : depth ≤ before)
    (room : before ≤ p.options.maxEntityExpansions)
    (threw : (p.expandEntityText entities start fuel depth text).run before = (.error halt, after)) :
    ∃ begun, (p.entitySystem entities).Breaks text begun ∧ after = before + begun := by
  induction fuel generalizing depth text before after halt with
  | zero => omega
  | succ fuel ih =>
      have evaluates : p.Evaluates entities (p.expandEntityText entities start fuel (depth + 1)) (before + 1) := by
        intro text between value after reached room
        exact expandEntityText_eq_ok_iff (by omega) (by omega) room
      have counts : p.CountsBreaks entities (p.expandEntityText entities start fuel (depth + 1)) (before + 1) := by
        intro text between after halt reached room threw
        exact ih (by omega) (by omega) room threw
      unfold expandEntityText at threw
      rw [if_neg (by omega)] at threw
      exact breaks_of_expandLoop evaluates counts (Nat.le_refl _) room threw

/-- At the top an undeclared name throws another error, and that is all. -/
theorem resolveReference_eq (name : Bytes) (before : Nat) :
    (p.resolveReference entities name start).run before =
        (p.expandReference entities start
          (p.expandEntityText entities start (p.options.maxEntityExpansions + 2) 0) name).run before ∨
      ∃ halt, (p.resolveReference entities name start).run before = (.error halt, before) := by
  unfold resolveReference expandReference
  cases predefined name with
  | some value => exact .inl rfl
  | none =>
      dsimp only
      by_cases marked : name.head? = some 0x23
      · rw [if_pos (beq_iff_eq.mpr marked), if_pos (beq_iff_eq.mpr marked)]
        exact .inl rfl
      · rw [if_neg (mt beq_iff_eq.mp marked), if_neg (mt beq_iff_eq.mp marked)]
        cases lookupKey name entities with
        | some replacement => exact .inl rfl
        | none =>
            refine .inr ?_
            dsimp only
            split
            · exact ⟨_, rfl⟩
            · exact ⟨_, rfl⟩

theorem counts_of_resolveReference {name value : Bytes} {before after : Nat}
    (room : before ≤ p.options.maxEntityExpansions)
    (returned : (p.resolveReference entities name start).run before = (.ok value, after)) :
    ∃ calls, p.Denotes entities name value calls ∧ after = before + calls := by
  have evaluates : p.Evaluates entities
      (p.expandEntityText entities start (p.options.maxEntityExpansions + 2) 0) 0 :=
    fun text between value after _ room => expandEntityText_eq_ok_iff (by omega) (Nat.zero_le _) room
  rcases @resolveReference_eq p entities start name before with same | ⟨halt, threw⟩
  · rw [same] at returned
    obtain ⟨calls, denotes, counted, _⟩ :=
      denotes_of_expandReference evaluates (Nat.zero_le _) room returned
    exact ⟨calls, denotes, counted⟩
  · rw [threw] at returned
    cases returned

/-- A reference that does not resolve counts as begun. -/
theorem begins_of_resolveReference {name : Text} {before after : Nat} {halt : Halt} (closed : 0x3B ∉ name)
    (room : before ≤ p.options.maxEntityExpansions)
    (threw : (p.resolveReference entities (toAscii name) start).run before = (.error halt, after)) :
    ∃ begun, p.Begins entities (0x26 :: (name ++ [0x3B])) (1 + begun) ∧ after = before + begun := by
  rcases @resolveReference_eq p entities start (toAscii name) before with same | ⟨other, stopped⟩
  · rw [same] at threw
    rcases expandReference_eq_error threw with rfl | ⟨unknown, body, declared, inner⟩
    · exact ⟨0, .refused closed, rfl⟩
    · obtain ⟨begun, breaks, rfl⟩ := breaks_of_expandEntityText (by omega) (Nat.zero_le _) room inner
      exact ⟨begun, .inside closed unknown declared breaks, rfl⟩
  · rw [stopped] at threw
    cases threw
    exact ⟨0, .refused closed, rfl⟩

/-! ## What scanning consumes -/

/-- What lies between two positions are characters with a property. -/
def Crosses (allowed : Nat → Prop) (before after : List DecodedChar) : Prop :=
  ∃ consumed, before = consumed ++ after ∧ ∀ c ∈ values consumed, allowed c

instance (allowed : Nat → Prop) : Std.Refl (Crosses allowed) := ⟨fun _ => ⟨[], rfl, List.forall_mem_nil _⟩⟩

instance (allowed : Nat → Prop) : IsTrans (List DecodedChar) (Crosses allowed) := ⟨by
  rintro _ _ after ⟨first, rfl, allowedFirst⟩ ⟨second, rfl, allowedSecond⟩
  refine ⟨first ++ second, (List.append_assoc _ _ _).symm, ?_⟩
  rw [values_append]
  exact List.forall_mem_append.mpr ⟨allowedFirst, allowedSecond⟩⟩

/-- Whatever the outcome, a scanner consumes such characters only. -/
abbrev ConsumesOnly {α : Type} (allowed : Nat → Prop) (source : Cursor α) : Prop :=
  Obeys (Crosses allowed) Halt.IsThrown source

theorem crosses_one {allowed : Nat → Prop} {c : DecodedChar} {rest : List DecodedChar} (holds : allowed c.value) :
    Crosses allowed (c :: rest) rest := ⟨[c], rfl, List.forall_mem_singleton.mpr holds⟩

theorem Crosses.mono {allowed wider : Nat → Prop} (entails : ∀ c, allowed c → wider c)
    {before after : List DecodedChar} (crosses : Crosses allowed before after) : Crosses wider before after := by
  obtain ⟨consumed, split, holds⟩ := crosses
  exact ⟨consumed, split, fun c member => entails c (holds c member)⟩

/-- A loop over the characters with a property, whose rounds take one or throw in front
of it. -/
theorem consumesOnly_whilePeek {β : Type} {condition : Nat → Bool} {body : β → Cursor β} {push : β → Nat → β}
    {Fits : β → Prop} (buffers : Buffers body push Fits)
    (stays : ∀ buffer c rest halt final, (body buffer).run (c :: rest) = (.error halt, final) → final = c :: rest)
    (start : β) (scans : Scans (whilePeek condition body start)) :
    ConsumesOnly (condition · = true) (whilePeek condition body start) := by
  intro rest
  refine ⟨?_, (scans rest).2⟩
  clear scans
  have consumes : Comp.Consumes List.length (fun rest => !eof rest && condition (peek rest)) body :=
    buffers.consumes rfl
  unfold whilePeek
  induction rest generalizing start with
  | nil =>
      rw [run_whileLoop_of_false consumes rfl]
      exact Std.Refl.refl _
  | cons c rest ih =>
      by_cases holds : condition c.value = true
      · have goesOn : (!eof (c :: rest) && condition (peek (c :: rest))) = true := holds
        rw [run_whileLoop_of_true consumes goesOn, run_bind]
        cases ran : (body start).run (c :: rest) with
        | mk outcome next =>
            cases outcome with
            | error halt =>
                rw [stays _ _ _ _ _ ran]
                exact Std.Refl.refl _
            | ok following =>
                obtain ⟨_, rfl, _⟩ := (buffers.cons _ _ _ _ _).mp ran
                exact IsTrans.trans _ _ _ (crosses_one holds) (ih following)
      · have stops : (!eof (c :: rest) && condition (peek (c :: rest))) = false := by
          simpa using holds
        rw [run_whileLoop_of_false consumes stops]
        exact Std.Refl.refl _

variable (p) in
theorem pushPeek_stays (start : SourceLocation) (buffer : List Nat) (c : DecodedChar) (rest : List DecodedChar)
    (halt : Halt) (final : List DecodedChar)
    (threw : (p.pushPeek start buffer).run (c :: rest) = (.error halt, final)) : final = c :: rest := by
  unfold pushPeek enforceTokenSize at threw
  rw [run_read_bind] at threw
  dsimp only at threw
  split at threw
  · cases threw
    rfl
  · cases threw

variable (p) in
theorem consumesOnly_whilePushing (condition : Nat → Bool) (start : SourceLocation) :
    ConsumesOnly (condition · = true) (whilePeek condition (p.pushPeek start) []) :=
  consumesOnly_whilePeek (p.pushPeek_buffers start) (p.pushPeek_stays start) [] (p.scans_whilePushing condition start)

/-- An ampersand is not crossed. -/
abbrev Plain (c : Nat) : Prop := c ≠ 0x26

theorem plain_of_condition {condition : Nat → Bool} (excludes : condition 0x26 = false) (c : Nat)
    (holds : condition c = true) : Plain c := by
  rintro rfl
  rw [excludes] at holds
  cases holds

variable (p) in
theorem plain_skipWhitespace : ConsumesOnly Plain p.skipWhitespace := by
  have spaces : ConsumesOnly (isSpace · = true) p.skipWhitespace :=
    consumesOnly_whilePeek p.advance_buffers (fun _ _ _ _ _ threw => by cases threw) () p.scans_skipWhitespace
  exact spaces.mono (fun _ _ => .mono (plain_of_condition (by decide))) fun _ => id

variable (p) in
theorem plain_parseName : ConsumesOnly Plain p.parseName := by
  refine obeys_bind (obeys_read _) fun start => obeys_bind (obeys_read _) fun next => ?_
  refine obeys_ite (fun _ => obeys_bind (obeys_read _) fun _ => obeys_failAt _ _ _) fun _ => ?_
  refine obeys_bind ?_ fun _ => obeys_pure _
  exact (p.consumesOnly_whilePushing isNameChar start).mono (fun _ _ => .mono (plain_of_condition (by decide)))
    fun _ => id

/-- What is expected is taken, or nothing is. -/
theorem consumesOnly_expect (value : Nat) (description : String) :
    ConsumesOnly (· = value) (p.expect value description) := by
  intro rest
  refine ⟨?_, (p.scans_expect value description rest).2⟩
  unfold expect
  rw [run_read_bind]
  split
  · exact Std.Refl.refl _
  · rename_i isNext
    cases rest with
    | nil => exact Std.Refl.refl _
    | cons c rest =>
        rw [run_advance_cons]
        exact crosses_one (by simpa using isNext)

/-- What is not there is not skipped. -/
theorem expect_eq_error {value : Nat} {description : String} {halt : Halt} {rest final : List DecodedChar}
    (threw : (p.expect value description).run rest = (.error halt, final)) : final = rest := by
  unfold expect at threw
  rw [run_read_bind] at threw
  split at threw
  · cases threw
    rfl
  · cases rest with
    | nil =>
        cases threw
        rfl
    | cons c rest =>
        rw [run_advance_cons] at threw
        cases threw

theorem plain_expect {value : Nat} (plain : value ≠ 0x26) (description : String) :
    ConsumesOnly Plain (p.expect value description) :=
  (consumesOnly_expect value description).mono (fun _ _ => .mono fun _ same => same ▸ plain) fun _ => id

theorem plain_expectSequence {word : Text} (plain : 0x26 ∉ word) (description : String) :
    ConsumesOnly Plain (p.expectSequence word description) := by
  intro rest
  refine ⟨?_, (p.scans_expectSequence word description rest).2⟩
  unfold expectSequence
  rw [run_read_bind]
  split
  · exact Std.Refl.refl _
  · rename_i starts
    obtain ⟨consumed, after, rfl, spelled⟩ := startsWith_split (by simpa using starts)
    have dropped : (consumed ++ after).drop word.length = after := by
      rw [← spelled, values_length, List.drop_left]
    exact ⟨consumed, congrArg (consumed ++ ·) dropped.symm, spelled ▸ fun c member same => plain (same ▸ member)⟩

/-! ## Members -/

variable (p) in
/-- The parser has read a text and replaced all references in it. -/
structure Refers (s t : ParserState) : Prop where
  dtd : t.dtd = s.dtd
  trace : t.trace = s.trace
  reads : ∃ consumed count, s.rest = consumed ++ t.rest ∧ p.References s.dtd.entities (values consumed) count ∧
    t.entityExpansions = s.entityExpansions + count

variable (p) in
/-- The parser has stopped behind such a text, or at a reference behind it. -/
structure BreaksOff (s t : ParserState) : Prop where
  trace : t.trace = s.trace
  reads : ∃ front cut count begun, s.rest = front ++ (cut ++ t.rest) ∧
    p.References s.dtd.entities (values front) count ∧ p.Begins s.dtd.entities (values cut) begun ∧
    t.entityExpansions = s.entityExpansions + (count + begun)

theorem Refers.refl (s : ParserState) : p.Refers s s :=
  ⟨rfl, rfl, [], 0, rfl, references_plain List.not_mem_nil, rfl⟩

theorem Refers.trans {r s t : ParserState} (first : p.Refers r s) (second : p.Refers s t) : p.Refers r t := by
  obtain ⟨before, count, split, references, counted⟩ := first.reads
  obtain ⟨behind, more, splitRest, others, countedRest⟩ := second.reads
  refine ⟨second.dtd.trans first.dtd, second.trace.trans first.trace, before ++ behind, count + more, ?_, ?_,
    by omega⟩
  · rw [split, splitRest, List.append_assoc]
  · rw [first.dtd] at others
    rw [values_append]
    exact references.append others

theorem Refers.breaksOff {r s t : ParserState} (first : p.Refers r s) (second : p.BreaksOff s t) :
    p.BreaksOff r t := by
  obtain ⟨before, count, split, references, counted⟩ := first.reads
  obtain ⟨front, cut, more, begun, splitRest, others, begins, countedRest⟩ := second.reads
  rw [first.dtd] at others begins
  refine ⟨second.trace.trans first.trace, before ++ front, cut, count + more, begun, ?_, ?_, begins, by omega⟩
  · rw [split, splitRest, List.append_assoc]
  · rw [values_append]
    exact references.append others

/-- Stopped where nothing has been begun. -/
theorem Refers.stops {s t : ParserState} (refers : p.Refers s t) : p.BreaksOff s t :=
  refers.breaksOff ⟨rfl, [], [], 0, 0, rfl, references_plain List.not_mem_nil, .nothing, rfl⟩

/-- A member that counts what it reads, whether it returns or throws. -/
abbrev Tallies (p : Parser) {α : Type} (source : ParserM α) : Prop :=
  ∀ origin, Triple (p.Refers origin) source (fun _ => p.Refers origin) fun _ => p.BreaksOff origin

theorem tallies_of_runs {α : Type} {source : ParserM α}
    (returns : ∀ s value t, source.run s = (.ok value, t) → p.Refers s t)
    (throws : ∀ s halt t, source.run s = (.error halt, t) → p.BreaksOff s t) : p.Tallies source :=
  fun _ s here => ⟨fun value t ran => here.trans (returns s value t ran),
    fun halt t ran => here.breaksOff (throws s halt t ran)⟩

theorem Tallies.returns {α : Type} {source : ParserM α} (tallies : p.Tallies source) {s t : ParserState} {value : α}
    (returned : source.run s = (.ok value, t)) : p.Refers s t :=
  (tallies s s (.refl s)).1 value t returned

theorem Tallies.throws {α : Type} {source : ParserM α} (tallies : p.Tallies source) {s t : ParserState} {halt : Halt}
    (threw : source.run s = (.error halt, t)) : p.BreaksOff s t :=
  (tallies s s (.refl s)).2 halt t threw

theorem tallies_throw {α : Type} (halt : Halt) : p.Tallies (Comp.throw halt : ParserM α) :=
  fun _ => triple_throw fun _ here => here.stops

theorem tallies_failHere {α : Type} (kind : ErrorKind) (message : String) :
    p.Tallies (p.failHere kind message : ParserM α) :=
  fun origin => triple_read_bind fun _ => tallies_throw _ origin

theorem refers_of_crosses {s : ParserState} {rest : List DecodedChar} (crosses : Crosses Plain s.rest rest) :
    p.Refers s (s.withRest rest) := by
  obtain ⟨consumed, split, plain⟩ := crosses
  exact ⟨rfl, rfl, consumed, 0, split, references_plain fun member => plain _ member rfl, rfl⟩

theorem tallies_scan {α : Type} {source : Cursor α} (plain : ConsumesOnly Plain source) : p.Tallies (scan source) := by
  refine tallies_of_runs (fun s value t returned => ?_) fun s halt t threw => ?_
  · obtain ⟨rest, ran, rfl⟩ := run_scan_eq_ok_iff.mp returned
    exact refers_of_crosses (plain.of_run ran)
  · obtain ⟨rest, ran, rfl⟩ := run_onPart_eq_iff.mp threw
    exact (refers_of_crosses (plain.of_run ran)).stops

theorem parseReference_refers {s t : ParserState} {bytes : Bytes}
    (returned : p.parseReference.run s = (.ok bytes, t)) : p.Refers s t := by
  obtain ⟨consumed, rest, name, count, split, spelled, ended, room, resolved, rfl⟩ :=
    p.parseReference_takes returned
  obtain ⟨calls, denotes, rfl⟩ := counts_of_resolveReference room resolved
  refine ⟨rfl, rfl, consumed, 1 + calls, split, ?_, Nat.add_assoc _ _ _⟩
  rw [spelled]
  exact references_reference ended denotes

theorem parseReference_breaksOff {s t : ParserState} {halt : Halt}
    (threw : p.parseReference.run s = (.error halt, t)) : p.BreaksOff s t := by
  unfold parseReference at threw
  rw [run_look_bind] at threw
  rcases bind_eq_error.mp threw with unopened | ⟨_, _, opened, threw⟩
  · obtain ⟨rest1, ran, rfl⟩ := run_onPart_eq_iff.mp unopened
    have same : rest1 = s.rest := expect_eq_error ran
    subst same
    exact (Refers.refl s).stops
  obtain ⟨rest1, ran, rfl⟩ := run_scan_eq_ok_iff.mp opened
  obtain ⟨ampersand, isAmpersand, split1⟩ := p.expect_eq_ok_iff.mp ran
  have begun : ∀ {cut rest : List DecodedChar} {final : ParserState} {more : Nat},
      rest1 = cut ++ rest → p.Begins s.dtd.entities (0x26 :: values cut) more → final.rest = rest →
        final.entityExpansions = s.entityExpansions + more → final.trace = s.trace → p.BreaksOff s final := by
    intro cut rest final more split begins isRest counted same
    refine ⟨same, [], ampersand :: cut, 0, more, ?_, references_plain List.not_mem_nil, ?_, by omega⟩
    · rw [split1, split, isRest]
      rfl
    · rw [values_cons, isAmpersand]
      exact begins
  rcases bind_eq_error.mp threw with uncounted | ⟨_, _, counted, threw⟩
  · obtain ⟨count2, counts, rfl⟩ := run_onPart_eq_iff.mp uncounted
    have counted : count2 = s.entityExpansions + 1 := p.countExpansion_eq_error counts
    exact begun (List.nil_append _).symm (.cut List.not_mem_nil) rfl counted rfl
  obtain ⟨count2, counts, rfl⟩ := counting_eq_ok_iff.mp counted
  obtain ⟨rfl, room⟩ := p.countExpansion_eq_ok_iff.mp counts
  rcases bind_eq_error.mp threw with unnamed | ⟨buffer, _, named, threw⟩
  · obtain ⟨rest3, ran, rfl⟩ := run_onPart_eq_iff.mp unnamed
    obtain ⟨name, split3, others⟩ := (p.consumesOnly_whilePushing (· != 0x3B) _).of_run ran
    exact begun split3 (.cut fun member => by simpa using others _ member) rfl rfl rfl
  obtain ⟨rest3, ran, rfl⟩ := run_scan_eq_ok_iff.mp named
  obtain ⟨name, split3, rfl, ended⟩ := p.name_of_pushing ran
  rcases bind_eq_error.mp threw with unclosed | ⟨_, _, closed, threw⟩
  · obtain ⟨rest4, ran, rfl⟩ := run_onPart_eq_iff.mp unclosed
    have same : rest4 = rest3 := expect_eq_error ran
    subst same
    exact begun split3 (.cut ended) rfl rfl rfl
  obtain ⟨rest4, ran, rfl⟩ := run_scan_eq_ok_iff.mp closed
  obtain ⟨semicolon, isSemicolon, split4⟩ := p.expect_eq_ok_iff.mp ran
  rw [run_read_bind] at threw
  obtain ⟨count5, unresolved, rfl⟩ := run_onPart_eq_iff.mp threw
  obtain ⟨more, begins, rfl⟩ := begins_of_resolveReference ended room unresolved
  have split : rest1 = (name ++ [semicolon]) ++ rest4 := by
    rw [show rest1 = name ++ rest3 from split3, show rest3 = semicolon :: rest4 from split4]
    simp
  refine begun split ?_ rfl (Nat.add_assoc _ _ _) rfl
  rw [values_append, values_cons, isSemicolon]
  exact begins

theorem tallies_parseReference : p.Tallies p.parseReference :=
  tallies_of_runs (fun _ _ _ => parseReference_refers) fun _ _ _ => parseReference_breaksOff

/-- One character that is no ampersand. -/
theorem crosses_advance {rest final : List DecodedChar} {outcome : Except Halt Unit} (other : peek rest ≠ 0x26)
    (ran : p.advance.run rest = (outcome, final)) : Crosses Plain rest final := by
  cases rest with
  | nil =>
      cases ran
      exact Std.Refl.refl _
  | cons c rest =>
      rw [run_advance_cons] at ran
      cases ran
      exact crosses_one other

/-- A scanner that takes the character in front of it, which is no ampersand. -/
theorem triple_scanNext {α : Type} {source : Cursor α} {next : Nat}
    (takes : ∀ {rest final : List DecodedChar} {outcome : Except Halt α}, peek rest = next →
      source.run rest = (outcome, final) → Crosses Plain rest final) (origin : ParserState) :
    Triple (fun s => p.Refers origin s ∧ peek s.rest = next) (scan source) (fun _ => p.Refers origin)
      fun _ => p.BreaksOff origin := by
  have ahead : ∀ {s t : ParserState} {outcome : Except Halt α}, peek s.rest = next →
      (scan source).run s = (outcome, t) → p.Refers s t := by
    intro s t outcome isNext ran
    obtain ⟨rest, scanned, rfl⟩ := run_onPart_eq_iff.mp ran
    exact refers_of_crosses (takes isNext scanned)
  intro s here
  exact ⟨fun _ _ ran => here.1.trans (ahead here.2 ran), fun _ _ ran => (here.1.trans (ahead here.2 ran)).stops⟩

theorem crosses_takePeek {text : Bytes} {rest final : List DecodedChar} {outcome : Except Halt Bytes}
    (other : peek rest ≠ 0x26) (ran : (p.takePeek text).run rest = (outcome, final)) : Crosses Plain rest final := by
  unfold takePeek at ran
  rw [run_read_bind, run_bind] at ran
  cases moved : p.advance.run rest with
  | mk step middle =>
      have crosses := crosses_advance other moved
      rw [moved] at ran
      cases step with
      | ok value | error halt =>
          cases ran
          exact crosses

theorem tallies_takePiece (text : Bytes) : p.Tallies (p.takePiece text) := by
  intro origin
  refine triple_read_bind_of_eq fun next => triple_ite (fun _ => ?_) fun other => ?_
  · refine triple_bind ?_ fun _ => triple_pure fun _ here => here
    exact (tallies_parseReference origin).imp (fun _ here => here.1) (fun _ _ here => here) fun _ _ here => here
  · refine triple_scanNext (fun isNext => crosses_takePeek ?_) origin
    simpa [isNext] using other

/-- Rounds that keep count make a loop that does. -/
theorem tallies_loop {β γ : Type} {size : β → ParserState → Nat} {body : β → ParserM (LoopStep β γ)}
    (round : ∀ current, p.Tallies (body current)) (start : β) : p.Tallies (loop size .outOfFuel body start) := by
  intro origin
  have kept : ∀ current, Triple (p.Refers origin) (body current)
      (RoundPost (fun _ => p.Refers origin) fun _ => p.Refers origin) fun _ => p.BreaksOff origin := by
    intro current
    refine (round current origin).imp (fun _ here => here) (fun step _ here => ?_) fun _ _ here => here
    cases step with
    | next following => exact here
    | done result => exact here
  exact triple_loop (fun _ => p.Refers origin) kept (fun _ _ here => here.stops) start

theorem tallies_append (text : Bytes) (start : SourceLocation) :
    p.Tallies (p.takePiece text >>= fun text => p.enforceTokenSize text.length start >>= fun _ =>
      pure (.next text) : ParserM (LoopStep Bytes Bytes)) := by
  intro origin
  refine triple_bind (tallies_takePiece text origin) fun text => ?_
  refine triple_bind (triple_ite (fun _ => tallies_throw _ origin) fun _ => triple_pure fun _ here => here) fun _ => ?_
  exact triple_pure fun _ here => here

theorem tallies_parseAttributeValue : p.Tallies p.parseAttributeValue := by
  intro origin
  refine triple_read_bind fun start => triple_read_bind_of_eq fun quote => ?_
  refine triple_ite (fun _ => ?_) fun quoted => ?_
  · exact (tallies_failHere _ _ origin).imp (fun _ here => here.1) (fun _ _ here => here) fun _ _ here => here
  have plain : quote ≠ 0x26 := by
    rintro rfl
    exact quoted (by decide)
  refine triple_bind (triple_scanNext (fun isQuote => crosses_advance (isQuote ▸ plain)) origin) fun _ => ?_
  refine tallies_loop (fun value origin => ?_) [] origin
  refine triple_read_bind fun _ => triple_read_bind fun _ => triple_ite (fun _ => ?_) fun _ => ?_
  · exact triple_bind (tallies_scan (plain_expect plain _) origin) fun _ => triple_pure fun _ here => here
  refine triple_read_bind fun _ => triple_ite (fun _ => tallies_failHere _ _ origin) fun _ => ?_
  exact tallies_append value start origin

theorem tallies_parseAttributes : p.Tallies p.parseAttributes := by
  refine tallies_loop (fun attributes origin => ?_) []
  have spaces : p.Tallies (scan p.skipWhitespace) := tallies_scan p.plain_skipWhitespace
  refine triple_bind (spaces origin) fun _ => triple_read_bind fun _ => triple_read_bind fun _ => ?_
  refine triple_ite (fun _ => triple_pure fun _ here => here) fun _ => triple_read_bind fun location => ?_
  refine triple_bind (tallies_scan p.plain_parseName origin) fun name => ?_
  refine triple_ite (fun _ => tallies_failHere _ _ origin) fun _ => ?_
  refine triple_ite (fun _ => tallies_failHere _ _ origin) fun _ => triple_bind (spaces origin) fun _ => ?_
  refine triple_bind (tallies_scan (plain_expect (by decide) _) origin) fun _ => ?_
  refine triple_bind (spaces origin) fun _ => ?_
  exact triple_bind (tallies_parseAttributeValue origin) fun value => triple_pure fun _ here => here

/-- The loop of a text. -/
theorem tallies_textLoop (start : SourceLocation) (text : Bytes) :
    p.Tallies (loop (fun _ s => s.rest.length) .outOfFuel (p.textRound start) text) := by
  refine tallies_loop (fun text origin => ?_) text
  refine triple_read_bind fun _ => triple_read_bind fun _ => ?_
  refine triple_ite (fun _ => triple_pure fun _ here => here) fun _ => tallies_append text start origin

end Parser

end XmlParser
