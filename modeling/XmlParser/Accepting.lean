import XmlParser.Reading

/-! Acceptance is complete: within generous limits the parser reads the
spelling of every syntax tree, and delivers its events. -/

set_option autoImplicit false

namespace XmlParser

open XmlParser.Computation Comp Grammar

/-! ## Limits -/

/-- The bytes that characters take in UTF-8. -/
def weight (chars : List DecodedChar) : Nat := (utf8 (values chars)).length

/-- The bytes that a text takes. -/
abbrev weightOf (text : Text) : Nat := (utf8 text).length

theorem weight_append (left right : List DecodedChar) :
    weight (left ++ right) = weight left + weight right := by
  simp [weight, utf8_append]

theorem utf8Unit_length_pos (c : Nat) : 0 < (utf8Unit c).length := by
  unfold utf8Unit
  split
  · exact Nat.zero_lt_succ _
  split
  · exact Nat.zero_lt_succ _
  split
  · exact Nat.zero_lt_succ _
  · exact Nat.zero_lt_succ _

theorem utf8Unit_length_le (c : Nat) : (utf8Unit c).length ≤ 4 := by
  unfold utf8Unit
  split
  · exact Nat.le_of_ble_eq_true rfl
  split
  · exact Nat.le_of_ble_eq_true rfl
  split
  · exact Nat.le_of_ble_eq_true rfl
  · exact Nat.le_of_ble_eq_true rfl

theorem length_le_utf8_length (text : List Nat) : text.length ≤ (utf8 text).length := by
  induction text with
  | nil => exact Nat.le_refl _
  | cons c text ih =>
      have positive := utf8Unit_length_pos c
      rw [utf8_cons, List.length_append, List.length_cons]
      omega

theorem weightOf_cons_pos (c : Nat) (text : Text) : 0 < weightOf (c :: text) :=
  Nat.lt_of_lt_of_le (Nat.succ_pos text.length) (length_le_utf8_length (c :: text))

theorem length_le_weight (chars : List DecodedChar) : chars.length ≤ weight chars := by
  have bound := length_le_utf8_length (values chars)
  rwa [values_length] at bound

/-- Every limit is at least this number. -/
structure Generous (options : ParserOptions) (limit : Nat) : Prop where
  tokens : limit ≤ options.maxTokenBytes
  depth : limit ≤ options.maxDepth
  attributes : limit ≤ options.maxAttributesPerElement
  expansions : limit ≤ options.maxEntityExpansions

/-- The expansions counted, and those the rest of the text can still ask for. -/
def potential (s : ParserState) : Nat := s.entityExpansions + weight s.rest

/-- The rest of the document cannot exceed a limit, and there are no
declarations. -/
structure Fits (limit : Nat) (s : ParserState) : Prop where
  expansions : potential s ≤ limit
  depth : s.elementStack.length + weight s.rest ≤ limit
  dtd : s.dtd = {}

theorem Fits.weight_le {limit : Nat} {s : ParserState} (fits : Fits limit s) :
    weight s.rest ≤ limit :=
  Nat.le_trans (Nat.le_add_left _ _) fits.depth

/-! ## Acceptance of a text -/

/-- The characters spell a text in front of those that follow it. -/
def Starts (chars : List DecodedChar) (text : Text) (after : List DecodedChar) : Prop :=
  ∃ consumed, chars = consumed ++ after ∧ values consumed = text

theorem Starts.split {chars after : List DecodedChar} {left right : Text}
    (starts : Starts chars (left ++ right) after) :
    ∃ between, Starts chars left between ∧ Starts between right after := by
  obtain ⟨consumed, rfl, spelled⟩ := starts
  obtain ⟨first, second, rfl, sameLeft, sameRight⟩ := values_eq_append spelled
  exact ⟨second ++ after, ⟨first, List.append_assoc _ _ _, sameLeft⟩, ⟨second, rfl, sameRight⟩⟩

/-- A part of the text in front is a token within the limit. -/
theorem Fits.token {limit : Nat} {s : ParserState} (fits : Fits limit s) {text part : Text}
    {after : List DecodedChar} (starts : Starts s.rest text after) (inside : part <:+: text) :
    (utf8 part).length ≤ limit := by
  obtain ⟨consumed, split, rfl⟩ := starts
  obtain ⟨before, behind, whole⟩ := inside
  have bound := fits.weight_le
  rw [split, weight_append] at bound
  unfold weight at bound
  rw [← whole, utf8_append, utf8_append, List.length_append, List.length_append] at bound
  omega

theorem infix_renderComment (body : Text) : body <:+: renderComment body :=
  ⟨_, _, rfl⟩

theorem infix_renderCdata (body : Text) : body <:+: renderCdata body :=
  ⟨_, _, rfl⟩

theorem target_within (target gap data : Text) : target <:+: renderInstruction target gap data :=
  ⟨[0x3C, 0x3F], gap ++ data ++ [0x3F, 0x3E], by simp [renderInstruction]⟩

theorem data_within (target gap data : Text) : data <:+: renderInstruction target gap data :=
  ⟨_, _, rfl⟩

theorem Starts.front {chars after : List DecodedChar} {c : Nat} {text : Text}
    (starts : Starts chars (c :: text) after) : eof chars = false ∧ peek chars = c := by
  obtain ⟨consumed, rfl, spelled⟩ := starts
  cases consumed with
  | nil => cases spelled
  | cons d consumed =>
      cases spelled
      exact ⟨rfl, rfl⟩

theorem Starts.stops {chars after : List DecodedChar} {c : Nat} {text : Text}
    (starts : Starts chars (c :: text) after) {condition : Nat → Bool} (fails : condition c = false) :
    StopsAt condition chars := by
  obtain ⟨consumed, rfl, spelled⟩ := starts
  cases consumed with
  | nil => cases spelled
  | cons d consumed =>
      cases spelled
      intro e front
      cases front
      exact fails

/-- Spaces and then one more character. -/
theorem Starts.stops_spaces {chars after : List DecodedChar} {space text : Text} {c : Nat}
    (starts : Starts chars (space ++ c :: text) after) (spaces : Spaces space)
    {condition : Nat → Bool} (fails : condition c = false)
    (others : ∀ c, IsSpace c → condition c = false) : StopsAt condition chars := by
  cases space with
  | nil => exact starts.stops fails
  | cons d space => exact Starts.stops starts (others d (spaces d List.mem_cons_self))

theorem isNameChar_of_isSpace {c : Nat} (space : IsSpace c) : isNameChar c = false := by
  rcases space with rfl | rfl | rfl | rfl
  · decide
  · decide
  · decide
  · decide

theorem isSpace_of_nameStart {c : Nat} (starter : NameStartChar c) : isSpace c = false := by
  cases space : isSpace c with
  | false => rfl
  | true =>
      have none := isNameChar_of_isSpace (isSpace_iff.mp space)
      exact absurd (.inl starter) (isNameChar_eq_false_iff.mp none)

theorem Starts.startsWith {chars after : List DecodedChar} {text : Text}
    (starts : Starts chars text after) {keyword : Text} (pfx : keyword <+: text) :
    startsWith keyword chars = true := by
  obtain ⟨consumed, rfl, rfl⟩ := starts
  rw [startsWith_iff, values_append]
  exact pfx.trans (List.prefix_append _ _)

theorem Starts.not_startsWith {chars after : List DecodedChar} {c first : Nat} {text others : Text}
    (starts : Starts chars (c :: text) after) (differs : first ≠ c) :
    XmlParser.startsWith (first :: others) chars = false := by
  obtain ⟨consumed, rfl, spelled⟩ := starts
  cases consumed with
  | nil => cases spelled
  | cons d consumed =>
      cases spelled
      rw [startsWith_eq_false_iff, List.cons_append, values_cons, List.cons_prefix_cons]
      exact fun same => differs same.1

/-- Two keywords that part ways cannot both stand in front. -/
theorem Starts.excludes {chars after : List DecodedChar} {front text keyword : Text}
    (starts : Starts chars (front ++ text) after)
    (parted : ¬ keyword <+: front ∧ ¬ front <+: keyword) :
    XmlParser.startsWith keyword chars = false := by
  obtain ⟨consumed, rfl, spelled⟩ := starts
  rw [startsWith_eq_false_iff, values_append, spelled]
  intro found
  have known : front <+: front ++ text ++ values after := by
    rw [List.append_assoc]
    exact List.prefix_append _ _
  cases List.prefix_or_prefix_of_prefix found known with
  | inl shorter => exact parted.1 shorter
  | inr longer => exact parted.2 longer

/-- A text has been read, and the expansions counted on the way are no more
than its bytes. -/
structure Covers (s t : ParserState) (text : Text) (events : List Event) : Prop
    extends Reads s t text events where
  spent : potential t ≤ potential s

theorem Covers.trans {r s t : ParserState} {left right : Text} {before after : List Event}
    (first : Covers r s left before) (second : Covers s t right after) :
    Covers r t (left ++ right) (before ++ after) :=
  ⟨first.toReads.trans second.toReads, Nat.le_trans second.spent first.spent⟩

theorem covers_withRest {s : ParserState} {consumed after : List DecodedChar}
    (split : s.rest = consumed ++ after) : Covers s (s.withRest after) (values consumed) [] := by
  refine ⟨reads_withRest split, ?_⟩
  unfold potential
  rw [split, weight_append]
  change s.entityExpansions + weight after ≤ _
  omega

theorem covers_deliver (s : ParserState) (event : Event) :
    Covers s (s.deliver event) [] [event.withoutLocations] :=
  ⟨reads_deliver s event, Nat.le_refl _⟩

theorem Covers.weight {s t : ParserState} {text : Text} {events : List Event}
    (covers : Covers s t text events) : weight s.rest = weightOf text + weight t.rest := by
  obtain ⟨consumed, split, rfl⟩ := covers.rest
  rw [split, weight_append]
  rfl

theorem Fits.after {limit : Nat} {s t : ParserState} {text : Text} {events : List Event}
    (fits : Fits limit s) (covers : Covers s t text events) : Fits limit t := by
  refine ⟨Nat.le_trans covers.spent fits.expansions, ?_, covers.dtd.trans fits.dtd⟩
  obtain ⟨consumed, split, _⟩ := covers.rest
  have depth := fits.depth
  rw [split, weight_append] at depth
  rw [covers.elementStack]
  omega

/-- From a state, a member returns a value behind a text, and delivers events. -/
def Accepts {α : Type} (source : ParserM α) (s : ParserState) (value : α) (text : Text)
    (events : List Event) (after : List DecodedChar) : Prop :=
  ∃ t, source.run s = (.ok value, t) ∧ t.rest = after ∧ Covers s t text events

theorem accepts_scan {α : Type} {source : Cursor α} {s : ParserState} {value : α}
    {consumed after : List DecodedChar} (split : s.rest = consumed ++ after)
    (ran : source.run s.rest = (.ok value, after)) :
    Accepts (scan source) s value (values consumed) [] after :=
  ⟨s.withRest after, run_scan_eq_ok_iff.mpr ⟨after, ran, rfl⟩, rfl, covers_withRest split⟩

namespace Parser

variable (p : Parser)

theorem accepts_emit (nonThrowing : p.handler.NonThrowing) (event : Event) (s : ParserState) :
    Accepts (p.emit event) s () [] [event.withoutLocations] s.rest :=
  ⟨s.deliver event, p.emit_eq_ok_iff.mpr ⟨rfl, nonThrowing _⟩, rfl, covers_deliver s event⟩

theorem accepts_expect {s : ParserState} {value : Nat} {after : List DecodedChar}
    (starts : Starts s.rest [value] after) (description : String) :
    Accepts (scan (p.expect value description)) s () [value] [] after := by
  obtain ⟨consumed, split, spelled⟩ := starts
  obtain ⟨c, rfl, rfl⟩ := List.map_eq_singleton_iff.mp spelled
  exact accepts_scan split (p.expect_eq_ok_iff.mpr ⟨c, rfl, split⟩)

theorem accepts_expectSequence {s : ParserState} {text : Text} {after : List DecodedChar}
    (starts : Starts s.rest text after) (description : String) :
    Accepts (scan (p.expectSequence text description)) s () text [] after := by
  obtain ⟨consumed, split, rfl⟩ := starts
  exact accepts_scan split (p.expectSequence_eq_ok_iff.mpr ⟨consumed, rfl, split⟩)

theorem accepts_skipWhitespace {s : ParserState} {space : Text} {after : List DecodedChar}
    (starts : Starts s.rest space after) (spaces : Spaces space) (stops : StopsAt isSpace after) :
    Accepts (scan p.skipWhitespace) s () space [] after := by
  obtain ⟨consumed, split, rfl⟩ := starts
  exact accepts_scan split
    (p.skipWhitespace_eq_ok_iff.mpr ⟨consumed, split, spaces_iff.mpr spaces, stops⟩)

variable {limit : Nat}

theorem accepts_parseName (generous : Generous p.options limit) {s : ParserState} {name : Text}
    {after : List DecodedChar} (fits : Fits limit s) (starts : Starts s.rest name after)
    (named : Name name) (stops : StopsAt isNameChar after) :
    Accepts (scan p.parseName) s (utf8 name) name [] after := by
  obtain ⟨consumed, split, rfl⟩ := starts
  refine accepts_scan split (p.parseName_eq_ok_iff.mpr ⟨consumed, split, named, stops, rfl, ?_⟩)
  have bound := fits.weight_le
  have short := length_le_weight consumed
  have tokens := generous.tokens
  rw [split, weight_append] at bound
  omega

/-! ## Comments, CDATA sections and processing instructions -/

/-- A scan whose result is delivered at once. -/
theorem accepts_report {α : Type} (nonThrowing : p.handler.NonThrowing) {source : Cursor α}
    (event : α → Event) {s : ParserState} {value : α} {consumed after : List DecodedChar}
    (split : s.rest = consumed ++ after) (ran : source.run s.rest = (.ok value, after)) :
    Accepts (scan source >>= fun result => p.emit (event result)) s () (values consumed)
      [(event value).withoutLocations] after := by
  obtain ⟨t, scanned, same, covers⟩ := accepts_scan split ran
  obtain ⟨u, emitted, sameEmitted, coversEvent⟩ := p.accepts_emit nonThrowing (event value) t
  refine ⟨u, ?_, sameEmitted.trans same, ?_⟩
  · rw [run_bind_of_ok scanned, emitted]
  · have whole := covers.trans coversEvent
    rwa [List.append_nil] at whole

theorem accepts_parseComment (generous : Generous p.options limit)
    (nonThrowing : p.handler.NonThrowing) {s : ParserState} {body : Text}
    {after : List DecodedChar} (fits : Fits limit s) (starts : Starts s.rest (renderComment body) after)
    (readable : CommentReadable (p.dialect []) body) :
    Accepts p.parseComment s () (renderComment body) [.comment (utf8 body)] after := by
  have short := Nat.le_trans (fits.token starts (infix_renderComment body)) generous.tokens
  obtain ⟨consumed, split, spelled⟩ := starts
  have whole := p.accepts_report nonThrowing Event.comment split
    (p.scanComment_eq_ok_iff.mpr ⟨consumed, body, split, spelled, readable.hyphens, rfl, short⟩)
  rwa [spelled] at whole

theorem accepts_parseCdata (generous : Generous p.options limit)
    (nonThrowing : p.handler.NonThrowing) {s : ParserState} {body : Text}
    {after : List DecodedChar} (fits : Fits limit s) (starts : Starts s.rest (renderCdata body) after)
    (readable : CdataReadable (p.dialect []) body) :
    Accepts p.parseCdata s () (renderCdata body) [.cdata (utf8 body)] after := by
  have short := Nat.le_trans (fits.token starts (infix_renderCdata body)) generous.tokens
  obtain ⟨consumed, split, spelled⟩ := starts
  have whole := p.accepts_report nonThrowing Event.cdata split
    (p.scanCdata_eq_ok_iff.mpr ⟨consumed, body, split, spelled, readable.close, rfl, short⟩)
  rwa [spelled] at whole

theorem accepts_parseProcessingInstruction (generous : Generous p.options limit)
    (nonThrowing : p.handler.NonThrowing) {s : ParserState} {target gap data : Text}
    {after : List DecodedChar} (fits : Fits limit s)
    (starts : Starts s.rest (renderInstruction target gap data) after)
    (readable : InstructionReadable (p.dialect []) target gap data) :
    Accepts p.parseProcessingInstruction s () (renderInstruction target gap data)
      [.processingInstruction (utf8 target) (utf8 data)] after := by
  have shortTarget := Nat.le_trans (length_le_utf8_length target)
    (Nat.le_trans (fits.token starts (target_within target gap data)) generous.tokens)
  have shortData :=
    Nat.le_trans (fits.token starts (data_within target gap data)) generous.tokens
  obtain ⟨consumed, split, spelled⟩ := starts
  have whole := p.accepts_report nonThrowing
    (fun parts => .processingInstruction parts.1 parts.2) split
    (p.scanProcessingInstruction_eq_ok_iff.mpr ⟨consumed, target, gap, data, split, spelled,
      readable.name, readable.reserved, readable.spaces, readable.close, readable.start,
      readable.joined, rfl, shortTarget, shortData⟩)
  rwa [spelled] at whole

/-! ## References and pieces of text -/

end Parser

theorem predefined?_unit_length {name : Text} {c : Nat} (known : predefined? name = some c) :
    (utf8Unit c).length = 1 := by
  have units : ∀ entry ∈ [([0x6C, 0x74], 0x3C), ([0x67, 0x74], 0x3E), ([0x61, 0x6D, 0x70], 0x26),
      ([0x61, 0x70, 0x6F, 0x73], 0x27), ([0x71, 0x75, 0x6F, 0x74], 0x22)],
      (utf8Unit entry.2).length = 1 := by
    decide
  exact units _ (predefined?_mem known)

theorem numeral?_length {base number : Nat} {digits : Text}
    (read : numeral? base digits = some number) : 1 ≤ digits.length := by
  cases digits with
  | nil => cases read
  | cons c digits => exact Nat.succ_pos _

theorem looseCharRef?_length {name : Text} {c : Nat} (read : looseCharRef? name = some c) :
    2 ≤ name.length := by
  unfold looseCharRef? at read
  split at read
  · have digits := numeral?_length read
    exact Nat.succ_le_succ (Nat.le_succ_of_le digits)
  · unfold charRef? at read
    split at read
    · have digits := numeral?_length read
      exact Nat.succ_le_succ (Nat.le_succ_of_le digits)
    · have digits := numeral?_length read
      exact Nat.succ_le_succ digits
    · cases read

/-- A reference is at least as long as what it denotes. -/
theorem utf8_length_le_of_denotes {legal : Nat → Prop} {name value : Text}
    (denotes : LooseDenotes legal name value) :
    (utf8 value).length ≤ name.length + 2 := by
  obtain ⟨c, rfl, read⟩ := denotes
  have unit : (utf8 [c]).length = (utf8Unit c).length := congrArg List.length (List.append_nil _)
  rw [unit]
  cases read with
  | inl known =>
      have single := predefined?_unit_length known
      omega
  | inr numeric =>
      have digits := looseCharRef?_length numeric.1
      have bound := utf8Unit_length_le c
      omega

namespace Parser

variable (p : Parser) {limit : Nat}

theorem length_le_of_denotes {name value : Text} (denotes : (p.dialect []).denotes name value) :
    (utf8 value).length ≤ name.length + 2 := by
  obtain ⟨_, start, before, after, resolved⟩ := denotes
  obtain ⟨rfl, other, same, loose⟩ := p.resolveReference_eq_ok_iff.mp resolved
  rw [same]
  exact utf8_length_le_of_denotes loose

theorem accepts_counting {α : Type} {source : Comp Nat Halt α} {s : ParserState} {value : α}
    {count : Nat} (ran : source.run s.entityExpansions = (.ok value, count)) :
    (counting source).run s = (.ok value, s.withCount count) :=
  counting_eq_ok_iff.mpr ⟨count, ran, rfl⟩

theorem run_countExpansion {count : Nat} (start : SourceLocation)
    (fits : count + 1 ≤ p.options.maxEntityExpansions) :
    (p.countExpansion start).run count = (.ok (), count + 1) := by
  unfold countExpansion
  rw [run_modify_bind, run_read_bind]
  exact congrArg (fun source : Comp Nat Halt Unit => source.run (count + 1))
    (if_neg (Nat.not_lt.mpr fits))

theorem run_countExpansion_beyond {count : Nat} (start : SourceLocation)
    (beyond : ¬ count + 1 ≤ p.options.maxEntityExpansions) :
    (p.countExpansion start).run count = (.error (.thrown (.xmlParse ⟨.resourceLimit, start,
      "entity expansion count exceeds max_entity_expansions"⟩)), count + 1) := by
  unfold countExpansion
  rw [run_modify_bind, run_read_bind]
  exact congrArg (fun source : Comp Nat Halt Unit => source.run (count + 1))
    (if_pos (Nat.not_le.mp beyond))

/-- The call of `parse_reference` on a reference that fits the limits resolves its name. -/
theorem run_parseReference {s : ParserState} {name : Text} {after : List DecodedChar}
    (starts : Starts s.rest (0x26 :: (name ++ [0x3B])) after) (closed : 0x3B ∉ name)
    (short : name.length ≤ p.options.maxTokenBytes)
    (room : s.entityExpansions + 1 ≤ p.options.maxEntityExpansions) :
    p.parseReference.run s =
      (counting (p.resolveReference s.dtd.entities (toAscii name) (p.location s.rest))).run
        ((s.withRest after).withCount (s.entityExpansions + 1)) := by
  obtain ⟨consumed, split, spelled⟩ := starts
  obtain ⟨ampersand, inner, rfl, isAmpersand, spelledInner⟩ := List.map_eq_cons_iff.mp spelled
  obtain ⟨nameChars, closing, rfl, sameName, spelledClosing⟩ := values_eq_append spelledInner
  obtain ⟨semicolon, rfl, isSemicolon⟩ := List.map_eq_singleton_iff.mp spelledClosing
  have opened : (scan (p.expect 0x26 "'&'")).run s =
      (.ok (), s.withRest (nameChars ++ semicolon :: after)) :=
    run_scan_eq_ok_iff.mpr ⟨_, p.expect_eq_ok_iff.mpr ⟨ampersand, isAmpersand, by simpa using split⟩, rfl⟩
  have stops : ∀ c ∈ values nameChars, (c != 0x3B) = true := by
    intro c member
    rw [bne_iff_ne]
    intro isSemicolon
    exact closed (sameName ▸ isSemicolon ▸ member)
  have named : (whilePeek (· != 0x3B) (p.pushPeek (p.location s.rest)) []).run
      (nameChars ++ semicolon :: after) = (.ok name, semicolon :: after) := by
    refine (p.pushPeek_buffers _).whilePeek_eq_ok_iff.mpr ⟨nameChars, rfl, ⟨stops, ?_⟩, ?_, ?_⟩
    · intro c front
      cases front
      simp [isSemicolon]
    · rw [foldl_push, sameName]
      rfl
    · intro taken _ pfx
      rw [foldl_push]
      exact Nat.le_trans (sameName ▸ pfx).length_le short
  let counted := (s.withRest (nameChars ++ semicolon :: after)).withCount (s.entityExpansions + 1)
  have counts : (counting (p.countExpansion (p.location s.rest))).run
      (s.withRest (nameChars ++ semicolon :: after)) = (.ok (), counted) :=
    accepts_counting (p.run_countExpansion (p.location s.rest) room)
  have reads : (scan (whilePeek (· != 0x3B) (p.pushPeek (p.location s.rest)) [])).run counted =
      (.ok name, counted.withRest (semicolon :: after)) :=
    run_scan_eq_ok_iff.mpr ⟨_, named, rfl⟩
  have ends : (scan (p.expect 0x3B "';' after entity reference")).run
      (counted.withRest (semicolon :: after)) = (.ok (), counted.withRest after) :=
    run_scan_eq_ok_iff.mpr ⟨_, p.expect_eq_ok_iff.mpr ⟨semicolon, isSemicolon, rfl⟩, rfl⟩
  unfold parseReference
  rw [run_look_bind, run_bind_of_ok opened, run_bind_of_ok counts, run_bind_of_ok reads,
    run_bind_of_ok ends, run_read_bind]
  rfl

theorem accepts_parseReference (generous : Generous p.options limit) {s : ParserState}
    {name value : Text} {after : List DecodedChar} (fits : Fits limit s)
    (starts : Starts s.rest (Piece.reference name value).render after) (closed : 0x3B ∉ name)
    (denotes : (p.dialect []).denotes name value) :
    Accepts p.parseReference s (utf8 value) (Piece.reference name value).render [] after := by
  have short := Nat.le_trans (length_le_utf8_length name)
    (Nat.le_trans (fits.token starts ⟨[0x26], [0x3B], rfl⟩) generous.tokens)
  obtain ⟨_, start, before, between, resolved⟩ := denotes
  obtain ⟨rfl, encoded⟩ := p.resolveReference_eq_ok_iff.mp resolved
  obtain ⟨consumed, split, spelled⟩ := starts
  have length := length_le_weight consumed
  have nonempty : 0 < consumed.length := by
    cases consumed with
    | nil => cases spelled
    | cons c consumed => exact Nat.succ_pos _
  have room : s.entityExpansions + 1 ≤ p.options.maxEntityExpansions := by
    have counted : s.entityExpansions + weight s.rest ≤ limit := fits.expansions
    have expansions := generous.expansions
    rw [split, weight_append] at counted
    omega
  have resolvedHere : (p.resolveReference s.dtd.entities (toAscii name) (p.location s.rest)).run
      (s.entityExpansions + 1) = (.ok (utf8 value), s.entityExpansions + 1) := by
    rw [fits.dtd]
    exact p.resolveReference_eq_ok_iff.mpr ⟨rfl, encoded⟩
  refine ⟨(s.withRest after).withCount (s.entityExpansions + 1), ?_, rfl, ?_, ?_⟩
  · rw [p.run_parseReference ⟨consumed, split, spelled⟩ closed short room]
    exact accepts_counting resolvedHere
  · rw [← spelled]
    exact ⟨⟨_, split, rfl⟩, rfl, rfl, rfl, rfl, rfl, (List.append_nil _).symm⟩
  · unfold potential
    rw [split, weight_append]
    change s.entityExpansions + 1 + weight after ≤ _
    omega

theorem accepts_takePiece (generous : Generous p.options limit) {s : ParserState} {item : Piece}
    {after : List DecodedChar} (fits : Fits limit s) (starts : Starts s.rest item.render after)
    {excluded : Nat → Prop} (ampersand : excluded 0x26)
    (readable : item.Readable (p.dialect []) excluded) (text : Bytes) :
    Accepts (p.takePiece text) s (text ++ utf8 item.value) item.render [] after := by
  cases item with
  | literal c =>
      have notAmpersand : c ≠ 0x26 := fun same => readable.2 (same ▸ ampersand)
      obtain ⟨consumed, split, spelled⟩ := starts
      obtain ⟨d, rfl, rfl⟩ := List.map_eq_singleton_iff.mp spelled
      have took : (p.takePeek text).run s.rest = (.ok (appendUtf8 text d.value), after) := by
        rw [split]
        exact (p.takePeek_buffers.cons text d after _ _).mpr ⟨rfl, rfl, trivial⟩
      obtain ⟨t, ran, others⟩ := accepts_scan split took
      refine ⟨t, ?_, others⟩
      unfold takePiece
      rw [run_look_bind, if_neg]
      · rw [ran]
        simp [appendUtf8, Piece.value, utf8]
      · rw [split]
        simpa using notAmpersand
  | reference name value =>
      obtain ⟨t, ran, others⟩ := p.accepts_parseReference generous fits starts readable.1 readable.2
      refine ⟨t, ?_, others⟩
      unfold takePiece
      rw [run_look_bind, if_pos, run_bind_of_ok ran]
      · rfl
      · rw [starts.front.2]
        rfl

/-- A piece is at least as long as what it stands for. -/
theorem length_le_of_readable {item : Piece} {excluded : Nat → Prop}
    (readable : item.Readable (p.dialect []) excluded) :
    (utf8 item.value).length ≤ weightOf item.render := by
  cases item with
  | literal c => exact Nat.le_refl _
  | reference name value =>
      have denoted := p.length_le_of_denotes readable.2
      have spelled := length_le_utf8_length (Piece.reference name value).render
      simp only [Piece.render, List.length_cons, List.length_append, List.length_nil] at spelled
      exact Nat.le_trans denoted spelled

end Parser

/-- The first character of a piece is an ampersand, or not excluded. -/
theorem Grammar.Piece.Readable.front {d : Dialect} {excluded : Nat → Prop} {item : Piece}
    (readable : item.Readable d excluded) :
    ∃ c rest, item.render = c :: rest ∧ (c = 0x26 ∨ ¬ excluded c) := by
  cases item with
  | literal c => exact ⟨c, [], rfl, .inr readable.2⟩
  | reference name value => exact ⟨0x26, _, rfl, .inl rfl⟩

namespace Parser

variable (p : Parser) {limit : Nat}

/-! ## Attributes -/

theorem accepts_attributeValueLoop (generous : Generous p.options limit) (start : SourceLocation)
    {quote : Nat} (quoted : quote = 0x27 ∨ quote = 0x22) {pieces : List Piece}
    (readable : ∀ item ∈ pieces, item.Readable (p.dialect []) (ExcludedFromValue quote))
    {s : ParserState} {after : List DecodedChar} (fits : Fits limit s)
    (starts : Starts s.rest (renderPieces pieces ++ [quote]) after) {value : Bytes}
    (room : value.length + weight s.rest ≤ limit) :
    Accepts (loop (fun _ s => s.rest.length) .outOfFuel (p.attributeValueRound start quote) value) s
      (value ++ utf8 (pieceValues pieces)) (renderPieces pieces ++ [quote]) [] after := by
  have shrinks := shrinks_of_advances (p.attributeValueRound_strict start quote)
  induction pieces generalizing s value with
  | nil =>
      obtain ⟨t, ran, same, covers⟩ := p.accepts_expect starts "attribute quote"
      have round : (p.attributeValueRound start quote value).run s = (.ok (.done value), t) := by
        unfold attributeValueRound
        rw [run_look_bind, run_look_bind, if_pos, run_bind_of_ok ran]
        · rfl
        · rw [starts.front.2]
          simp
      refine ⟨t, ?_, same, covers⟩
      rw [run_loop_of_done shrinks round]
      simp [pieceValues]
  | cons item pieces ih =>
      obtain ⟨first, readable⟩ := List.forall_mem_cons.mp readable
      have spelled : renderPieces (item :: pieces) ++ [quote] =
          item.render ++ (renderPieces pieces ++ [quote]) := by
        simp [renderPieces]
      rw [spelled] at starts ⊢
      obtain ⟨between, startsItem, startsRest⟩ := starts.split
      obtain ⟨t, ran, same, covers⟩ :=
        p.accepts_takePiece generous fits startsItem (.inr (.inl rfl)) first value
      have longer := p.length_le_of_readable first
      have spent := covers.weight
      have roomRest : (value ++ utf8 item.value).length + weight t.rest ≤ limit := by
        rw [List.length_append]
        omega
      obtain ⟨u, ranRest, sameRest, coversRest⟩ :=
        ih readable (fits.after covers) (same ▸ startsRest) roomRest
      refine ⟨u, ?_, sameRest, covers.trans coversRest⟩
      have round : (p.attributeValueRound start quote value).run s =
          (.ok (.next (value ++ utf8 item.value)), t) := by
        obtain ⟨c, rest, front, excluded⟩ := first.front
        rw [front] at startsItem
        obtain ⟨more, peeked⟩ := Starts.front startsItem
        have notQuote : c ≠ quote := by
          rcases excluded with rfl | notExcluded
          · rcases quoted with rfl | rfl <;> decide
          · exact fun isQuote => notExcluded (.inr (.inr isQuote))
        have notTag : c ≠ 0x3C := by
          rcases excluded with rfl | notExcluded
          · decide
          · exact fun isTag => notExcluded (.inl isTag)
        unfold attributeValueRound
        rw [run_look_bind, run_look_bind, if_neg, run_look_bind, if_neg, run_bind_of_ok ran]
        · exact bind_eq_ok.mpr ⟨(), t, p.enforceTokenSize_eq_ok_iff.mpr
            ⟨Nat.le_trans (Nat.le_trans (Nat.le_add_right _ _) roomRest) generous.tokens, rfl⟩, rfl⟩
        · rw [peeked]
          simpa using notTag
        · rw [more, peeked]
          simpa using notQuote
      rw [run_loop_of_next shrinks round, ranRest]
      simp [pieceValues, utf8_append]

theorem accepts_parseAttributeValue (generous : Generous p.options limit) {quote : Nat}
    (quoted : quote = 0x27 ∨ quote = 0x22) {pieces : List Piece}
    (readable : ∀ item ∈ pieces, item.Readable (p.dialect []) (ExcludedFromValue quote))
    {s : ParserState} {after : List DecodedChar} (fits : Fits limit s)
    (starts : Starts s.rest (quote :: (renderPieces pieces ++ [quote])) after) :
    Accepts p.parseAttributeValue s (utf8 (pieceValues pieces))
      (quote :: (renderPieces pieces ++ [quote])) [] after := by
  obtain ⟨_, peeked⟩ := starts.front
  have quotedText : Starts s.rest ([quote] ++ (renderPieces pieces ++ [quote])) after := starts
  obtain ⟨between, startsQuote, startsRest⟩ := quotedText.split
  obtain ⟨consumed, split, spelled⟩ := startsQuote
  obtain ⟨c, rfl, isQuote⟩ := List.map_eq_singleton_iff.mp spelled
  have advanced : p.advance.run s.rest = (.ok (), between) := by
    rw [split]
    rfl
  obtain ⟨t, ran, rfl, covers⟩ := accepts_scan split advanced
  have fitsRest := fits.after covers
  have room : ([] : Bytes).length + weight t.rest ≤ limit := by
    have bound := fitsRest.weight_le
    simpa using bound
  obtain ⟨u, ranRest, same, coversRest⟩ :=
    p.accepts_attributeValueLoop generous (p.location s.rest) quoted readable fitsRest startsRest room
  refine ⟨u, ?_, same, ?_⟩
  · unfold parseAttributeValue
    rw [run_look_bind, run_look_bind, if_neg, run_bind_of_ok ran]
    · rw [peeked, ranRest]
      rfl
    · rw [peeked]
      rcases quoted with rfl | rfl
      · decide
      · decide
  · have whole := covers.trans coversRest
    rwa [spelled] at whole

/-- One round takes one attribute. -/
theorem accepts_attributesRound (generous : Generous p.options limit) {attr : Attribute}
    (readable : attr.Readable (p.dialect [])) {s : ParserState} {after : List DecodedChar}
    (fits : Fits limit s) (starts : Starts s.rest attr.render after) {raws : List RawAttribute}
    (new : utf8 attr.name ∉ raws.map RawAttribute.name) (room : raws.length + weight s.rest ≤ limit) :
    ∃ location, Accepts (p.attributesRound raws) s
      (.next (raws ++ [⟨utf8 attr.name, utf8 (pieceValues attr.value), location⟩]))
      attr.render [] after := by
  have spelled : attr.render = attr.before ++ (attr.name ++ (attr.beforeEquals ++ ([0x3D] ++
      (attr.afterEquals ++ (attr.quote :: (renderPieces attr.value ++ [attr.quote])))))) := by
    simp [Attribute.render]
  rw [spelled] at starts ⊢
  obtain ⟨first, rest, sameName, starter⟩ := readable.name.front
  obtain ⟨_, startsBefore, starts1⟩ := starts.split
  have startsFirst := starts1
  rw [sameName] at startsFirst
  have firstSpace : isSpace first = false := isSpace_of_nameStart starter
  obtain ⟨s1, ran1, rfl, covers1⟩ :=
    p.accepts_skipWhitespace startsBefore readable.before (Starts.stops startsFirst firstSpace)
  obtain ⟨_, startsName, starts2⟩ := starts1.split
  obtain ⟨s2, ran2, rfl, covers2⟩ := p.accepts_parseName generous (fits.after covers1) startsName
    readable.name (starts2.stops_spaces readable.beforeEquals (by decide)
      fun _ => isNameChar_of_isSpace)
  obtain ⟨_, startsEquals, starts3⟩ := starts2.split
  obtain ⟨s3, ran3, rfl, covers3⟩ :=
    p.accepts_skipWhitespace startsEquals readable.beforeEquals (Starts.stops starts3 (by decide))
  obtain ⟨_, startsSign, starts4⟩ := starts3.split
  obtain ⟨s4, ran4, rfl, covers4⟩ := p.accepts_expect startsSign "'=' after attribute name"
  obtain ⟨_, startsAfter, starts5⟩ := starts4.split
  have quoteSpace : isSpace attr.quote = false := by
    rcases readable.quote with same | same
    · rw [same]
      decide
    · rw [same]
      decide
  obtain ⟨s5, ran5, rfl, covers5⟩ :=
    p.accepts_skipWhitespace startsAfter readable.afterEquals (Starts.stops starts5 quoteSpace)
  have covered := (((covers1.trans covers2).trans covers3).trans covers4).trans covers5
  obtain ⟨s6, ran6, rfl, covers6⟩ := p.accepts_parseAttributeValue generous readable.quote
    readable.value (fits.after covered) starts5
  refine ⟨p.location s1.rest, s6, ?_, rfl, ?_⟩
  · obtain ⟨_, peeked⟩ := Starts.front startsFirst
    have notClosing : (peek s1.rest == 0x3E || startsWith (u32 "/>") s1.rest) = false := by
      have notClose : first ≠ 0x3E := by
        unfold NameStartChar at starter
        omega
      have notSlash : 0x2F ≠ first := by
        unfold NameStartChar at starter
        omega
      have notEmptyClose : startsWith (u32 "/>") s1.rest = false :=
        Starts.not_startsWith startsFirst notSlash
      rw [peeked, notEmptyClose, Bool.or_false]
      exact beq_eq_false_iff_ne.mpr notClose
    have absent : raws.any (fun existing => existing.name == utf8 attr.name) = false := by
      refine List.any_eq_false.mpr fun raw member same => new ?_
      exact List.mem_map.mpr ⟨raw, member, beq_iff_eq.mp same⟩
    have count : ¬ raws.length + 1 > p.options.maxAttributesPerElement := by
      have allowed := generous.attributes
      have spent := covered.weight
      have length := length_le_weight s5.rest
      have nonempty : 0 < s5.rest.length := by
        obtain ⟨consumed, split, spelledRest⟩ := starts5
        rw [split]
        cases consumed with
        | nil => cases spelledRest
        | cons c consumed => exact Nat.succ_pos _
      omega
    unfold attributesRound
    rw [run_bind_of_ok ran1, run_look_bind, run_look_bind, notClosing, if_neg Bool.false_ne_true,
      run_look_bind, run_bind_of_ok ran2, absent, if_neg Bool.false_ne_true, if_neg count,
      run_bind_of_ok ran3, run_bind_of_ok ran4, run_bind_of_ok ran5, run_bind_of_ok ran6]
    rfl
  · have whole := covered.trans covers6
    simpa using whole

/-- The end of a start tag or of an empty-element tag follows. -/
def TagCloses (chars : List DecodedChar) : Prop :=
  ∃ after, Starts chars [0x3E] after ∨ Starts chars [0x2F, 0x3E] after

theorem TagCloses.stops {chars : List DecodedChar} (closes : TagCloses chars)
    {condition : Nat → Bool} (bracket : condition 0x3E = false) (slash : condition 0x2F = false) :
    StopsAt condition chars := by
  obtain ⟨after, starts | starts⟩ := closes
  · exact Starts.stops starts bracket
  · exact Starts.stops starts slash

theorem TagCloses.test {chars : List DecodedChar} (closes : TagCloses chars) :
    (peek chars == 0x3E || startsWith (u32 "/>") chars) = true := by
  obtain ⟨after, starts | starts⟩ := closes
  · rw [starts.front.2]
    rfl
  · have emptyClose : startsWith (u32 "/>") chars = true := starts.startsWith List.prefix_rfl
    rw [emptyClose, Bool.or_true]

theorem accepts_attributesLoop (generous : Generous p.options limit) {attributes : List Attribute}
    (readable : ∀ attr ∈ attributes, attr.Readable (p.dialect [])) {space : Text}
    (spaces : Spaces space) {s : ParserState} {after : List DecodedChar} (fits : Fits limit s)
    (starts : Starts s.rest (renderAttributes attributes ++ space) after)
    (closes : TagCloses after) {raws : List RawAttribute}
    (distinct : (raws.map RawAttribute.name ++ attributes.map fun attr => utf8 attr.name).Nodup)
    (room : raws.length + weight s.rest ≤ limit) :
    ∃ result, Accepts (loop (fun _ s => s.rest.length) .outOfFuel p.attributesRound raws) s result
        (renderAttributes attributes ++ space) [] after ∧
      result.map RawAttribute.pair = raws.map RawAttribute.pair ++
        attributes.map fun attr => (utf8 attr.name, utf8 (pieceValues attr.value)) := by
  have shrinks := shrinks_of_advances p.attributesRound_strict
  induction attributes generalizing s raws with
  | nil =>
      obtain ⟨t, ran, rfl, covers⟩ := p.accepts_skipWhitespace starts spaces (closes.stops rfl rfl)
      have round : (p.attributesRound raws).run s = (.ok (.done raws), t) := by
        unfold attributesRound
        rw [run_bind_of_ok ran, run_look_bind, run_look_bind, closes.test, if_pos rfl]
        rfl
      exact ⟨raws, ⟨t, run_loop_of_done shrinks round, rfl, covers⟩, (List.append_nil _).symm⟩
  | cons attr attributes ih =>
      obtain ⟨first, readable⟩ := List.forall_mem_cons.mp readable
      have spelled : renderAttributes (attr :: attributes) ++ space =
          attr.render ++ (renderAttributes attributes ++ space) := by
        simp [renderAttributes]
      rw [spelled] at starts ⊢
      obtain ⟨_, startsFirst, startsRest⟩ := starts.split
      have new : utf8 attr.name ∉ raws.map RawAttribute.name := by
        intro member
        rw [List.map_cons, List.nodup_append] at distinct
        exact distinct.2.2 _ member _ List.mem_cons_self rfl
      obtain ⟨location, t, round, rfl, covers⟩ :=
        p.accepts_attributesRound generous first fits startsFirst new room
      have spent := covers.weight
      have nonempty : 0 < weightOf attr.render := by
        refine Nat.lt_of_lt_of_le ?_ (length_le_utf8_length attr.render)
        simp only [Attribute.render, List.length_append, List.length_cons]
        omega
      let raw : RawAttribute := ⟨utf8 attr.name, utf8 (pieceValues attr.value), location⟩
      have distinctRest : ((raws ++ [raw]).map RawAttribute.name ++
          attributes.map fun attr => utf8 attr.name).Nodup := by
        rw [List.map_append, List.append_assoc]
        exact distinct
      have roomRest : (raws ++ [raw]).length + weight t.rest ≤ limit := by
        rw [List.length_append, List.length_singleton]
        omega
      obtain ⟨result, ⟨u, ran, same, coversRest⟩, pairs⟩ :=
        ih readable (fits.after covers) startsRest distinctRest roomRest
      refine ⟨result, ⟨u, ?_, same, covers.trans coversRest⟩, ?_⟩
      · rw [run_loop_of_next shrinks round, ran]
      · rw [pairs, List.map_append, List.append_assoc]
        rfl

theorem accepts_parseAttributes (generous : Generous p.options limit) {tag : Tag}
    (readable : tag.Readable (p.dialect [])) {s : ParserState} {after : List DecodedChar}
    (fits : Fits limit s) (starts : Starts s.rest (renderAttributes tag.attributes ++ tag.after) after)
    (closes : TagCloses after) :
    ∃ raws, Accepts p.parseAttributes s raws (renderAttributes tag.attributes ++ tag.after) [] after ∧
      raws.map RawAttribute.pair = tag.startTag.attributes := by
  have distinct : (tag.attributes.map fun attr => utf8 attr.name).Nodup := by
    have injective : ∀ left ∈ tag.attributes.map Attribute.name,
        ∀ right ∈ tag.attributes.map Attribute.name, utf8 left = utf8 right → left = right := by
      intro left memberLeft right memberRight same
      obtain ⟨first, isFirst, rfl⟩ := List.mem_map.mp memberLeft
      obtain ⟨second, isSecond, rfl⟩ := List.mem_map.mp memberRight
      exact utf8_injective ((readable.attributes first isFirst).name.legal .xml10)
        ((readable.attributes second isSecond).name.legal .xml10) same
    have mapped := readable.distinct.map_on injective
    rwa [List.map_map] at mapped
  have room : ([] : List RawAttribute).length + weight s.rest ≤ limit := by
    have bound := fits.weight_le
    simpa using bound
  exact p.accepts_attributesLoop generous readable.attributes readable.after fits starts closes
    distinct room

/-! ## Tags -/

theorem accepts_parseTagName (generous : Generous p.options limit) {name : Text} (named : Name name)
    {s : ParserState} {after : List DecodedChar} (fits : Fits limit s)
    (starts : Starts s.rest (0x3C :: name) after) (stops : StopsAt isNameChar after)
    (start : SourceLocation) :
    Accepts (p.parseTagName start) s (utf8 name) (0x3C :: name) [] after := by
  have spelled : Starts s.rest ([0x3C] ++ name) after := starts
  obtain ⟨_, startsOpen, startsName⟩ := spelled.split
  obtain ⟨t, ran, rfl, covers⟩ := p.accepts_expect startsOpen "'<'"
  obtain ⟨u, ranName, same, coversName⟩ :=
    p.accepts_parseName generous (fits.after covers) startsName named stops
  refine ⟨u, ?_, same, covers.trans coversName⟩
  obtain ⟨first, rest, rfl, starter⟩ := named.front
  have peeked := (Starts.front startsName).2
  have notMarkup : (first == 0x2F || first == 0x21 || first == 0x3F) = false := by
    unfold NameStartChar at starter
    simp only [Bool.or_eq_false_iff, beq_eq_false_iff_ne]
    omega
  have shallow : ¬ u.elementStack.length + 1 > p.options.maxDepth := by
    have bound := fits.depth
    have depth := generous.depth
    have spent := covers.weight
    have length : 0 < weightOf [0x3C] := Nat.succ_pos _
    rw [(covers.trans coversName).elementStack]
    omega
  unfold parseTagName
  rw [run_bind_of_ok ran, run_look_bind, peeked, notMarkup, if_neg Bool.false_ne_true,
    run_bind_of_ok ranName, run_read_bind, if_neg shallow]
  rfl

theorem accepts_openElement (generous : Generous p.options limit)
    (nonThrowing : p.handler.NonThrowing) {tag : Tag} (readable : tag.Readable (p.dialect []))
    {tags : List StartTag}
    (namedIn : NamedIn p.options.namespaces (tag.startTag :: tags) tag.startTag) {s : ParserState}
    {after : List DecodedChar} (fits : Fits limit s)
    (inScope : s.namespaceScopes = scopesOf p.options.namespaces tags)
    (starts : Starts s.rest (renderAttributes tag.attributes ++ tag.after) after)
    (closes : TagCloses after) (start : SourceLocation) :
    ∃ t, (p.openElement (utf8 tag.name) start).run s =
        (.ok (tag.elementName p.options.namespaces (tag.startTag :: tags)), t) ∧ t.rest = after ∧
      Enters p.options.namespaces tags tag s t (renderAttributes tag.attributes ++ tag.after) ∧
      potential t ≤ potential s := by
  obtain ⟨raws, ⟨u, ran, rfl, covers⟩, pairs⟩ :=
    p.accepts_parseAttributes generous readable fits starts closes
  have spelled : (⟨utf8 tag.name, raws.map RawAttribute.pair⟩ : StartTag) = tag.startTag := by
    rw [pairs]
    rfl
  have scopes : p.collectNamespaceDeclarations raws :: u.namespaceScopes =
      scopesOf p.options.namespaces (tag.startTag :: tags) := by
    rw [covers.namespaceScopes, inScope, ← spelled]
    exact collectNamespaceDeclarations_eq p (utf8 tag.name) raws tags
  have shown := viewsOf_withoutLocation p.options.namespaces (tag.startTag :: tags) raws
    (utf8 tag.name)
  rw [spelled] at shown
  have resolves : ∀ v : ParserState,
      (p.resolveName (scopesOf p.options.namespaces (tag.startTag :: tags)) (utf8 tag.name) true
          start).run v = (.ok (tag.elementName p.options.namespaces (tag.startTag :: tags)), v) ∧
        (p.attributeViews (scopesOf p.options.namespaces (tag.startTag :: tags)) raws []).run v =
          (.ok (viewsOf p.options.namespaces (tag.startTag :: tags) raws), v) := by
    intro v
    refine p.resolveTag_ok_iff.mpr ⟨?_, rfl, rfl, rfl, rfl⟩
    rw [spelled]
    exact namedIn
  let inner : ParserState :=
    { u with namespaceScopes := scopesOf p.options.namespaces (tag.startTag :: tags) }
  let entered : ParserState :=
    { inner with
      elementStack := utf8 tag.name :: u.elementStack
      elementNameStack :=
        tag.elementName p.options.namespaces (tag.startTag :: tags) :: u.elementNameStack
      validationStack := { name := utf8 tag.name } :: u.validationStack }
  let event : Event := .startElement (tag.elementName p.options.namespaces (tag.startTag :: tags))
    (viewsOf p.options.namespaces (tag.startTag :: tags) raws)
  have emitted : (p.emit event).run entered = (.ok (), entered.deliver event) :=
    p.emit_eq_ok_iff.mpr ⟨rfl, nonThrowing _⟩
  refine ⟨entered.deliver event, ?_, rfl, ⟨covers.rest, ?_, ?_, rfl, ?_, covers.dtd, ?_⟩, covers.spent⟩
  · unfold openElement pushScope pushElement
    rw [run_bind_of_ok ran, run_modify_bind, run_read_bind]
    dsimp only
    rw [scopes, run_bind_of_ok (resolves inner).1, run_bind_of_ok (resolves inner).2,
      run_modify_bind]
    exact run_bind_of_ok emitted _
  · exact congrArg _ covers.elementStack
  · exact congrArg _ covers.elementNameStack
  · exact congrArg (· + 1) covers.validationDepth
  · have events := covers.events
    rw [List.append_nil] at events
    simp only [ParserState.deliver, ParserState.events, List.map_append, List.map_cons,
      List.map_nil] at events ⊢
    rw [events]
    simp only [event, Event.withoutLocations, shown]

theorem accepts_parseEndTag (generous : Generous p.options limit)
    (nonThrowing : p.handler.NonThrowing) {name space : Text} (named : Name name)
    (spaces : Spaces space) {top : QualifiedName} {s : ParserState} {after : List DecodedChar}
    (fits : Fits limit s) (inside : s.elementNameStack.head? = some top)
    (starts : Starts s.rest (renderEndTag name space) after) :
    Accepts (p.parseEndTag (utf8 name)) s () (renderEndTag name space) [.endElement top] after := by
  have spelled : renderEndTag name space = [0x3C, 0x2F] ++ (name ++ (space ++ [0x3E])) := by
    simp [renderEndTag]
  rw [spelled] at starts ⊢
  obtain ⟨_, startsOpen, starts1⟩ := starts.split
  obtain ⟨s1, ran1, rfl, covers1⟩ := p.accepts_expectSequence startsOpen "end tag"
  obtain ⟨_, startsName, starts2⟩ := starts1.split
  obtain ⟨s2, ran2, rfl, covers2⟩ := p.accepts_parseName generous (fits.after covers1) startsName
    named (starts2.stops_spaces spaces (by decide) fun _ => isNameChar_of_isSpace)
  obtain ⟨_, startsSpace, starts3⟩ := starts2.split
  obtain ⟨s3, ran3, rfl, covers3⟩ :=
    p.accepts_skipWhitespace startsSpace spaces (Starts.stops starts3 (by decide))
  obtain ⟨s4, ran4, rfl, covers4⟩ := p.accepts_expect starts3 "'>'"
  have covered := ((covers1.trans covers2).trans covers3).trans covers4
  obtain ⟨others, stack⟩ : ∃ others, s4.elementNameStack = top :: others := by
    rw [covered.elementNameStack]
    exact List.head?_eq_some_iff.mp inside
  obtain ⟨s5, ran5, same, covers5⟩ := p.accepts_emit nonThrowing (.endElement top) s4
  refine ⟨s5, ?_, same, ?_⟩
  · unfold parseEndTag
    rw [run_look_bind]
    refine bind_eq_ok.mpr ⟨_, _, ran1, bind_eq_ok.mpr ⟨_, _, ran2, bind_eq_ok.mpr
      ⟨_, _, ran3, bind_eq_ok.mpr ⟨_, _, ran4, ?_⟩⟩⟩⟩
    rw [bne_self_eq_false, if_neg Bool.false_ne_true, run_read_bind]
    exact bind_eq_ok.mpr ⟨_, _, topOf_eq_ok_iff.mpr ⟨rfl, others, stack⟩, ran5⟩
  · have whole := covered.trans covers5
    simpa [Event.withoutLocations] using whole

/-- Without a document type declaration nothing is validated. -/
theorem run_validateElement_of_none (s : ParserState) (none : s.dtd.hasDoctype = false)
    (frame : ValidationFrame) (location : SourceLocation) :
    (p.validateElement frame location).run s = (.ok (), s) := by
  unfold validateElement
  rw [run_read_bind]
  exact congrArg (fun source : ParserM Unit => source.run s)
    (if_pos (by rw [id, none, Bool.not_false, Bool.or_true]))

theorem closeElement_runs {s : ParserState} (none : s.dtd.hasDoctype = false)
    (framed : s.validationStack ≠ []) (inScope : s.namespaceScopes ≠ [])
    (named : s.elementNameStack ≠ []) (opened : s.elementStack ≠ []) (location : SourceLocation) :
    ∃ t, (p.finishValidationFrame location >>= fun _ => popElement).run s = (.ok (), t) ∧
      Leaves s t ∧ t.entityExpansions = s.entityExpansions := by
  obtain ⟨frame, frames, stack⟩ := List.exists_cons_of_ne_nil framed
  let popped : ParserState := { s with validationStack := frames }
  let recorded : ParserState := { s with validationStack := recordChild frame.name frames }
  have finished : (p.finishValidationFrame location).run s = (.ok (), recorded) := by
    unfold finishValidationFrame
    rw [run_read_bind, stack]
    have validated : (p.validateElement frame location).run popped = (.ok (), popped) :=
      p.run_validateElement_of_none popped none frame location
    have tail : ({ s with validationStack := s.validationStack.tail } : ParserState) = popped := by
      rw [stack]
      rfl
    refine bind_eq_ok.mpr ⟨frame, s, rfl, bind_eq_ok.mpr ⟨(), popped, ?_, bind_eq_ok.mpr
      ⟨(), popped, validated, rfl⟩⟩⟩
    rw [run_modify, tail]
  let closed : ParserState :=
    { recorded with
      namespaceScopes := s.namespaceScopes.tail
      elementNameStack := s.elementNameStack.tail
      elementStack := s.elementStack.tail }
  have closes : popElement.run recorded = (.ok (), closed) := by
    unfold popElement
    rw [run_read_bind]
    refine congrArg (fun source : ParserM Unit => source.run recorded) (if_neg ?_)
    simp [recorded, inScope, named, opened]
  have returned : (p.finishValidationFrame location >>= fun _ => popElement).run s =
      (.ok (), closed) := bind_eq_ok.mpr ⟨(), recorded, finished, closes⟩
  exact ⟨closed, returned, p.closeElement_leaves returned, rfl⟩

/-! ## Content -/

theorem accepts_deliverText (nonThrowing : p.handler.NonThrowing) (text : Bytes) (s : ParserState) :
    Accepts (p.deliverText text) s () [] (flushText text) s.rest := by
  have returned : ∃ t, (p.deliverText text).run s = (.ok (), t) ∧
      t.entityExpansions = s.entityExpansions := by
    unfold deliverText
    split
    · exact ⟨s, rfl, rfl⟩
    · rw [run_modify_bind]
      refine ⟨_, p.emit_eq_ok_iff.mpr ⟨rfl, nonThrowing _⟩, ?_⟩
      split
      · rfl
      · rfl
  obtain ⟨t, ran, count⟩ := returned
  obtain ⟨same, reads⟩ := p.deliverText_reads ran
  refine ⟨t, ran, same, reads, ?_⟩
  unfold potential
  rw [count, same]

/-- Content from the middle of a run of text on. -/
def textTail (element : ParserM Unit) (openName : Bytes) (start : SourceLocation) (text : Bytes) :
    ParserM Unit := do
  let text ← Comp.loop (fun _ s => s.rest.length) .outOfFuel (p.textRound start) text
  p.deliverText text
  p.parseContent element openName

/-- In front of markup a run of text ends. -/
theorem run_textTail_of_markup (element : ParserM Unit) (openName : Bytes) (start : SourceLocation)
    (text : Bytes) {s : ParserState} (ends : (eof s.rest || peek s.rest == 0x3C) = true) :
    (p.textTail element openName start text).run s =
      (p.deliverText text >>= fun _ => p.parseContent element openName).run s := by
  have round : (p.textRound start text).run s = (.ok (.done text), s) := by
    unfold textRound
    rw [run_look_bind, run_look_bind, ends]
    rfl
  exact run_bind_of_ok (run_loop_of_done (shrinks_of_advances (p.textRound_strict start)) round) _

theorem run_textTail_of_piece (element : ParserM Unit) (openName : Bytes) {start : SourceLocation}
    {text following : Bytes} {s t : ParserState}
    (round : (p.textRound start text).run s = (.ok (.next following), t)) :
    (p.textTail element openName start text).run s =
      (p.textTail element openName start following).run t := by
  unfold textTail
  rw [run_bind, run_bind,
    run_loop_of_next (shrinks_of_advances (p.textRound_strict start)) round]

/-- Content is what follows an empty run of text. -/
theorem run_parseContent (fuel : Nat) (openName : Bytes) (s : ParserState) :
    (p.parseContent (p.parseElement fuel) openName).run s =
      (p.textTail (p.parseElement fuel) openName (p.location s.rest) []).run s := by
  cases ends : eof s.rest || peek s.rest == 0x3C with
  | true => exact (p.run_textTail_of_markup _ _ _ [] ends).symm
  | false =>
      obtain ⟨more, notTag⟩ := Bool.or_eq_false_iff.mp ends
      have noMarkup : ∀ others, startsWith (0x3C :: others) s.rest = false := by
        intro others
        cases chars : s.rest with
        | nil => rfl
        | cons c rest =>
            rw [chars] at notTag
            rw [startsWith_eq_false_iff, values_cons, List.cons_prefix_cons]
            exact fun same => beq_eq_false_iff_ne.mp notTag same.1.symm
      have round : (p.contentRound (p.parseElement fuel) openName ()).run s =
          (p.parseText >>= fun _ => pure (.next ())).run s := by
        unfold contentRound
        rw [run_look_bind, more, if_neg Bool.false_ne_true, run_look_bind,
          show startsWith (u32 "</") s.rest = false from noMarkup _, if_neg Bool.false_ne_true,
          run_look_bind, show startsWith (u32 "<!--") s.rest = false from noMarkup _,
          if_neg Bool.false_ne_true, run_look_bind,
          show startsWith (u32 "<![CDATA[") s.rest = false from noMarkup _,
          if_neg Bool.false_ne_true, run_look_bind,
          show startsWith (u32 "<?") s.rest = false from noMarkup _, if_neg Bool.false_ne_true,
          run_look_bind, notTag, if_neg Bool.false_ne_true]
      have texts : (p.textTail (p.parseElement fuel) openName (p.location s.rest) []).run s =
          (p.parseText >>= fun _ => p.parseContent (p.parseElement fuel) openName).run s := by
        unfold textTail parseText
        rw [bind_assoc, run_look_bind, bind_assoc]
      rw [texts, parseContent, run_loop (p.contentRound_shrinks fuel openName), round, run_bind,
        run_bind]
      cases p.parseText.run s with
      | mk outcome t =>
          cases outcome with
          | error error => rfl
          | ok result => rfl

/-- What acceptance of content relies on, inside `tags` and the element of
name `top`. -/
structure Within (limit fuel : Nat) (tags : List StartTag) (top : QualifiedName)
    (s : ParserState) : Prop where
  fits : Fits limit s
  inScope : s.namespaceScopes = scopesOf p.options.namespaces tags
  inside : s.elementNameStack.head? = some top
  enough : s.rest.length ≤ fuel

variable {p} in
theorem Within.after {fuel : Nat} {tags : List StartTag} {top : QualifiedName} {s t : ParserState}
    {text : Text} {events : List Event} (within : p.Within limit fuel tags top s)
    (covers : Covers s t text events) : p.Within limit fuel tags top t := by
  refine ⟨within.fits.after covers, covers.namespaceScopes.trans within.inScope, ?_, ?_⟩
  · rw [covers.elementNameStack]
    exact within.inside
  · obtain ⟨consumed, split, _⟩ := covers.rest
    have enough := within.enough
    rw [split, List.length_append] at enough
    omega

/-- The parser accepts a content with its end tag, from the middle of a run of
text on. -/
def TailAccepts (limit : Nat) (content : Content) : Prop :=
  ∀ (fuel : Nat) (name space : Text) (tags : List StartTag) (top : QualifiedName) (s : ParserState)
    (after : List DecodedChar) (start : SourceLocation) (text : Bytes),
    Name name → Spaces space → content.Readable (p.dialect []) →
    content.Named p.options.namespaces tags → p.Within limit fuel tags top s →
    text.length + weight s.rest ≤ limit →
    Starts s.rest (content.render ++ renderEndTag name space) after →
    Accepts (p.textTail (p.parseElement fuel) (utf8 name) start text) s ()
      (content.render ++ renderEndTag name space)
      (content.events p.options.namespaces tags text ++ [.endElement top]) after

/-- An item of markup in front of further content. -/
theorem accepts_item (nonThrowing : p.handler.NonThrowing) {fuel : Nat} {name space : Text}
    {tags : List StartTag} {top : QualifiedName} {s : ParserState} {after : List DecodedChar}
    {start : SourceLocation} {text : Bytes} {next : Content} {item : Text} {events : List Event}
    (round : ∀ (between : List DecodedChar) (u : ParserState), p.Within limit fuel tags top u →
      Starts u.rest (0x3C :: item) between →
      Accepts (p.contentRound (p.parseElement fuel) (utf8 name) ()) u (.next ()) (0x3C :: item)
        events between)
    (nextAccepts : p.TailAccepts limit next) (named : Name name) (spaces : Spaces space)
    (readable : next.Readable (p.dialect [])) (namedIn : next.Named p.options.namespaces tags)
    (within : p.Within limit fuel tags top s)
    (starts : Starts s.rest (0x3C :: item ++ next.render ++ renderEndTag name space) after) :
    Accepts (p.textTail (p.parseElement fuel) (utf8 name) start text) s ()
      (0x3C :: item ++ next.render ++ renderEndTag name space)
      (flushText text ++ (events ++ (next.events p.options.namespaces tags [] ++ [.endElement top])))
      after := by
  rw [List.append_assoc] at starts ⊢
  obtain ⟨between, startsItem, startsNext⟩ := starts.split
  have markup : (eof s.rest || peek s.rest == 0x3C) = true := by
    rw [(Starts.front startsItem).2]
    exact Bool.or_true _
  obtain ⟨u, ranText, sameText, coversText⟩ := p.accepts_deliverText nonThrowing text s
  have withinItem := within.after coversText
  obtain ⟨v, ranItem, rfl, coversItem⟩ := round between u withinItem (sameText ▸ startsItem)
  have withinNext := withinItem.after coversItem
  have room : ([] : Bytes).length + weight v.rest ≤ limit := by
    have bound := withinNext.fits.weight_le
    simpa using bound
  obtain ⟨t, ranNext, same, coversNext⟩ := nextAccepts fuel name space tags top v after
    (p.location v.rest) [] named spaces readable namedIn withinNext room startsNext
  refine ⟨t, ?_, same, coversText.trans (coversItem.trans coversNext)⟩
  rw [p.run_textTail_of_markup _ _ start text markup, run_bind_of_ok ranText, parseContent,
    run_loop_of_next (p.contentRound_shrinks fuel (utf8 name)) ranItem]
  exact (p.run_parseContent fuel (utf8 name) v).trans ranNext

theorem tailAccepts_nil (generous : Generous p.options limit)
    (nonThrowing : p.handler.NonThrowing) : p.TailAccepts limit .nil := by
  intro fuel name space tags top s after start text named spaces _ _ within _ starts
  change Starts s.rest (renderEndTag name space) after at starts
  have front : Starts s.rest ([0x3C, 0x2F] ++ (name ++ (space ++ [0x3E]))) after := by
    simpa [renderEndTag] using starts
  obtain ⟨u, ranText, sameText, coversText⟩ := p.accepts_deliverText nonThrowing text s
  rw [← sameText] at starts front
  have withinEnd := within.after coversText
  obtain ⟨t, ranEnd, same, coversEnd⟩ := p.accepts_parseEndTag generous nonThrowing named spaces
    withinEnd.fits withinEnd.inside starts
  have closes : startsWith (u32 "</") u.rest = true := front.startsWith (List.prefix_append _ _)
  have more := (Starts.front front).1
  have round : (p.contentRound (p.parseElement fuel) (utf8 name) ()).run u = (.ok (.done ()), t) := by
    unfold contentRound
    rw [run_look_bind, more, if_neg Bool.false_ne_true, run_look_bind, closes, if_pos rfl,
      run_bind_of_ok ranEnd]
    rfl
  have markup : (eof s.rest || peek s.rest == 0x3C) = true := by
    rw [← sameText, (Starts.front front).2]
    exact Bool.or_true _
  refine ⟨t, ?_, same, ?_⟩
  · rw [p.run_textTail_of_markup _ _ start text markup, run_bind_of_ok ranText, parseContent,
      run_loop_of_done (p.contentRound_shrinks fuel (utf8 name)) round]
  · exact coversText.trans coversEnd

theorem tailAccepts_piece (generous : Generous p.options limit) {item : Piece} {next : Content}
    (nextAccepts : p.TailAccepts limit next) : p.TailAccepts limit (.piece item next) := by
  intro fuel name space tags top s after start text named spaces readable namedIn within room starts
  have spelled : (Content.piece item next).render ++ renderEndTag name space =
      item.render ++ (next.render ++ renderEndTag name space) := List.append_assoc _ _ _
  rw [spelled] at starts ⊢
  obtain ⟨_, startsItem, startsNext⟩ := starts.split
  obtain ⟨t, ran, rfl, covers⟩ :=
    p.accepts_takePiece generous within.fits startsItem (.inr rfl) readable.1 text
  have longer := p.length_le_of_readable readable.1
  have spent := covers.weight
  have roomNext : (text ++ utf8 item.value).length + weight t.rest ≤ limit := by
    rw [List.length_append]
    omega
  obtain ⟨u, ranNext, same, coversNext⟩ := nextAccepts fuel name space tags top t after start
    (text ++ utf8 item.value) named spaces readable.2 namedIn (within.after covers) roomNext startsNext
  have round : (p.textRound start text).run s = (.ok (.next (text ++ utf8 item.value)), t) := by
    obtain ⟨c, rest, front, excluded⟩ := readable.1.front
    rw [front] at startsItem
    obtain ⟨more, peeked⟩ := Starts.front startsItem
    have notTag : c ≠ 0x3C := by
      rcases excluded with rfl | notExcluded
      · decide
      · exact fun isTag => notExcluded (.inl isTag)
    unfold textRound
    rw [run_look_bind, run_look_bind, more, peeked, if_neg (by simpa using notTag),
      run_bind_of_ok ran]
    exact bind_eq_ok.mpr ⟨(), t, p.enforceTokenSize_eq_ok_iff.mpr
      ⟨Nat.le_trans (Nat.le_trans (Nat.le_add_right _ _) roomNext) generous.tokens, rfl⟩, rfl⟩
  refine ⟨u, ?_, same, covers.trans coversNext⟩
  rw [p.run_textTail_of_piece _ _ round, ranNext]

theorem accepts_contentRound_comment (generous : Generous p.options limit)
    (nonThrowing : p.handler.NonThrowing) (element : ParserM Unit) (openName : Bytes) {body : Text}
    {s : ParserState} {after : List DecodedChar} (fits : Fits limit s)
    (readable : CommentReadable (p.dialect []) body) (starts : Starts s.rest (renderComment body) after) :
    Accepts (p.contentRound element openName ()) s (.next ()) (renderComment body)
      [.comment (utf8 body)] after := by
  obtain ⟨t, ran, same, covers⟩ := p.accepts_parseComment generous nonThrowing fits starts readable
  have front : Starts s.rest ([0x3C, 0x21, 0x2D, 0x2D] ++ (body ++ [0x2D, 0x2D, 0x3E])) after := by
    simpa [renderComment] using starts
  refine ⟨t, ?_, same, covers⟩
  unfold contentRound
  rw [run_look_bind, (Starts.front front).1, if_neg Bool.false_ne_true, run_look_bind,
    show startsWith (u32 "</") s.rest = false from front.excludes (by decide),
    if_neg Bool.false_ne_true, run_look_bind,
    show startsWith (u32 "<!--") s.rest = true from front.startsWith (List.prefix_append _ _),
    if_pos rfl, run_bind_of_ok ran]
  rfl

theorem accepts_contentRound_cdata (generous : Generous p.options limit)
    (nonThrowing : p.handler.NonThrowing) (element : ParserM Unit) (openName : Bytes) {body : Text}
    {s : ParserState} {after : List DecodedChar} (fits : Fits limit s)
    (readable : CdataReadable (p.dialect []) body) (starts : Starts s.rest (renderCdata body) after) :
    Accepts (p.contentRound element openName ()) s (.next ()) (renderCdata body)
      [.cdata (utf8 body)] after := by
  obtain ⟨t, ran, same, covers⟩ := p.accepts_parseCdata generous nonThrowing fits starts readable
  have front : Starts s.rest ([0x3C, 0x21, 0x5B, 0x43, 0x44, 0x41, 0x54, 0x41, 0x5B] ++
      (body ++ [0x5D, 0x5D, 0x3E])) after := by
    simpa [renderCdata] using starts
  refine ⟨t, ?_, same, covers⟩
  unfold contentRound
  rw [run_look_bind, (Starts.front front).1, if_neg Bool.false_ne_true, run_look_bind,
    show startsWith (u32 "</") s.rest = false from front.excludes (by decide),
    if_neg Bool.false_ne_true, run_look_bind,
    show startsWith (u32 "<!--") s.rest = false from front.excludes (by decide),
    if_neg Bool.false_ne_true, run_look_bind,
    show startsWith (u32 "<![CDATA[") s.rest = true from front.startsWith (List.prefix_append _ _),
    if_pos rfl, run_bind_of_ok ran]
  rfl

theorem accepts_contentRound_instruction (generous : Generous p.options limit)
    (nonThrowing : p.handler.NonThrowing) (element : ParserM Unit) (openName : Bytes)
    {target gap data : Text} {s : ParserState} {after : List DecodedChar} (fits : Fits limit s)
    (readable : InstructionReadable (p.dialect []) target gap data)
    (starts : Starts s.rest (renderInstruction target gap data) after) :
    Accepts (p.contentRound element openName ()) s (.next ()) (renderInstruction target gap data)
      [.processingInstruction (utf8 target) (utf8 data)] after := by
  obtain ⟨t, ran, same, covers⟩ :=
    p.accepts_parseProcessingInstruction generous nonThrowing fits starts readable
  have front : Starts s.rest ([0x3C, 0x3F] ++ (target ++ (gap ++ (data ++ [0x3F, 0x3E])))) after := by
    simpa [renderInstruction] using starts
  refine ⟨t, ?_, same, covers⟩
  unfold contentRound
  rw [run_look_bind, (Starts.front front).1, if_neg Bool.false_ne_true, run_look_bind,
    show startsWith (u32 "</") s.rest = false from front.excludes (by decide),
    if_neg Bool.false_ne_true, run_look_bind,
    show startsWith (u32 "<!--") s.rest = false from front.excludes (by decide),
    if_neg Bool.false_ne_true, run_look_bind,
    show startsWith (u32 "<![CDATA[") s.rest = false from front.excludes (by decide),
    if_neg Bool.false_ne_true, run_look_bind,
    show startsWith (u32 "<?") s.rest = true from front.startsWith (List.prefix_append _ _),
    if_pos rfl, run_bind_of_ok ran]
  rfl

/-! ## Elements -/

theorem accepts_parseBody_empty (nonThrowing : p.handler.NonThrowing) (element : ParserM Unit)
    (name : Bytes) (top : QualifiedName) {s : ParserState} {after : List DecodedChar}
    (starts : Starts s.rest [0x2F, 0x3E] after) :
    Accepts (p.parseBody element name top) s () [0x2F, 0x3E] [.endElement top] after := by
  have closes : startsWith (u32 "/>") s.rest = true := starts.startsWith List.prefix_rfl
  obtain ⟨t, ran, rfl, covers⟩ := p.accepts_expectSequence starts "empty element close"
  obtain ⟨u, emitted, same, coversEvent⟩ := p.accepts_emit nonThrowing (.endElement top) t
  refine ⟨u, ?_, same, covers.trans coversEvent⟩
  unfold parseBody
  rw [run_look_bind, closes, if_pos rfl]
  exact bind_eq_ok.mpr ⟨_, _, ran, emitted⟩

theorem accepts_parseBody_content {children : Content} (accepts : p.TailAccepts limit children)
    {fuel : Nat} {name space : Text} {tags : List StartTag} {top : QualifiedName} {s : ParserState}
    {after : List DecodedChar} (named : Name name) (spaces : Spaces space)
    (readable : children.Readable (p.dialect []))
    (namedIn : children.Named p.options.namespaces tags) (within : p.Within limit fuel tags top s)
    (starts : Starts s.rest (0x3E :: (children.render ++ renderEndTag name space)) after) :
    Accepts (p.parseBody (p.parseElement fuel) (utf8 name) top) s ()
      (0x3E :: (children.render ++ renderEndTag name space))
      (children.events p.options.namespaces tags [] ++ [.endElement top]) after := by
  have nonempty : startsWith (u32 "/>") s.rest = false := Starts.not_startsWith starts (by decide)
  have spelled : Starts s.rest ([0x3E] ++ (children.render ++ renderEndTag name space)) after := starts
  obtain ⟨_, startsClose, startsContent⟩ := spelled.split
  obtain ⟨t, ran, rfl, covers⟩ := p.accepts_expect startsClose "'>'"
  have withinContent := within.after covers
  have room : ([] : Bytes).length + weight t.rest ≤ limit := by
    have bound := withinContent.fits.weight_le
    simpa using bound
  obtain ⟨u, ranContent, same, coversContent⟩ := accepts fuel name space tags top t after
    (p.location t.rest) [] named spaces readable namedIn withinContent room startsContent
  refine ⟨u, ?_, same, covers.trans coversContent⟩
  unfold parseBody
  rw [run_look_bind, nonempty, if_neg Bool.false_ne_true]
  exact bind_eq_ok.mpr ⟨_, _, ran, (p.run_parseContent fuel (utf8 name) t).trans ranContent⟩

/-- The brackets of a start tag leave room for one more element. -/
theorem Enters.fits {mode : NamespaceMode} {tags : List StartTag} {tag : Tag}
    {s s1 s2 : ParserState} {name attributes : Text} (enters : Enters mode tags tag s1 s2 attributes)
    (fits : Fits limit s) (opened : Covers s s1 (0x3C :: name) [])
    (spent : potential s2 ≤ potential s1) : Fits limit s2 := by
  refine ⟨Nat.le_trans spent (Nat.le_trans opened.spent fits.expansions), ?_, ?_⟩
  · obtain ⟨consumed, split, _⟩ := enters.rest
    have inside : weight s1.rest = weight consumed + weight s2.rest := by rw [split, weight_append]
    have outside := opened.weight
    have longer : 0 < weightOf (0x3C :: name) := weightOf_cons_pos _ _
    have depth := fits.depth
    rw [enters.elementStack, opened.elementStack, List.length_cons]
    omega
  · rw [enters.dtd, opened.dtd, fits.dtd]

theorem scopesOf_cons_ne_nil (mode : NamespaceMode) (tag : StartTag) (tags : List StartTag) :
    scopesOf mode (tag :: tags) ≠ [] := by
  cases mode with
  | enabled => exact List.cons_ne_nil _ _
  | disabled => exact List.cons_ne_nil _ _

/-- White space or the end of the tag follows the name of a tag. -/
theorem tagName_stops {tag : Tag} (readable : tag.Readable (p.dialect []))
    {chars after : List DecodedChar} {body : Text}
    (starts : Starts chars (renderAttributes tag.attributes ++ tag.after ++ body) after)
    (closes : ∀ chars, Starts chars body after → TagCloses chars) : StopsAt isNameChar chars := by
  cases attributes : tag.attributes with
  | nil =>
      rw [attributes] at starts
      cases space : tag.after with
      | nil =>
          rw [space] at starts
          exact (closes chars starts).stops rfl rfl
      | cons c others =>
          rw [space] at starts
          have isSpace := readable.after c (space ▸ List.mem_cons_self)
          exact Starts.stops starts (isNameChar_of_isSpace isSpace)
  | cons attr others =>
      have separated := readable.first attr (by rw [attributes]; rfl)
      obtain ⟨c, rest, before⟩ := List.exists_cons_of_ne_nil separated
      have isSpace := (readable.attributes attr (attributes ▸ List.mem_cons_self)).before c
        (before ▸ List.mem_cons_self)
      have spelled : renderAttributes tag.attributes ++ tag.after ++ body = c :: (rest ++ attr.name ++
          attr.beforeEquals ++ 0x3D :: (attr.afterEquals ++ attr.quote :: (renderPieces attr.value ++
            [attr.quote])) ++ renderAttributes others ++ tag.after ++ body) := by
        simp [attributes, renderAttributes, Attribute.render, before]
      rw [spelled] at starts
      exact starts.stops (isNameChar_of_isSpace isSpace)

/-- An element whose body is accepted behind its start tag. -/
theorem accepts_parseElement_of_body (generous : Generous p.options limit)
    (nonThrowing : p.handler.NonThrowing) {fuel : Nat} {tag : Tag}
    (readable : tag.Readable (p.dialect [])) {tags : List StartTag}
    (namedIn : NamedIn p.options.namespaces (tag.startTag :: tags) tag.startTag) {s : ParserState}
    {after : List DecodedChar} (fits : Fits limit s)
    (inScope : s.namespaceScopes = scopesOf p.options.namespaces tags)
    (enough : s.rest.length ≤ fuel) {body : Text} {events : List Event}
    (starts : Starts s.rest ([0x3C] ++ tag.render ++ body) after)
    (closes : ∀ chars, Starts chars body after → TagCloses chars)
    (bodyAccepts : ∀ (u : ParserState) (inner : Nat), fuel = inner + 1 →
      p.Within limit inner (tag.startTag :: tags)
        (tag.elementName p.options.namespaces (tag.startTag :: tags)) u → Starts u.rest body after →
      Accepts (p.parseBody (p.parseElement inner) (utf8 tag.name)
        (tag.elementName p.options.namespaces (tag.startTag :: tags))) u () body events after) :
    Accepts (p.parseElement fuel) s () ([0x3C] ++ tag.render ++ body)
      (.startElement (tag.elementName p.options.namespaces (tag.startTag :: tags))
        (attributesIn p.options.namespaces (tag.startTag :: tags) tag.startTag) :: events) after := by
  have spelled : [0x3C] ++ tag.render ++ body =
      (0x3C :: tag.name) ++ ((renderAttributes tag.attributes ++ tag.after) ++ body) := by
    simp [Tag.render]
  rw [spelled] at starts
  obtain ⟨_, startsName, startsRest⟩ := starts.split
  have follows := p.tagName_stops readable startsRest closes
  obtain ⟨s1, ran1, rfl, covers1⟩ := p.accepts_parseTagName generous readable.name fits startsName
    follows (p.location s.rest)
  obtain ⟨_, startsAttributes, startsBody⟩ := startsRest.split
  obtain ⟨s2, ran2, rfl, enters, spent⟩ := p.accepts_openElement generous nonThrowing readable namedIn
    (fits.after covers1) (covers1.namespaceScopes.trans inScope) startsAttributes
    (closes _ startsBody) (p.location s.rest)
  obtain ⟨nameChars, splitName, spelledName⟩ := covers1.rest
  obtain ⟨attributeChars, splitAttributes, spelledAttributes⟩ := enters.rest
  have lengths : s.rest.length = nameChars.length + (attributeChars.length + s2.rest.length) := by
    rw [splitName, splitAttributes, List.length_append, List.length_append]
  have longer : 0 < nameChars.length := by
    rw [← values_length, spelledName]
    exact Nat.succ_pos _
  obtain ⟨inner, rfl⟩ := Nat.exists_eq_succ_of_ne_zero (show fuel ≠ 0 by omega)
  have within : p.Within limit inner (tag.startTag :: tags)
      (tag.elementName p.options.namespaces (tag.startTag :: tags)) s2 := by
    refine ⟨enters.fits fits covers1 spent, enters.namespaceScopes, ?_, by omega⟩
    rw [enters.elementNameStack]
    rfl
  obtain ⟨s3, ran3, rfl, covers3⟩ := bodyAccepts s2 inner rfl within startsBody
  obtain ⟨t, closed, leaves, count⟩ : ∃ t, (p.finishValidationFrame (p.location s.rest) >>= fun _ =>
      popElement).run s3 = (.ok (), t) ∧ Leaves s3 t ∧ t.entityExpansions = s3.entityExpansions := by
    refine p.closeElement_runs ?_ ?_ ?_ ?_ ?_ _
    · rw [covers3.dtd, within.fits.dtd]
    · have deeper := covers3.validationDepth.trans enters.validationDepth
      exact List.ne_nil_of_length_eq_add_one deeper
    · rw [covers3.namespaceScopes, enters.namespaceScopes]
      exact scopesOf_cons_ne_nil _ _ _
    · rw [covers3.elementNameStack, enters.elementNameStack]
      exact List.cons_ne_nil _ _
    · rw [covers3.elementStack, enters.elementStack]
      exact List.cons_ne_nil _ _
  refine ⟨t, ?_, leaves.rest, ?_, ?_⟩
  · unfold parseElement
    rw [run_look_bind]
    exact bind_eq_ok.mpr ⟨_, _, ran1, bind_eq_ok.mpr ⟨_, _, ran2, bind_eq_ok.mpr
      ⟨_, _, ran3, closed⟩⟩⟩
  · have whole := Enters.reads covers1.toReads inScope enters covers3.toReads leaves
    rwa [← List.append_assoc tag.name] at whole
  · have last : potential t = potential s3 := by
      unfold potential
      rw [count, leaves.rest]
    rw [last]
    exact Nat.le_trans covers3.spent (Nat.le_trans spent covers1.spent)

theorem accepts_parseElement_empty (generous : Generous p.options limit)
    (nonThrowing : p.handler.NonThrowing) {fuel : Nat} {tag : Tag}
    (readable : tag.Readable (p.dialect [])) {tags : List StartTag}
    (namedIn : NamedIn p.options.namespaces (tag.startTag :: tags) tag.startTag) {s : ParserState}
    {after : List DecodedChar} (fits : Fits limit s)
    (inScope : s.namespaceScopes = scopesOf p.options.namespaces tags)
    (enough : s.rest.length ≤ fuel)
    (starts : Starts s.rest (Content.emptyElement tag .nil).render after) :
    Accepts (p.parseElement fuel) s () (Content.emptyElement tag .nil).render
      ((Content.emptyElement tag .nil).events p.options.namespaces tags []) after := by
  have spelled : (Content.emptyElement tag .nil).render = [0x3C] ++ tag.render ++ [0x2F, 0x3E] := by
    simp [Content.render]
  rw [spelled] at starts ⊢
  refine p.accepts_parseElement_of_body generous nonThrowing readable namedIn fits inScope enough
    starts (fun chars closes => ⟨after, .inr closes⟩) ?_
  intro u inner _ _ startsBody
  exact p.accepts_parseBody_empty nonThrowing _ _ _ startsBody

theorem accepts_parseElement_content (generous : Generous p.options limit)
    (nonThrowing : p.handler.NonThrowing) {fuel : Nat} {tag : Tag} {children : Content}
    {space : Text} (accepts : p.TailAccepts limit children) {tags : List StartTag}
    (readable : (Content.element tag children space .nil).Readable (p.dialect []))
    (namedIn : (Content.element tag children space .nil).Named p.options.namespaces tags)
    {s : ParserState} {after : List DecodedChar} (fits : Fits limit s)
    (inScope : s.namespaceScopes = scopesOf p.options.namespaces tags)
    (enough : s.rest.length ≤ fuel)
    (starts : Starts s.rest (Content.element tag children space .nil).render after) :
    Accepts (p.parseElement fuel) s () (Content.element tag children space .nil).render
      ((Content.element tag children space .nil).events p.options.namespaces tags []) after := by
  obtain ⟨readableTag, readableChildren, spaces, _⟩ := readable
  obtain ⟨namedTag, namedChildren, _⟩ := namedIn
  have spelled : (Content.element tag children space .nil).render =
      [0x3C] ++ tag.render ++ (0x3E :: (children.render ++ renderEndTag tag.name space)) := by
    simp [Content.render]
  rw [spelled] at starts ⊢
  refine p.accepts_parseElement_of_body generous nonThrowing readableTag namedTag fits inScope enough
    starts ?_ ?_
  · intro chars closes
    have bracket : Starts chars ([0x3E] ++ (children.render ++ renderEndTag tag.name space)) after := closes
    obtain ⟨between, startsClose, _⟩ := bracket.split
    exact ⟨between, .inl startsClose⟩
  · intro u inner _ within startsBody
    exact p.accepts_parseBody_content accepts readableTag.name spaces readableChildren namedChildren
      within startsBody

/-- The content of an element, if there is any, is accepted. -/
def BodyAccepts (limit : Nat) (body : Option (Content × Text)) : Prop :=
  ∀ children space, body = some (children, space) → p.TailAccepts limit children

theorem accepts_parseElement (generous : Generous p.options limit)
    (nonThrowing : p.handler.NonThrowing) {fuel : Nat} {tag : Tag} {body : Option (Content × Text)}
    (accepts : p.BodyAccepts limit body) {tags : List StartTag}
    (readable : (elementContent tag body .nil).Readable (p.dialect []))
    (namedIn : (elementContent tag body .nil).Named p.options.namespaces tags) {s : ParserState}
    {after : List DecodedChar} (fits : Fits limit s)
    (inScope : s.namespaceScopes = scopesOf p.options.namespaces tags)
    (enough : s.rest.length ≤ fuel)
    (starts : Starts s.rest (elementContent tag body .nil).render after) :
    Accepts (p.parseElement fuel) s () (elementContent tag body .nil).render
      ((elementContent tag body .nil).events p.options.namespaces tags []) after := by
  cases body with
  | none =>
      exact p.accepts_parseElement_empty generous nonThrowing readable.1 namedIn.1 fits inScope
        enough starts
  | some body =>
      exact p.accepts_parseElement_content generous nonThrowing (accepts body.1 body.2 rfl) readable
        namedIn fits inScope enough starts

/-- An element begins with a bracket and a name. -/
theorem elementContent_front {tag : Tag} {body : Option (Content × Text)}
    (readable : (elementContent tag body .nil).Readable (p.dialect [])) :
    ∃ first item, NameStartChar first ∧
      (elementContent tag body .nil).render = 0x3C :: first :: item := by
  have named : Name tag.name := by
    cases body with
    | none => exact readable.1.name
    | some body => exact readable.1.name
  obtain ⟨first, rest, spelled, starter⟩ := named.front
  cases body with
  | none => exact ⟨first, _, starter, by simp [elementContent, Content.render, Tag.render, spelled]; rfl⟩
  | some body =>
      exact ⟨first, _, starter, by simp [elementContent, Content.render, Tag.render, spelled]; rfl⟩

theorem accepts_contentRound_element (openName : Bytes) {fuel : Nat} {text : Text}
    {events : List Event} {s : ParserState} {after : List DecodedChar} {first : Nat} {item : Text}
    (starter : NameStartChar first) (front : text = 0x3C :: first :: item)
    (starts : Starts s.rest text after)
    (accepts : Accepts (p.parseElement fuel) s () text events after) :
    Accepts (p.contentRound (p.parseElement fuel) openName ()) s (.next ()) text events after := by
  obtain ⟨t, ran, same, covers⟩ := accepts
  rw [front] at starts
  have opened : Starts s.rest ([0x3C, first] ++ item) after := starts
  have other : ∀ mark others, mark = 0x2F ∨ mark = 0x21 ∨ mark = 0x3F →
      startsWith (0x3C :: mark :: others) s.rest = false := by
    intro mark others isMark
    have differs : mark ≠ first := by
      unfold NameStartChar at starter
      omega
    refine opened.excludes ⟨?_, ?_⟩
    · simp [List.cons_prefix_cons, differs]
    · simp [List.cons_prefix_cons, differs.symm]
  refine ⟨t, ?_, same, covers⟩
  obtain ⟨more, peeked⟩ := Starts.front starts
  unfold contentRound
  rw [run_look_bind, more, if_neg Bool.false_ne_true, run_look_bind,
    show startsWith (u32 "</") s.rest = false from other _ _ (.inl rfl),
    if_neg Bool.false_ne_true, run_look_bind,
    show startsWith (u32 "<!--") s.rest = false from other _ _ (.inr (.inl rfl)),
    if_neg Bool.false_ne_true, run_look_bind,
    show startsWith (u32 "<![CDATA[") s.rest = false from other _ _ (.inr (.inl rfl)),
    if_neg Bool.false_ne_true, run_look_bind,
    show startsWith (u32 "<?") s.rest = false from other _ _ (.inr (.inr rfl)),
    if_neg Bool.false_ne_true, run_look_bind, peeked, beq_self_eq_true, if_pos rfl,
    run_bind_of_ok ran]
  rfl

theorem tailAccepts_element (generous : Generous p.options limit)
    (nonThrowing : p.handler.NonThrowing) (tag : Tag) {body : Option (Content × Text)}
    (accepts : p.BodyAccepts limit body) {next : Content} (nextAccepts : p.TailAccepts limit next) :
    p.TailAccepts limit (elementContent tag body next) := by
  intro fuel name space tags top s after start text named spaces readable namedIn within _ starts
  obtain ⟨readableElement, readableNext⟩ := readable_elementContent.mp readable
  obtain ⟨namedElement, namedNext⟩ := named_elementContent.mp namedIn
  obtain ⟨first, item, starter, front⟩ := p.elementContent_front readableElement
  have markup : ∀ item next', elementContent tag body next ≠ .piece item next' := by
    intro item next'
    cases body with
    | none => exact fun same => nomatch same
    | some body => exact fun same => nomatch same
  have delivered : (elementContent tag body next).events p.options.namespaces tags text ++
      [.endElement top] = flushText text ++ ((elementContent tag body .nil).events
        p.options.namespaces tags [] ++ (next.events p.options.namespaces tags [] ++
          [.endElement top])) := by
    rw [events_flush _ _ _ markup, events_elementContent]
    simp
  rw [delivered, render_elementContent, front]
  rw [render_elementContent, front] at starts
  refine p.accepts_item nonThrowing ?_ nextAccepts named spaces readableNext namedNext within starts
  intro between u withinItem startsItem
  rw [← front] at startsItem ⊢
  exact p.accepts_contentRound_element (utf8 name) starter front startsItem
    (p.accepts_parseElement generous nonThrowing accepts readableElement namedElement
      withinItem.fits withinItem.inScope withinItem.enough startsItem)

/-- Within the limits every content is accepted. -/
theorem tailAccepts (generous : Generous p.options limit) (nonThrowing : p.handler.NonThrowing)
    (content : Content) : p.TailAccepts limit content := by
  induction content with
  | nil => exact p.tailAccepts_nil generous nonThrowing
  | piece item next ih => exact p.tailAccepts_piece generous ih
  | comment body next ih =>
      intro fuel name space tags top s after start text named spaces readable namedIn within _ starts
      have delivered : (Content.comment body next).events p.options.namespaces tags text ++
          [.endElement top] = flushText text ++ ([.comment (utf8 body)] ++
            (next.events p.options.namespaces tags [] ++ [.endElement top])) := by
        simp [Content.events]
      rw [delivered]
      refine p.accepts_item nonThrowing ?_ ih named spaces readable.2 namedIn within starts
      intro between u withinItem startsItem
      exact p.accepts_contentRound_comment generous nonThrowing _ _ withinItem.fits readable.1 startsItem
  | cdata body next ih =>
      intro fuel name space tags top s after start text named spaces readable namedIn within _ starts
      have delivered : (Content.cdata body next).events p.options.namespaces tags text ++
          [.endElement top] = flushText text ++ ([.cdata (utf8 body)] ++
            (next.events p.options.namespaces tags [] ++ [.endElement top])) := by
        simp [Content.events]
      rw [delivered]
      refine p.accepts_item nonThrowing ?_ ih named spaces readable.2 namedIn within starts
      intro between u withinItem startsItem
      exact p.accepts_contentRound_cdata generous nonThrowing _ _ withinItem.fits readable.1 startsItem
  | instruction target gap data next ih =>
      intro fuel name space tags top s after start text named spaces readable namedIn within _ starts
      have delivered : (Content.instruction target gap data next).events p.options.namespaces tags text ++
          [.endElement top] = flushText text ++ ([.processingInstruction (utf8 target) (utf8 data)] ++
            (next.events p.options.namespaces tags [] ++ [.endElement top])) := by
        simp [Content.events]
      rw [delivered]
      refine p.accepts_item nonThrowing ?_ ih named spaces readable.2 namedIn within starts
      intro between u withinItem startsItem
      exact p.accepts_contentRound_instruction generous nonThrowing _ _ withinItem.fits readable.1 startsItem
  | element tag children space next ihChildren ihNext =>
      have accepts : p.BodyAccepts limit (some (children, space)) := by
        intro content closing same
        cases same
        exact ihChildren
      exact p.tailAccepts_element generous nonThrowing tag accepts ihNext
  | emptyElement tag next ih =>
      have accepts : p.BodyAccepts limit none := by
        intro _ _ same
        cases same
      exact p.tailAccepts_element generous nonThrowing tag accepts ih

end Parser

/-! ## Documents -/

/-- No comment, processing instruction or space follows. -/
structure NoMisc (chars : List DecodedChar) : Prop where
  space : StopsAt isSpace chars
  comment : startsWith (u32 "<!--") chars = false
  instruction : startsWith (u32 "<?") chars = false

theorem noMisc_nil : NoMisc [] := ⟨fun _ front => (nomatch front), rfl, rfl⟩

/-- Misc items are spaces, and then nothing or an item that is none. -/
theorem miscs_split (miscs : List Misc) (d : Dialect) (readable : ∀ misc ∈ miscs, misc.Readable d) :
    ∃ space tail, miscs = space.map Misc.space ++ tail ∧ Spaces space ∧
      ∀ item ∈ tail.head?, ∀ c, item ≠ .space c := by
  induction miscs with
  | nil => exact ⟨[], [], rfl, fun _ member => (nomatch member), fun _ front => (nomatch front)⟩
  | cons misc miscs ih =>
      obtain ⟨first, others⟩ := List.forall_mem_cons.mp readable
      cases misc with
      | space c =>
          obtain ⟨space, tail, rfl, spaces, ends⟩ := ih others
          exact ⟨c :: space, tail, rfl, List.forall_mem_cons.mpr ⟨first, spaces⟩, ends⟩
      | comment body =>
          refine ⟨[], .comment body :: miscs, rfl, fun _ member => (nomatch member), ?_⟩
          intro item front c same
          cases front
          cases same
      | instruction target gap data =>
          refine ⟨[], .instruction target gap data :: miscs, rfl, fun _ member => (nomatch member), ?_⟩
          intro item front c same
          cases front
          cases same

namespace Parser

variable (p : Parser) {limit : Nat}

theorem run_skipMisc_of_none {s : ParserState} (none : NoMisc s.rest) :
    p.skipMisc.run s = (.ok (), s) := by
  have skipped : (scan p.skipWhitespace).run s = (.ok (), s) :=
    run_scan_eq_ok_iff.mpr ⟨s.rest, p.skipWhitespace_eq_ok_iff.mpr
      ⟨[], rfl, fun _ member => (nomatch member), none.space⟩, rfl⟩
  have round : (p.skipMiscRound ()).run s = (.ok (.done ()), s) := by
    unfold skipMiscRound
    rw [run_look_bind, run_bind_of_ok skipped, run_look_bind, run_look_bind, none.comment,
      if_neg Bool.false_ne_true, run_look_bind, none.instruction, if_neg Bool.false_ne_true, if_neg]
    · rfl
    · simp
  exact run_loop_of_done (shrinks_of_advances p.skipMiscRound_movesOn) round

/-- One round takes spaces and one item. -/
theorem accepts_skipMiscRound (generous : Generous p.options limit)
    (nonThrowing : p.handler.NonThrowing) {space : Text} (spaces : Spaces space) {item : Misc}
    (readable : item.Readable (p.dialect [])) (other : ∀ c, item ≠ .space c) {s : ParserState}
    {after : List DecodedChar} (fits : Fits limit s)
    (starts : Starts s.rest (space ++ item.render) after) :
    Accepts (p.skipMiscRound ()) s (.next ()) (space ++ item.render) item.events after := by
  obtain ⟨between, startsSpace, startsItem⟩ := starts.split
  cases item with
  | space c => exact absurd rfl (other c)
  | comment body =>
      have front : Starts between ([0x3C, 0x21, 0x2D, 0x2D] ++ (body ++ [0x2D, 0x2D, 0x3E])) after := by
        simpa [Misc.render, renderComment] using startsItem
      obtain ⟨t, ran, rfl, covers⟩ :=
        p.accepts_skipWhitespace startsSpace spaces (Starts.stops front (by decide))
      obtain ⟨u, ranItem, same, coversItem⟩ :=
        p.accepts_parseComment generous nonThrowing (fits.after covers) startsItem readable
      refine ⟨u, ?_, same, covers.trans coversItem⟩
      unfold skipMiscRound
      rw [run_look_bind, run_bind_of_ok ran, run_look_bind, run_look_bind,
        show startsWith (u32 "<!--") t.rest = true from front.startsWith (List.prefix_append _ _),
        if_pos rfl, run_bind_of_ok ranItem]
      rfl
  | instruction target gap data =>
      have front : Starts between ([0x3C, 0x3F] ++ (target ++ (gap ++ (data ++ [0x3F, 0x3E])))) after := by
        simpa [Misc.render, renderInstruction] using startsItem
      obtain ⟨t, ran, rfl, covers⟩ :=
        p.accepts_skipWhitespace startsSpace spaces (Starts.stops front (by decide))
      obtain ⟨u, ranItem, same, coversItem⟩ :=
        p.accepts_parseProcessingInstruction generous nonThrowing (fits.after covers) startsItem readable
      refine ⟨u, ?_, same, covers.trans coversItem⟩
      unfold skipMiscRound
      rw [run_look_bind, run_bind_of_ok ran, run_look_bind, run_look_bind,
        show startsWith (u32 "<!--") t.rest = false from front.excludes (by decide),
        if_neg Bool.false_ne_true, run_look_bind,
        show startsWith (u32 "<?") t.rest = true from front.startsWith (List.prefix_append _ _),
        if_pos rfl, run_bind_of_ok ranItem]
      rfl

theorem accepts_skipMisc_spaces {space : Text} (spaces : Spaces space) {s : ParserState}
    {after : List DecodedChar} (starts : Starts s.rest space after) (none : NoMisc after) :
    Accepts p.skipMisc s () space [] after := by
  have shrinks := shrinks_of_advances p.skipMiscRound_movesOn
  obtain ⟨t, ran, rfl, covers⟩ := p.accepts_skipWhitespace starts spaces none.space
  refine ⟨t, ?_, rfl, covers⟩
  by_cases moved : t.rest.length < s.rest.length
  · have round : (p.skipMiscRound ()).run s = (.ok (.next ()), t) := by
      unfold skipMiscRound
      rw [run_look_bind, run_bind_of_ok ran, run_look_bind, run_look_bind, none.comment,
        if_neg Bool.false_ne_true, run_look_bind, none.instruction, if_neg Bool.false_ne_true,
        if_pos (decide_eq_true moved)]
      rfl
    unfold skipMisc
    rw [run_loop_of_next shrinks round]
    exact p.run_skipMisc_of_none none
  · have round : (p.skipMiscRound ()).run s = (.ok (.done ()), t) := by
      unfold skipMiscRound
      rw [run_look_bind, run_bind_of_ok ran, run_look_bind, run_look_bind, none.comment,
        if_neg Bool.false_ne_true, run_look_bind, none.instruction, if_neg Bool.false_ne_true,
        if_neg (by simpa using moved)]
      rfl
    exact run_loop_of_done shrinks round

theorem accepts_skipMisc (generous : Generous p.options limit)
    (nonThrowing : p.handler.NonThrowing) {miscs : List Misc}
    (readable : ∀ misc ∈ miscs, misc.Readable (p.dialect [])) {s : ParserState}
    {after : List DecodedChar} (fits : Fits limit s) (starts : Starts s.rest (renderMiscs miscs) after)
    (none : NoMisc after) : Accepts p.skipMisc s () (renderMiscs miscs) (miscEvents miscs) after := by
  generalize count : miscs.length = number
  induction number using Nat.strongRecOn generalizing miscs s with
  | ind number ih =>
      obtain ⟨space, tail, rfl, spaces, others⟩ := miscs_split miscs _ readable
      rw [renderMiscs_append, renderMiscs_spaces] at starts ⊢
      rw [miscEvents_append, miscEvents_spaces, List.nil_append]
      cases tail with
      | nil =>
          change Starts s.rest (space ++ []) after at starts
          change Accepts p.skipMisc s () (space ++ []) [] after
          rw [List.append_nil] at starts ⊢
          exact p.accepts_skipMisc_spaces spaces starts none
      | cons item tail =>
          have readableTail := (List.forall_mem_append.mp readable).2
          have spelled : space ++ renderMiscs (item :: tail) =
              (space ++ item.render) ++ renderMiscs tail := (List.append_assoc _ _ _).symm
          rw [spelled] at starts ⊢
          obtain ⟨_, startsItem, startsTail⟩ := starts.split
          obtain ⟨t, round, rfl, covers⟩ := p.accepts_skipMiscRound generous nonThrowing spaces
            (readableTail item List.mem_cons_self) (others item rfl) fits startsItem
          have fewer : tail.length < number := by
            rw [← count]
            simp
            omega
          obtain ⟨u, ran, same, coversTail⟩ := ih tail.length fewer
            (fun misc member => readableTail misc (List.mem_cons_of_mem item member))
            (fits.after covers) startsTail rfl
          refine ⟨u, ?_, same, covers.trans coversTail⟩
          unfold skipMisc
          rw [run_loop_of_next (shrinks_of_advances p.skipMiscRound_movesOn) round]
          exact ran

end Parser

/-- The target of an instruction is the longest name behind its opener. -/
theorem target_eq_takeWhile {d : Dialect} {target gap data : Text}
    (readable : InstructionReadable d target gap data) (after : Text) :
    (target ++ gap ++ data ++ 0x3F :: after).takeWhile isNameChar = target := by
  have inside : ∀ c ∈ target, isNameChar c = true := (name_iff.mp readable.name).1
  have stops : (gap ++ data ++ 0x3F :: after).takeWhile isNameChar = [] := by
    cases gapSpelled : gap with
    | nil =>
        cases dataSpelled : data with
        | nil => rfl
        | cons c rest =>
            have joined := readable.joined gapSpelled c (by rw [dataSpelled]; rfl)
            exact List.takeWhile_cons_of_neg (by rw [isNameChar_eq_false_iff.mpr joined]; decide)
    | cons c rest =>
        have isSpace := readable.spaces c (gapSpelled ▸ List.mem_cons_self)
        exact List.takeWhile_cons_of_neg (by rw [isNameChar_of_isSpace isSpace]; decide)
  rw [List.append_assoc, List.append_assoc, List.takeWhile_append_of_pos inside,
    ← List.append_assoc, stops, List.append_nil]

/-- No readable document begins like an XML declaration. -/
theorem Grammar.Document.Readable.no_declaration {p : Parser} {document : Document}
    (readable : document.Readable (p.dialect [])) : ¬ HasXmlDeclaration document.render := by
  intro declared
  obtain ⟨c, rest, spelled, space⟩ := declared
  change _ = 0x3C :: 0x3F :: 0x78 :: 0x6D :: 0x6C :: c :: rest at spelled
  unfold Document.render at spelled
  cases prolog : document.prolog with
  | nil =>
      obtain ⟨first, item, starter, front⟩ := p.elementContent_front readable.element
      rw [prolog, front] at spelled
      have same : first = 0x3F := by
        injection spelled with _ spelled
        injection spelled
      unfold NameStartChar at starter
      omega
  | cons misc miscs =>
      have readableMisc := readable.prolog misc (prolog ▸ List.mem_cons_self)
      rw [prolog] at spelled
      cases misc with
      | space d =>
          have same : d = 0x3C := by injection spelled
          rw [same] at readableMisc
          rcases readableMisc with wrong | wrong | wrong | wrong
          · cases wrong
          · cases wrong
          · cases wrong
          · cases wrong
      | comment body =>
          injection spelled with _ spelled
          injection spelled with wrong _
          cases wrong
      | instruction target gap data =>
          have whole : 0x3C :: 0x3F :: (target ++ gap ++ data ++ 0x3F :: (0x3E :: (renderMiscs miscs ++
              ((elementContent document.tag document.body .nil).render ++
                renderMiscs document.epilog)))) =
              0x3C :: 0x3F :: 0x78 :: 0x6D :: 0x6C :: c :: rest := by
            rw [← spelled]
            simp [renderMiscs, Misc.render, renderInstruction]
          injection whole with _ whole
          injection whole with _ whole
          have target_eq := target_eq_takeWhile readableMisc (0x3E :: (renderMiscs miscs ++
              ((elementContent document.tag document.body .nil).render ++
                renderMiscs document.epilog)))
          rw [whole] at target_eq
          have spelledTarget : target = [0x78, 0x6D, 0x6C] := by
            rw [← target_eq]
            simp [isNameChar_of_isSpace space, show isNameChar 0x78 = true by decide,
              show isNameChar 0x6D = true by decide, show isNameChar 0x6C = true by decide]
          exact readableMisc.reserved ⟨_, _, _, spelledTarget, .inr rfl, .inr rfl, .inr rfl⟩

namespace Parser

variable (p : Parser) {limit : Nat}

/-- Within the limits the parser accepts the spelling of every readable
document with proper names, and delivers its events. -/
theorem parse_accepts_document (generous : Generous p.options limit)
    (nonThrowing : p.handler.NonThrowing) {document : Document} {chars : List DecodedChar}
    (readable : document.Readable (p.dialect [])) (named : document.Named p.options.namespaces)
    (spelled : values chars = document.render) (short : weight chars ≤ limit) :
    ∃ t, p.parse.run { rest := chars } = (.ok (), t) ∧
      t.events.map Event.withoutLocations = document.events p.options.namespaces := by
  let initial : ParserState := { rest := chars }
  have counted : 0 + weight chars ≤ limit := by omega
  have fits : Fits limit initial := ⟨counted, counted, rfl⟩
  obtain ⟨s1, ran1, same1, covers1⟩ := p.accepts_emit nonThrowing .startDocument initial
  have undeclared : (scan p.parseXmlDeclarationIfPresent).run s1 = (.ok (), s1) := by
    refine run_scan_eq_ok_iff.mpr ⟨s1.rest, p.run_parseXmlDeclarationIfPresent_of_none ?_, rfl⟩
    rw [same1, show values initial.rest = document.render from spelled]
    exact readable.no_declaration
  have starts : Starts s1.rest (renderMiscs document.prolog ++
      ((elementContent document.tag document.body .nil).render ++ renderMiscs document.epilog)) [] := by
    rw [same1]
    exact ⟨chars, (List.append_nil _).symm, spelled⟩
  obtain ⟨between, startsProlog, startsRest⟩ := starts.split
  obtain ⟨first, item, starter, front⟩ := p.elementContent_front readable.element
  have opened : Starts between ([0x3C, first] ++ (item ++ renderMiscs document.epilog)) [] := by
    rw [front] at startsRest
    exact startsRest
  have other : ∀ mark others, mark = 0x21 ∨ mark = 0x3F →
      startsWith (0x3C :: mark :: others) between = false := by
    intro mark others isMark
    have differs : mark ≠ first := by
      unfold NameStartChar at starter
      omega
    refine opened.excludes ⟨?_, ?_⟩
    · simp [List.cons_prefix_cons, differs]
    · simp [List.cons_prefix_cons, differs.symm]
  have none : NoMisc between :=
    ⟨Starts.stops opened (by decide), other _ _ (.inl rfl), other _ _ (.inr rfl)⟩
  obtain ⟨s2, ran2, rfl, covers2⟩ := p.accepts_skipMisc generous nonThrowing readable.prolog
    (fits.after covers1) startsProlog none
  have noDoctype := p.run_parseDoctypeIfPresent_of_none (other _ _ (.inl rfl))
  have again := p.run_skipMisc_of_none none
  obtain ⟨_, startsElement, startsEpilog⟩ := startsRest.split
  have covered := covers1.trans covers2
  have scopes : s2.namespaceScopes = scopesOf p.options.namespaces [] := by
    rw [covered.namespaceScopes]
    unfold scopesOf
    cases p.options.namespaces with
    | enabled => rfl
    | disabled => rfl
  obtain ⟨s3, ran3, rfl, covers3⟩ := p.accepts_parseElement generous nonThrowing
    (fun children _ _ => p.tailAccepts generous nonThrowing children) readable.element named
    (fits.after covered) scopes (Nat.le_succ _) startsElement
  obtain ⟨s4, ran4, same4, covers4⟩ := p.accepts_skipMisc generous nonThrowing readable.epilog
    (fits.after (covered.trans covers3)) startsEpilog noMisc_nil
  obtain ⟨s5, ran5, _, covers5⟩ := p.accepts_emit nonThrowing .endDocument s4
  refine ⟨s5, ?_, ?_⟩
  · unfold parse
    refine bind_eq_ok.mpr ⟨_, _, ran1, bind_eq_ok.mpr ⟨_, _, undeclared, bind_eq_ok.mpr
      ⟨_, _, ran2, bind_eq_ok.mpr ⟨_, _, noDoctype, bind_eq_ok.mpr ⟨_, _, again, ?_⟩⟩⟩⟩⟩
    rw [run_look_bind]
    refine bind_eq_ok.mpr ⟨_, _, ran3, bind_eq_ok.mpr ⟨_, _, ran4, ?_⟩⟩
    rw [run_look_bind, same4]
    exact ran5
  · have whole := ((covered.trans covers3).trans covers4).trans covers5
    rw [whole.events]
    simp [initial, ParserState.events, Document.events, Event.withoutLocations]

end Parser

end XmlParser
