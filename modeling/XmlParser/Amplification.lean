import Mathlib.Algebra.GroupWithZero.Nat
import XmlParser.EntityTables
import XmlParser.Library.Budget
import XmlParser.Limits
import XmlParser.Truncation

/-! How much a document can make of itself: what a run hands to the handler is no more
than the text read, and a bounded amount for each reference where entities are
declared. -/

set_option autoImplicit false

namespace XmlParser

open XmlParser.Computation Comp Budget PrefixCode

/-! ## Sizes -/

/-- The bytes that a call brings along as the document spells them: qualified names of start
tags and attributes, values and contents. Namespace URIs, local names and the names of
end tags repeat what has been read before and are not counted. -/
def Event.payload : Event → Nat
  | .startElement name views =>
      name.qualifiedName.length + (views.map fun view => view.name.qualifiedName.length + view.value.length).sum
  | .characters text | .comment text | .cdata text => text.length
  | .processingInstruction target data => target.length + data.length
  | .startDocument | .endDocument | .endElement _ => 0

def ParserState.payload (s : ParserState) : Nat := (s.events.map Event.payload).sum

theorem payload_deliver (event : Event) (s : ParserState) : (s.deliver event).payload = s.payload + event.payload := by
  simp [ParserState.payload, ParserState.events, ParserState.deliver]

/-- The bytes of a text that has been decoded. -/
def textSize (chars : List DecodedChar) : Nat := (utf8 (values chars)).length

@[simp] theorem textSize_append (left right : List DecodedChar) :
    textSize (left ++ right) = textSize left + textSize right := by
  simp [textSize, utf8_append]

theorem utf8Unit_pos (value : Nat) : 1 ≤ (utf8Unit value).length := by
  unfold utf8Unit
  split_ifs <;> simp

theorem utf8Unit_short (value : Nat) : (utf8Unit value).length ≤ 4 := by
  unfold utf8Unit
  split_ifs <;> simp

@[simp] theorem textSize_cons (c : DecodedChar) (rest : List DecodedChar) :
    textSize (c :: rest) = (utf8Unit c.value).length + textSize rest := by
  simp [textSize, utf8_cons]

theorem length_le_utf8 (text : List Nat) : text.length ≤ (utf8 text).length := by
  induction text with
  | nil => simp
  | cons value text ih =>
      have positive := utf8Unit_pos value
      simp only [utf8_cons, List.length_append, List.length_cons]
      omega

theorem length_le_textSize (chars : List DecodedChar) : chars.length ≤ textSize chars := by
  simpa [textSize] using length_le_utf8 (values chars)

theorem Ahead.textSize_le {before after : List DecodedChar} (ahead : Ahead before after) :
    textSize after ≤ textSize before := by
  obtain ⟨consumed, rfl⟩ := ahead
  simp

/-! ## Expansions -/

namespace Parser

variable (p : Parser)

/-- An expansion is its last bytes behind what has been tested against the limit. -/
theorem expandEntityText_length {entities : List (Bytes × Bytes)} {start : SourceLocation} {fuel depth : Nat}
    {text value : Bytes} {count final : Nat}
    (returned : (p.expandEntityText entities start fuel depth text).run count = (.ok value, final)) :
    value.length ≤ p.options.maxEntityReplacementBytes + text.length := by
  have expands : Triple (fun _ : Nat => True) (p.expandEntityText entities start fuel depth text)
      (fun value _ => value.length ≤ p.options.maxEntityReplacementBytes + text.length) fun _ _ => True := by
    cases fuel with
    | zero => exact triple_throw fun _ _ => trivial
    | succ fuel =>
        refine triple_ite (fun _ => triple_throw fun _ _ => trivial) fun _ => ?_
        have round : ∀ current : Bytes × Bytes, Triple
            (fun _ : Nat => current.1.length ≤ text.length ∧
              current.1.length + current.2.length ≤ p.options.maxEntityReplacementBytes + text.length)
            (p.expandRound entities start (p.expandEntityText entities start fuel (depth + 1)) current)
            (RoundPost (fun current _ => current.1.length ≤ text.length ∧
              current.1.length + current.2.length ≤ p.options.maxEntityReplacementBytes + text.length)
              fun value _ => value.length ≤ p.options.maxEntityReplacementBytes + text.length)
            fun _ _ => True := by
          intro current
          obtain ⟨rest, expanded⟩ := current
          cases rest with
          | nil => exact triple_pure fun _ here => by simpa [RoundPost] using here.2
          | cons ch rest =>
              refine triple_ite (fun _ => triple_pure fun _ here => ?_) fun _ => ?_
              · simp only [RoundPost, List.length_cons, List.length_append, List.length_nil] at here ⊢
                omega
              refine triple_ite (fun _ => triple_throw fun _ _ => trivial) fun _ => ?_
              refine fun state here => ?_
              have counted : Triple (fun _ : Nat => True) (p.countExpansion start) (fun _ _ => True) fun _ _ => True :=
                triple_of_returns fun _ _ _ _ _ => trivial
              have referred : ∀ name, Triple (fun _ : Nat => True)
                  (p.expandReference entities start (p.expandEntityText entities start fuel (depth + 1)) name)
                  (fun _ _ => True) fun _ _ => True := fun _ => triple_of_returns fun _ _ _ _ _ => trivial
              refine triple_bind counted (fun _ => triple_bind (referred _) fun value => ?_) state trivial
              refine triple_ite (fun _ => triple_throw fun _ _ => trivial) fun fits => triple_pure fun _ _ => ?_
              simp only [List.length_cons] at here
              simp only [RoundPost, List.length_drop]
              omega
        exact fun state _ => triple_loop _ round (fun _ _ _ => trivial) (text, []) state ⟨Nat.le_refl _, by simp⟩
  exact (expands count trivial).1 value final returned

theorem predefined_length {name value : Bytes} (isPredefined : predefined name = some value) : value.length = 1 := by
  unfold predefined at isPredefined
  split_ifs at isPredefined <;> cases isPredefined <;> rfl

theorem parseCharacterReference_length {σ : Type} {text value : Bytes} {start : SourceLocation} {s final : σ}
    (returned : (p.parseCharacterReference text start).run s = (.ok value, final)) :
    value.length ≤ 4 ∧ 2 ≤ text.length := by
  have short : Triple (fun _ : σ => True) (p.parseCharacterReference text start)
      (fun value _ => value.length ≤ 4 ∧ 2 ≤ text.length) fun _ _ => True := by
    refine triple_ite (fun _ => triple_throw fun _ _ => trivial) fun longer => ?_
    split
    · exact triple_throw fun _ _ => trivial
    · refine triple_ite (fun _ => triple_throw fun _ _ => trivial) fun _ => triple_pure fun _ _ => ?_
      refine ⟨utf8Unit_short _, ?_⟩
      split at longer
      · omega
      · omega
  exact (short s trivial).1 value final returned

/-- A name resolves to few bytes, or to the expansion of an entity. -/
theorem resolveReference_length {entities : List (Bytes × Bytes)} {name value : Bytes} {start : SourceLocation}
    {count final : Nat} (small : ∀ entry ∈ entities, entry.2.length ≤ p.options.maxEntityReplacementBytes)
    (returned : (p.resolveReference entities name start).run count = (.ok value, final)) :
    value.length ≤ name.length + 2 ∨
      entities ≠ [] ∧ value.length ≤ 2 * p.options.maxEntityReplacementBytes := by
  unfold resolveReference at returned
  split at returned
  · rename_i character isPredefined
    cases returned
    have one := predefined_length isPredefined
    exact .inl (by omega)
  split at returned
  · have sizes := p.parseCharacterReference_length returned
    exact .inl (by omega)
  split at returned
  · rename_i replacement found
    have member := lookupKey_entry found
    have fits := small _ member
    have bounded := p.expandEntityText_length returned
    exact .inr ⟨List.ne_nil_of_mem member, by dsimp only at fits; omega⟩
  · split at returned
    · cases returned
    · cases returned

end Parser

/-! ## Members that hand over nothing -/

/-- What is paid for each reference: nothing if no entity is declared. -/
def price (limit : Nat) (s : ParserState) : Nat := if s.dtd.entities.isEmpty then 0 else 2 * limit

/-- The parser moves ahead, counts and declares, and calls nothing. -/
structure Modest (limit : Nat) (s t : ParserState) : Prop where
  rest : Ahead s.rest t.rest
  trace : t.trace = s.trace
  counted : s.entityExpansions ≤ t.entityExpansions
  declared : s.dtd.entities ≠ [] → t.dtd.entities ≠ []
  small : (∀ entry ∈ s.dtd.entities, entry.2.length ≤ limit) → ∀ entry ∈ t.dtd.entities, entry.2.length ≤ limit

instance {limit : Nat} : Std.Refl (Modest limit) := ⟨fun _ => ⟨List.suffix_rfl, rfl, Nat.le_refl _, id, id⟩⟩

instance {limit : Nat} : IsTrans ParserState (Modest limit) :=
  ⟨fun _ _ _ first second =>
    { rest := second.rest.trans first.rest
      trace := second.trace.trans first.trace
      counted := first.counted.trans second.counted
      declared := fun some => second.declared (first.declared some)
      small := fun small => second.small (first.small small) }⟩

theorem Modest.price_le {limit : Nat} {s t : ParserState} (modest : Modest limit s t) :
    price limit s ≤ price limit t := by
  unfold price
  have declared := modest.declared
  cases before : s.dtd.entities with
  | nil => simp
  | cons entry entries =>
      cases after : t.dtd.entities with
      | nil => simp [before, after] at declared
      | cons => simp

namespace Parser

variable {p : Parser}

abbrev Modestly (p : Parser) {α : Type} (source : ParserM α) : Prop :=
  Obeys (Modest p.options.maxEntityReplacementBytes) (fun _ => True) source

theorem modestly_throw {α : Type} (halt : Halt) : p.Modestly (Comp.throw halt : ParserM α) := obeys_throw trivial

theorem modestly_failHere {α : Type} (kind : ErrorKind) (message : String) :
    p.Modestly (p.failHere kind message : ParserM α) := obeys_bind (obeys_read _) fun _ => modestly_throw _

theorem modestly_scan {α : Type} {source : Cursor α} (scans : Scans source) : p.Modestly (scan source) :=
  obeys_onPart (Obeys.mono scans (fun _ _ => id) fun _ _ => trivial) fun _ _ ahead =>
    ⟨ahead, rfl, Nat.le_refl _, id, id⟩

theorem modestly_counting {α : Type} {source : Comp Nat Halt α} (counts : Counts source) :
    p.Modestly (counting source) :=
  obeys_onPart (Obeys.mono counts (fun _ _ => id) fun _ _ => trivial) fun _ _ more =>
    ⟨List.suffix_rfl, rfl, more, id, id⟩

theorem modestly_modifyDtd {update : DtdState → DtdState} (same : ∀ dtd, (update dtd).entities = dtd.entities) :
    p.Modestly (modifyDtd update) :=
  obeys_modify fun s => ⟨List.suffix_rfl, rfl, Nat.le_refl _, by simp [same], by simp [same]⟩

theorem modestly_loop {β γ : Type} {size : β → ParserState → Nat} {body : β → ParserM (LoopStep β γ)}
    (shrinks : Shrinks size body) (round : ∀ current, p.Modestly (body current)) (start : β) :
    p.Modestly (loop size .outOfFuel body start) := obeys_loop shrinks round start

theorem modestly_declareElement (name model : Bytes) (location : SourceLocation) :
    p.Modestly (declareElement name model location) := by
  have models : p.Modestly (parseElementModel model location) := by
    refine obeys_ite (fun _ => obeys_pure _) fun _ => obeys_ite (fun _ => obeys_pure _) fun _ => ?_
    refine obeys_ite (fun _ => obeys_pure _) fun _ => obeys_ite (fun _ => obeys_pure _) fun _ => modestly_throw _
  refine obeys_bind (obeys_read _) fun _ => obeys_ite (fun _ => modestly_throw _) fun _ => ?_
  exact obeys_bind models fun _ => modestly_modifyDtd fun _ => rfl

theorem modestly_enforceDtdDeclarationLimit : p.Modestly p.enforceDtdDeclarationLimit := by
  refine obeys_bind (modestly_modifyDtd fun _ => rfl) fun _ => obeys_bind (obeys_read _) fun _ => ?_
  exact obeys_ite (fun _ => modestly_failHere _ _) fun _ => obeys_pure _

theorem modestly_parseElementDeclaration : p.Modestly p.parseElementDeclaration := by
  refine obeys_bind (obeys_read _) fun start => obeys_bind modestly_enforceDtdDeclarationLimit fun _ => ?_
  refine obeys_bind (modestly_scan (p.scans_expectSequence _ _)) fun _ => obeys_bind (obeys_read _) fun _ => ?_
  refine obeys_ite (fun _ => modestly_failHere _ _) fun _ => ?_
  refine obeys_bind (modestly_scan p.scans_skipWhitespace) fun _ => ?_
  refine obeys_bind (modestly_scan p.scans_parseName) fun name => ?_
  refine obeys_bind (modestly_scan p.scans_skipWhitespace) fun _ => ?_
  refine obeys_bind (modestly_scan (p.scans_whileTaking _)) fun model => ?_
  exact obeys_bind (modestly_scan (p.scans_expect _ _)) fun _ => modestly_declareElement _ _ _

/-- A replacement text that is entered is within its limit. -/
theorem modestly_enterEntity (name replacement : Bytes) (start : SourceLocation) :
    p.Modestly (p.enterEntity name replacement start) := by
  refine obeys_ite (fun _ => modestly_throw _) fun fits => ?_
  refine obeys_bind (modestly_scan p.scans_skipWhitespace) fun _ => ?_
  refine obeys_bind (modestly_scan (p.scans_expect _ _)) fun _ => obeys_bind (obeys_read _) fun _ => ?_
  refine obeys_ite (fun _ => modestly_throw _) fun _ => obeys_modify fun s => ?_
  refine ⟨List.suffix_rfl, rfl, Nat.le_refl _, by simp [emplaceKey], fun small entry member => ?_⟩
  rcases List.mem_append.mp member with old | new
  · exact small entry old
  · rw [List.mem_singleton.mp new]
    exact Nat.le_of_not_gt fits

theorem modestly_parseEntityDeclaration : p.Modestly p.parseEntityDeclaration := by
  refine obeys_bind (obeys_read _) fun start => obeys_bind modestly_enforceDtdDeclarationLimit fun _ => ?_
  refine obeys_bind (modestly_scan (p.scans_expectSequence _ _)) fun _ => obeys_bind (obeys_read _) fun _ => ?_
  refine obeys_ite (fun _ => modestly_failHere _ _) fun _ => ?_
  refine obeys_bind (modestly_scan p.scans_skipWhitespace) fun _ => obeys_bind (obeys_read _) fun _ => ?_
  refine obeys_ite (fun _ => modestly_failHere _ _) fun _ => ?_
  refine obeys_bind (modestly_scan p.scans_parseName) fun name => ?_
  refine obeys_bind (modestly_scan p.scans_skipWhitespace) fun _ => ?_
  exact obeys_bind (modestly_scan p.scans_parseQuotedLiteral) fun _ => modestly_enterEntity _ _ _

theorem modestly_parseInternalSubset : p.Modestly p.parseInternalSubset := by
  have again : ∀ source : ParserM Unit, p.Modestly source →
      p.Modestly (source >>= fun _ => pure (.next ()) : ParserM (LoopStep Unit Unit)) :=
    fun _ modestly => obeys_bind modestly fun _ => obeys_pure _
  refine modestly_loop (shrinks_of_advances p.internalSubsetRound_strict) (fun _ => ?_) ()
  refine obeys_bind (obeys_read _) fun _ => obeys_ite (fun _ => modestly_failHere _ _) fun _ => ?_
  refine obeys_bind (modestly_scan p.scans_skipWhitespace) fun _ => obeys_bind (obeys_read _) fun _ => ?_
  refine obeys_ite (fun _ => obeys_pure _) fun _ => obeys_bind (obeys_read _) fun _ => ?_
  refine obeys_ite (fun _ => ?_) fun _ => obeys_bind (obeys_read _) fun _ => ?_
  · exact obeys_bind (modestly_scan p.takes_scanComment.obeys) fun _ => obeys_pure _
  refine obeys_ite (fun _ => again _ modestly_parseElementDeclaration) fun _ => obeys_bind (obeys_read _) fun _ => ?_
  exact obeys_ite (fun _ => again _ modestly_parseEntityDeclaration) fun _ => modestly_failHere _ _

theorem modestly_resolveExternalSubsetIfNeeded : p.Modestly p.resolveExternalSubsetIfNeeded := by
  have declaration : ∀ text, p.Modestly (p.parseExternalElementDeclaration text) := by
    intro text
    refine obeys_bind modestly_enforceDtdDeclarationLimit fun _ => ?_
    refine obeys_ite (fun _ => modestly_failHere _ _) fun _ => ?_
    exact obeys_bind (obeys_read _) fun _ => modestly_declareElement _ _ _
  have read : ∀ subset, p.Modestly (p.parseExternalSubsetText subset) := by
    intro subset
    refine modestly_loop p.externalSubsetRound_shrinks (fun rest => ?_) subset
    refine obeys_ite (fun _ => obeys_pure _) fun _ => obeys_ite (fun _ => ?_) fun _ => modestly_failHere _ _
    refine obeys_ite (fun _ => modestly_failHere _ _) fun _ => ?_
    exact obeys_bind (declaration _) fun _ => obeys_pure _
  refine obeys_bind (obeys_read _) fun dtd => obeys_ite (fun _ => obeys_pure _) fun _ => ?_
  split
  · split
    · exact modestly_throw _
    · exact obeys_ite (fun _ => modestly_failHere _ _) fun _ => read _
  · exact modestly_failHere _ _

theorem modestly_parseDoctypeIfPresent : p.Modestly p.parseDoctypeIfPresent := by
  have skip : p.Modestly (scan p.skipWhitespace) := modestly_scan p.scans_skipWhitespace
  have literal : p.Modestly (scan p.parseQuotedLiteral) := modestly_scan p.scans_parseQuotedLiteral
  have keyword : p.Modestly (scan (Comp.modify (List.drop 6))) := modestly_scan (scans_drop 6)
  have externalId : p.Modestly p.parseExternalId := by
    refine obeys_bind (obeys_read _) fun _ => obeys_ite (fun _ => ?_) fun _ => obeys_bind (obeys_read _) fun _ => ?_
    · refine obeys_bind keyword fun _ => obeys_bind skip fun _ => obeys_bind literal fun _ => ?_
      exact obeys_bind (modestly_modifyDtd fun _ => rfl) fun _ => skip
    refine obeys_ite (fun _ => ?_) fun _ => obeys_pure _
    refine obeys_bind keyword fun _ => obeys_bind skip fun _ => obeys_bind literal fun _ => ?_
    refine obeys_bind skip fun _ => obeys_bind literal fun _ => ?_
    exact obeys_bind (modestly_modifyDtd fun _ => rfl) fun _ => skip
  have bracketed : p.Modestly p.parseBracketedSubset := by
    refine obeys_bind (obeys_read _) fun _ => obeys_ite (fun _ => ?_) fun _ => obeys_pure _
    refine obeys_bind (modestly_scan p.scans_advance) fun _ => obeys_bind modestly_parseInternalSubset fun _ => ?_
    exact obeys_bind (modestly_scan (p.scans_expect _ _)) fun _ => skip
  refine obeys_bind (obeys_read _) fun _ => obeys_ite (fun _ => obeys_pure _) fun _ => ?_
  refine obeys_bind (modestly_modifyDtd fun _ => rfl) fun _ => ?_
  refine obeys_bind (modestly_scan (p.scans_expectSequence _ _)) fun _ => obeys_bind (obeys_read _) fun _ => ?_
  refine obeys_ite (fun _ => modestly_failHere _ _) fun _ => obeys_bind skip fun _ => ?_
  refine obeys_bind (modestly_scan p.scans_parseName) fun _ => ?_
  refine obeys_bind (modestly_modifyDtd fun _ => rfl) fun _ => obeys_bind skip fun _ => ?_
  refine obeys_bind externalId fun _ => obeys_bind bracketed fun _ => ?_
  exact obeys_bind (modestly_scan (p.scans_expect _ _)) fun _ => modestly_resolveExternalSubsetIfNeeded

/-! ## Members that hand over what they read -/

/-- The text still to be read pays for what is handed over, and each reference for
what it expands to. -/
def spending (p : Parser) (allowance : Nat) : Budget ParserState where
  within held s :=
    s.payload + held + textSize s.rest ≤
        allowance + price p.options.maxEntityReplacementBytes s * s.entityExpansions ∧
      ∀ entry ∈ s.dtd.entities, entry.2.length ≤ p.options.maxEntityReplacementBytes
  less fewer here := ⟨by have paid := here.1; omega, here.2⟩

variable {allowance held : Nat}

theorem within_modest {s t : ParserState} (here : (p.spending allowance).within held s)
    (modest : Modest p.options.maxEntityReplacementBytes s t) : (p.spending allowance).within held t := by
  obtain ⟨paid, small⟩ := here
  have payload : t.payload = s.payload := by
    unfold ParserState.payload ParserState.events
    rw [modest.trace]
  have shorter := Ahead.textSize_le modest.rest
  have prices := Nat.mul_le_mul modest.price_le modest.counted
  exact ⟨by omega, modest.small small⟩

theorem Modestly.spends {α : Type} {source : ParserM α} (modestly : p.Modestly source) :
    (p.spending allowance).Spends held (fun _ => held) source :=
  fun _ => Obeys.triple modestly (fun _ _ here modest _ => within_modest here modest)
    fun _ _ here modest _ => within_modest ((p.spending allowance).less (Nat.zero_le _) here) modest

/-- A scanned value is paid for by the characters consumed. -/
theorem spends_scan {α : Type} {source : Cursor α} {size : α → Nat} (scans : Scans source)
    (consumed : ∀ rest value final, source.run rest = (.ok value, final) →
      size value + textSize final ≤ held + textSize rest) :
    (p.spending allowance).Spends held size (scan source) := by
  intro aside s here
  have moved := Modestly.spends (modestly_scan scans) aside s here
  refine ⟨fun value final ran => ?_, moved.2⟩
  obtain ⟨rest, scanned, rfl⟩ := run_scan_eq_ok_iff.mp ran
  have fewer := consumed s.rest value rest scanned
  obtain ⟨paid, small⟩ := here
  refine ⟨?_, small⟩
  change s.payload + (aside + size value) + textSize rest ≤
    allowance + price p.options.maxEntityReplacementBytes s * s.entityExpansions
  omega

theorem spends_still {α : Type} {source : ParserM α} {size : α → Nat} (still : Obeys Eq Halt.IsThrown source)
    (returns : ∀ s value t, source.run s = (.ok value, t) → size value ≤ held) :
    (p.spending allowance).Spends held size source := by
  intro aside s here
  constructor
  · intro value final ran
    have same : s = final := still.of_run ran
    exact same ▸ (p.spending allowance).less (Nat.add_le_add_left (returns s value final ran) aside) here
  · intro halt final ran
    have same : s = final := still.of_run ran
    exact same ▸ (p.spending allowance).less (Nat.zero_le _) here

theorem spends_emit (event : Event) : (p.spending allowance).Spends event.payload (fun _ => 0) (p.emit event) := by
  have delivered : (p.spending allowance).Spends event.payload (fun _ => 0)
      (Comp.modify (ParserState.deliver event) : ParserM Unit) := by
    refine spends_modify fun aside s here => ⟨?_, here.2⟩
    have paid := here.1
    rw [payload_deliver]
    change s.payload + event.payload + (aside + 0) + textSize s.rest ≤
      allowance + price p.options.maxEntityReplacementBytes s * s.entityExpansions
    omega
  refine spends_bind delivered fun _ => spends_read_bind fun answer => ?_
  cases answer with
  | none => exact spends_pure (Nat.le_refl _)
  | some exception => exact spends_throw _

theorem spends_parseComment : (p.spending allowance).Spends 0 (fun _ => 0) p.parseComment := by
  refine spends_bind (spends_scan p.takes_scanComment.obeys fun rest text final scanned => ?_)
    fun text => spends_emit (.comment text)
  obtain ⟨consumed, body, rfl, spelled, _, rfl, _⟩ := p.scanComment_eq_ok_iff.mp scanned
  have spent : (utf8 body).length ≤ textSize consumed := by
    rw [textSize, spelled]
    simp [Grammar.renderComment, utf8]
    omega
  simp only [Event.payload, textSize_append]
  omega

theorem spends_parseCdata : (p.spending allowance).Spends 0 (fun _ => 0) p.parseCdata := by
  refine spends_bind (spends_scan p.takes_scanCdata.obeys fun rest text final scanned => ?_)
    fun text => spends_emit (.cdata text)
  obtain ⟨consumed, body, rfl, spelled, _, rfl, _⟩ := p.scanCdata_eq_ok_iff.mp scanned
  have spent : (utf8 body).length ≤ textSize consumed := by
    rw [textSize, spelled]
    simp [Grammar.renderCdata, utf8]
    omega
  simp only [Event.payload, textSize_append]
  omega

theorem spends_parseProcessingInstruction :
    (p.spending allowance).Spends 0 (fun _ => 0) p.parseProcessingInstruction := by
  refine spends_bind (spends_scan p.takes_scanProcessingInstruction.obeys fun rest value final scanned => ?_)
    fun value => spends_emit (.processingInstruction value.1 value.2)
  obtain ⟨consumed, target, gap, data, rfl, spelled, _, _, _, _, _, _, rfl, _, _⟩ :=
    p.scanProcessingInstruction_eq_ok_iff.mp scanned
  have spent : (utf8 target).length + (utf8 data).length ≤ textSize consumed := by
    rw [textSize, spelled]
    simp [Grammar.renderInstruction, utf8]
    omega
  simp only [Event.payload, textSize_append]
  omega

theorem spends_skipMisc : (p.spending allowance).Spends 0 (fun _ => 0) p.skipMisc := by
  have skip : (p.spending allowance).Spends 0 (fun _ => 0) (scan p.skipWhitespace) :=
    Modestly.spends (modestly_scan p.scans_skipWhitespace)
  refine spends_loop_same (fun _ => ?_) ()
  refine spends_read_bind fun before => spends_bind skip fun _ => spends_read_bind fun consumed => ?_
  refine spends_read_bind fun comment => spends_ite (fun _ => ?_) fun _ => spends_read_bind fun instruction => ?_
  · exact spends_bind spends_parseComment fun _ => spends_pure (Nat.le_refl _)
  refine spends_ite (fun _ => ?_) fun _ => spends_ite (fun _ => spends_pure (Nat.le_refl _)) fun _ => spends_pure (Nat.le_refl _)
  exact spends_bind spends_parseProcessingInstruction fun _ => spends_pure (Nat.le_refl _)

/-! ### References -/

/-- A reference is counted, and what it stands for is no longer than its own text if
it is not an entity's expansion. -/
theorem parseReference_spent {s t : ParserState} {value : Bytes}
    (small : ∀ entry ∈ s.dtd.entities, entry.2.length ≤ p.options.maxEntityReplacementBytes)
    (ran : p.parseReference.run s = (.ok value, t)) :
    t.payload = s.payload ∧ t.dtd = s.dtd ∧ s.entityExpansions + 1 ≤ t.entityExpansions ∧
      textSize t.rest ≤ textSize s.rest ∧ (value.length + textSize t.rest ≤ textSize s.rest ∨
        s.dtd.entities ≠ [] ∧ value.length ≤ 2 * p.options.maxEntityReplacementBytes) := by
  obtain ⟨consumed, rest, name, count, split, spelled, _, _, resolved, rfl⟩ := p.parseReference_takes ran
  have more : s.entityExpansions + 1 ≤ count := (p.counts_resolveReference _ _ _).of_run resolved
  have sizes := p.resolveReference_length small resolved
  have spent : name.length + 2 + textSize rest ≤ textSize s.rest := by
    have long := length_le_textSize consumed
    have wide := congrArg List.length spelled
    rw [values_length, List.length_cons, List.length_append, List.length_singleton] at wide
    rw [split, textSize_append]
    omega
  refine ⟨rfl, rfl, more, ?_, sizes.imp (fun short => ?_) id⟩
  · change textSize rest ≤ textSize s.rest
    omega
  · have spelledName : (toAscii name).length = name.length := List.length_map _
    change value.length + textSize rest ≤ textSize s.rest
    omega

/-- What a reference stands for is paid for by its own text, or by its count. -/
theorem spends_parseReference : (p.spending allowance).Spends 0 List.length p.parseReference := by
  intro aside s here
  have modest : p.Modestly p.parseReference := by
    refine obeys_bind (obeys_read _) fun start => ?_
    refine obeys_bind (modestly_scan (p.scans_expect _ _)) fun _ => ?_
    refine obeys_bind (modestly_counting (p.counts_countExpansion start)) fun _ => ?_
    refine obeys_bind (modestly_scan (p.scans_whilePushing _ start)) fun name => ?_
    refine obeys_bind (modestly_scan (p.scans_expect _ _)) fun _ => obeys_bind (obeys_read _) fun entities => ?_
    exact modestly_counting (p.counts_resolveReference _ _ _)
  refine ⟨fun value t ran => ?_, (Modestly.spends modest aside s here).2⟩
  obtain ⟨paid, small⟩ := here
  obtain ⟨payload, sameDtd, counted, shorter, spent⟩ := parseReference_spent small ran
  have samePrice : price p.options.maxEntityReplacementBytes t = price p.options.maxEntityReplacementBytes s := by
    unfold price
    rw [sameDtd]
  refine ⟨?_, sameDtd ▸ small⟩
  rw [payload, samePrice]
  rcases spent with own | ⟨declared, bounded⟩
  · have prices := Nat.mul_le_mul_left (price p.options.maxEntityReplacementBytes s)
      ((Nat.le_succ s.entityExpansions).trans counted)
    omega
  · have prices := Nat.mul_le_mul_left (price p.options.maxEntityReplacementBytes s) counted
    have full : price p.options.maxEntityReplacementBytes s = 2 * p.options.maxEntityReplacementBytes := by
      simp [price, declared]
    rw [full] at paid prices ⊢
    rw [Nat.mul_add, Nat.mul_one] at prices
    omega

theorem spends_takePiece (text : Bytes) : (p.spending allowance).Spends text.length List.length (p.takePiece text) := by
  refine spends_read_bind fun next => spends_ite (fun _ => ?_) fun _ => ?_
  · refine spends_bind (spends_parseReference.frame text.length) fun expansion => spends_pure ?_
    rw [List.length_append]
  · refine spends_scan (p.scans_takePeek text) fun rest value final ran => ?_
    cases rest with
    | nil => cases ran
    | cons c rest =>
        obtain ⟨rfl, rfl, _⟩ := (p.takePeek_buffers.cons _ _ _ _ _).mp ran
        simp only [appendUtf8, List.length_append, textSize_cons]
        omega

/-- The end of a round that appends, and tests the size. -/
theorem spends_append (text : Bytes) (start : SourceLocation) :
    (p.spending allowance).Spends text.length (stepSize List.length (List.length : Bytes → Nat))
      (p.takePiece text >>= fun text => p.enforceTokenSize text.length start >>= fun _ => pure (.next text)) := by
  refine spends_bind (spends_takePiece text) fun longer => ?_
  have tested : (p.spending allowance).Spends longer.length (fun _ => longer.length)
      (p.enforceTokenSize longer.length start) :=
    spends_ite (fun _ => spends_throw _) fun _ => spends_pure (Nat.le_refl _)
  exact spends_bind tested fun _ => spends_pure (Nat.le_refl _)

/-! ### Tags -/

/-- The bytes of the attributes of a tag. -/
def attributesSize (attributes : List RawAttribute) : Nat :=
  (attributes.map fun raw => raw.name.length + raw.value.length).sum

theorem spends_parseName : (p.spending allowance).Spends held (fun name => held + name.length) (scan p.parseName) := by
  refine spends_scan p.scans_parseName fun rest name final scanned => ?_
  obtain ⟨consumed, rfl, _, _, rfl, _⟩ := p.parseName_eq_ok_iff.mp scanned
  simp only [textSize_append]
  have spelled : (utf8 (values consumed)).length = textSize consumed := rfl
  omega

theorem spends_parseAttributeValue : (p.spending allowance).Spends 0 List.length p.parseAttributeValue := by
  refine spends_read_bind fun start => spends_read_bind fun quote => spends_ite (fun _ => ?_) fun _ => ?_
  · exact spends_read_bind fun _ => spends_throw _
  refine spends_bind (Modestly.spends (modestly_scan p.scans_advance)) fun _ => ?_
  refine spends_loop List.length (fun value => ?_) []
  refine spends_read_bind fun _ => spends_read_bind fun _ => spends_ite (fun _ => ?_) fun _ => ?_
  · exact spends_bind (Modestly.spends (modestly_scan (p.scans_expect _ _))) fun _ => spends_pure (Nat.le_refl _)
  refine spends_read_bind fun _ => spends_ite (fun _ => ?_) fun _ => spends_append value start
  exact spends_read_bind fun _ => spends_throw _

theorem spends_parseAttributes : (p.spending allowance).Spends 0 attributesSize p.parseAttributes := by
  have skip : ∀ {held}, (p.spending allowance).Spends held (fun _ => held) (scan p.skipWhitespace) :=
    Modestly.spends (modestly_scan p.scans_skipWhitespace)
  refine spends_loop attributesSize (fun attributes => ?_) []
  refine spends_bind skip fun _ => spends_read_bind fun _ => spends_read_bind fun _ => ?_
  refine spends_ite (fun _ => spends_pure (Nat.le_refl _)) fun _ => spends_read_bind fun location => ?_
  refine spends_bind spends_parseName fun name => spends_ite (fun _ => ?_) fun _ => ?_
  · exact spends_read_bind fun _ => spends_throw _
  refine spends_ite (fun _ => spends_read_bind fun _ => spends_throw _) fun _ => ?_
  refine spends_bind skip fun _ => ?_
  refine spends_bind (Modestly.spends (modestly_scan (p.scans_expect _ _))) fun _ => spends_bind skip fun _ => ?_
  refine spends_bind (spends_parseAttributeValue.frame (attributesSize attributes + name.length)) fun value => ?_
  refine spends_pure ?_
  simp only [stepSize_next, attributesSize, List.map_append, List.map_cons, List.map_nil, List.sum_append,
    List.sum_cons, List.sum_nil]
  omega

/-- The views of a tag are made of its attributes. -/
theorem attributeViews_size {σ : Type} {scopes : List NamespaceScope} {attributes : List RawAttribute}
    {seen : List (Bytes × Bytes)} {views : List AttributeView} {s t : σ}
    (ran : (p.attributeViews scopes attributes seen).run s = (.ok views, t)) :
    (views.map fun view => view.name.qualifiedName.length + view.value.length).sum ≤ attributesSize attributes := by
  induction attributes generalizing seen views s with
  | nil =>
      cases ran
      exact Nat.le_refl _
  | cons raw attributes ih =>
      unfold attributeViews at ran
      simp only [attributesSize, List.map_cons, List.sum_cons]
      split at ran
      · have rest := ih ran
        simp only [attributesSize] at rest
        omega
      · obtain ⟨name, _, resolved, ran⟩ := bind_eq_ok.mp ran
        split at ran
        · cases ran
        · obtain ⟨others, _, viewed, ran⟩ := bind_eq_ok.mp ran
          cases ran
          have rest := ih viewed
          have named := resolveName_qualifiedName resolved
          simp only [attributesSize] at rest
          simp only [List.map_cons, List.sum_cons, named]
          omega

theorem modestly_modify {update : ParserState → ParserState} (rest : ∀ s, (update s).rest = s.rest)
    (trace : ∀ s, (update s).trace = s.trace)
    (counted : ∀ s, (update s).entityExpansions = s.entityExpansions) (dtd : ∀ s, (update s).dtd = s.dtd) :
    p.Modestly (Comp.modify update) :=
  obeys_modify fun s => ⟨rest s ▸ List.suffix_rfl, trace s, Nat.le_of_eq (counted s).symm, by simp [dtd], by simp [dtd]⟩

theorem spends_parseTagName (start : SourceLocation) :
    (p.spending allowance).Spends 0 List.length (p.parseTagName start) := by
  refine spends_bind (Modestly.spends (modestly_scan (p.scans_expect _ _))) fun _ => spends_read_bind fun next => ?_
  refine spends_ite (fun _ => spends_throw _) fun _ => spends_bind spends_parseName fun name => ?_
  refine spends_read_bind fun depth => spends_ite (fun _ => spends_throw _) fun _ => spends_pure ?_
  omega

theorem spends_openElement (name : Bytes) (start : SourceLocation) :
    (p.spending allowance).Spends name.length (fun _ => 0) (p.openElement name start) := by
  refine spends_bind (spends_parseAttributes.frame name.length) fun attributes => ?_
  refine spends_bind (Modestly.spends (modestly_modify (fun _ => rfl) (fun _ => rfl) (fun _ => rfl) fun _ => rfl))
    fun _ => spends_read_bind fun scopes => ?_
  have named : (p.spending allowance).Spends (name.length + attributesSize attributes)
      (fun elementName => elementName.qualifiedName.length + attributesSize attributes)
      (p.resolveName scopes name true start) := by
    refine spends_still (p.obeys_resolveName scopes name true start) fun s elementName t ran => ?_
    rw [resolveName_qualifiedName ran]
  refine spends_bind named fun elementName => ?_
  have viewed : (p.spending allowance).Spends (elementName.qualifiedName.length + attributesSize attributes)
      (fun views => (Event.startElement elementName views).payload) (p.attributeViews scopes attributes []) := by
    refine spends_still (p.obeys_attributeViews scopes attributes []) fun s views t ran => ?_
    exact Nat.add_le_add_left (attributeViews_size ran) _
  refine spends_bind viewed fun views => ?_
  refine spends_bind (Modestly.spends (modestly_modify (fun _ => rfl) (fun _ => rfl) (fun _ => rfl) fun _ => rfl))
    fun _ => spends_bind (spends_emit _) fun _ => spends_pure (Nat.le_refl _)

/-! ### Content and elements -/

theorem spends_parseText : (p.spending allowance).Spends 0 (fun _ => 0) p.parseText := by
  have looped : ∀ start, (p.spending allowance).Spends 0 List.length
      (loop (fun _ s => s.rest.length) .outOfFuel (p.textRound start) [] : ParserM Bytes) := by
    intro start
    refine spends_loop List.length (fun text => ?_) []
    refine spends_read_bind fun _ => spends_read_bind fun _ => ?_
    exact spends_ite (fun _ => spends_pure (Nat.le_refl _)) fun _ => spends_append text start
  refine spends_read_bind fun start => spends_bind (looped start) fun text => ?_
  refine spends_ite (fun _ => spends_pure (Nat.zero_le _)) fun _ => ?_
  refine spends_bind (Modestly.spends (modestly_modify ?_ ?_ ?_ ?_)) fun _ => spends_emit (.characters text)
  all_goals
    intro s
    split <;> rfl

theorem spends_topOf {α : Type} (stack : List α) : (p.spending allowance).Spends held (fun _ => held) (topOf stack) := by
  cases stack with
  | nil => exact spends_throw _
  | cons top others => exact spends_pure (Nat.le_refl _)

theorem spends_parseEndTag (openName : Bytes) :
    (p.spending allowance).Spends 0 (fun _ => 0) (p.parseEndTag openName) := by
  refine spends_read_bind fun endStart => ?_
  refine spends_bind (Modestly.spends (modestly_scan (p.scans_expectSequence _ _))) fun _ => ?_
  refine spends_bind (Modestly.spends (modestly_scan p.scans_parseName)) fun endName => ?_
  refine spends_bind (Modestly.spends (modestly_scan p.scans_skipWhitespace)) fun _ => ?_
  refine spends_bind (Modestly.spends (modestly_scan (p.scans_expect _ _))) fun _ => ?_
  refine spends_ite (fun _ => spends_throw _) fun _ => spends_read_bind fun stack => ?_
  exact spends_bind (spends_topOf stack) fun name => spends_emit (.endElement name)

theorem spends_parseContent {element : ParserM Unit} (child : (p.spending allowance).Spends 0 (fun _ => 0) element)
    (openName : Bytes) : (p.spending allowance).Spends 0 (fun _ => 0) (p.parseContent element openName) := by
  have round : ∀ (source : ParserM Unit) (step : LoopStep Unit Unit),
      (p.spending allowance).Spends 0 (fun _ => 0) source →
      (p.spending allowance).Spends 0 (fun _ => 0) (source >>= fun _ => pure step) :=
    fun _ _ spends => spends_bind spends fun _ => spends_pure (Nat.le_refl _)
  refine spends_loop_same (fun _ => ?_) ()
  refine spends_read_bind fun atEnd => spends_ite (fun _ => spends_read_bind fun _ => spends_throw _) fun _ => ?_
  refine spends_read_bind fun closes => spends_ite (fun _ => round _ _ (spends_parseEndTag openName)) fun _ => ?_
  refine spends_read_bind fun comment => spends_ite (fun _ => round _ _ spends_parseComment) fun _ => ?_
  refine spends_read_bind fun cdata => spends_ite (fun _ => round _ _ spends_parseCdata) fun _ => ?_
  refine spends_read_bind fun instruction =>
    spends_ite (fun _ => round _ _ spends_parseProcessingInstruction) fun _ => ?_
  exact spends_read_bind fun next => spends_ite (fun _ => round _ _ child) fun _ => round _ _ spends_parseText

theorem modestly_finishValidationFrame (location : SourceLocation) :
    p.Modestly (p.finishValidationFrame location) := by
  have reports : ∀ message, p.Modestly (p.recoverableValidityError location message) := by
    intro message
    unfold recoverableValidityError
    split
    · exact modestly_throw _
    · refine obeys_bind (modestly_modify (fun _ => rfl) (fun _ => rfl) (fun _ => rfl) fun _ => rfl) fun _ => ?_
      refine obeys_bind (obeys_read _) fun answer => ?_
      cases answer with
      | none => exact obeys_pure _
      | some exception => exact modestly_throw _
  have validates : ∀ frame, p.Modestly (p.validateElement frame location) := by
    intro frame
    refine obeys_bind (obeys_read _) fun s => obeys_ite (fun _ => obeys_pure _) fun _ => obeys_bind ?_ fun _ => ?_
    · exact obeys_bind (obeys_read _) fun s => obeys_ite (fun _ => reports _) fun _ => obeys_pure _
    · refine obeys_bind (obeys_read _) fun elements => ?_
      split
      · exact reports _
      · split
        · exact obeys_pure _
        · exact obeys_ite (fun _ => reports _) fun _ => obeys_pure _
        · exact obeys_ite (fun _ => reports _) fun _ => obeys_pure _
        · exact obeys_ite (fun _ => reports _) fun _ => obeys_pure _
  have top : ∀ stack : List ValidationFrame, p.Modestly (topOf stack) := by
    intro stack
    cases stack with
    | nil => exact modestly_throw _
    | cons frame outer => exact obeys_pure _
  refine obeys_bind (obeys_read _) fun stack => obeys_bind (top stack) fun frame => ?_
  refine obeys_bind (modestly_modify (fun _ => rfl) (fun _ => rfl) (fun _ => rfl) fun _ => rfl) fun _ => ?_
  refine obeys_bind (validates frame) fun _ => ?_
  exact modestly_modify (fun _ => rfl) (fun _ => rfl) (fun _ => rfl) fun _ => rfl

theorem modestly_popElement : p.Modestly popElement := by
  refine obeys_bind (obeys_read _) fun s => obeys_ite (fun _ => modestly_throw _) fun _ => ?_
  exact modestly_modify (fun _ => rfl) (fun _ => rfl) (fun _ => rfl) fun _ => rfl

theorem spends_parseElement (fuel : Nat) :
    (p.spending allowance).Spends 0 (fun _ => 0) (p.parseElement fuel) := by
  induction fuel with
  | zero => exact spends_throw _
  | succ fuel ih =>
      refine spends_read_bind fun start => spends_bind (spends_parseTagName start) fun name => ?_
      refine spends_bind (spends_openElement name start) fun elementName => spends_bind ?_ fun _ =>
        spends_bind (Modestly.spends (modestly_finishValidationFrame start)) fun _ =>
          Modestly.spends modestly_popElement
      refine spends_read_bind fun isEmpty => spends_ite (fun _ => ?_) fun _ => ?_
      · refine spends_bind (Modestly.spends (modestly_scan (p.scans_expectSequence _ _))) fun _ => ?_
        exact spends_emit (.endElement elementName)
      · refine spends_bind (Modestly.spends (modestly_scan (p.scans_expect _ _))) fun _ => ?_
        exact spends_parseContent ih name

theorem spends_parse : (p.spending allowance).Spends 0 (fun _ => 0) p.parse := by
  refine spends_bind (spends_emit .startDocument) fun _ => ?_
  refine spends_bind (Modestly.spends (modestly_scan p.scans_parseXmlDeclarationIfPresent)) fun _ => ?_
  refine spends_bind spends_skipMisc fun _ => ?_
  refine spends_bind (Modestly.spends modestly_parseDoctypeIfPresent) fun _ => ?_
  refine spends_bind spends_skipMisc fun _ => spends_read_bind fun size => ?_
  refine spends_bind (spends_parseElement _) fun _ => spends_bind spends_skipMisc fun _ => ?_
  refine spends_read_bind fun atEnd => spends_ite (fun _ => spends_read_bind fun _ => spends_throw _) fun _ => ?_
  exact spends_emit .endDocument

end Parser

/-! ## Whole runs -/

/-- The characters decoded pay for what the whole run hands over. -/
theorem payload_of_decoded {xml : Bytes} {options : ParserOptions} {document : DecodedDocument}
    (decoded : decodeDocument xml options = .ok document) (handler : SaxHandler) :
    let final := (parseXmlDocument xml handler options).2
    final.payload ≤ textSize document.chars + price options.maxEntityReplacementBytes final * final.entityExpansions := by
  let p : Parser := ⟨handler, options, document.endLocation⟩
  have begins : (p.spending (textSize document.chars)).within 0 { rest := document.chars } :=
    ⟨by simp [ParserState.payload, ParserState.events], List.forall_mem_nil _⟩
  obtain ⟨returned, threw⟩ := Parser.spends_parse 0 _ begins
  rw [parseXmlDocument_of_ok decoded]
  cases ran : p.parse.run { rest := document.chars } with
  | mk outcome final =>
      have paid : (p.spending (textSize document.chars)).within 0 final := by
        cases outcome with
        | ok value => exact returned value final ran
        | error halt => exact threw halt final ran
      have bounded := paid.1
      change final.payload ≤ textSize document.chars + price options.maxEntityReplacementBytes final * final.entityExpansions
      change final.payload + 0 + textSize final.rest ≤
        textSize document.chars + price options.maxEntityReplacementBytes final * final.entityExpansions at bounded
      omega

theorem utf16Unit_length (littleEndian : Bool) (value : Nat) :
    2 * (utf8Unit value).length ≤ 3 * (utf16Unit littleEndian value).length := by
  have halves : ∀ unit, (utf16Bytes littleEndian unit).length = 2 := by
    intro unit
    unfold utf16Bytes
    split <;> rfl
  unfold utf16Unit
  split
  · rename_i single
    have short : (utf8Unit value).length ≤ 3 := by
      unfold utf8Unit
      split_ifs <;> simp
      omega
    rw [halves]
    omega
  · have short := utf8Unit_short value
    rw [List.length_append, halves, halves]
    omega

/-- Of three bytes of a text two are in the document, and all three if it is in UTF-8. -/
theorem textSize_decoded {xml : Bytes} {options : ParserOptions} {document : DecodedDocument}
    (decoded : decodeDocument xml options = .ok document) :
    2 * textSize document.chars ≤ 3 * xml.length ∧
      ((encodingOf xml).2 = utf8Unit → textSize document.chars ≤ xml.length) := by
  have longer : ∀ (unit : Nat → Bytes) (text : List Nat),
      (∀ value, 2 * (utf8Unit value).length ≤ 3 * (unit value).length) →
        2 * (utf8 text).length ≤ 3 * (encode unit text).length := by
    intro unit text each
    induction text with
    | nil => simp
    | cons value text ih =>
        have first := each value
        simp only [utf8_cons, encode_cons, List.length_append]
        omega
  obtain ⟨text, _, decodes⟩ := decodesTo_of_decodeDocument decoded
  have spelled : values document.chars = text := by rw [decodes.chars, values_located]
  have bytes := decodes.length
  unfold textSize
  rw [spelled]
  constructor
  · have units : ∀ value, 2 * (utf8Unit value).length ≤ 3 * ((encodingOf xml).2 value).length := by
      intro value
      unfold encodingOf
      split_ifs
      · dsimp only
        omega
      · exact utf16Unit_length true value
      · exact utf16Unit_length false value
      · dsimp only
        omega
    have total := longer _ text units
    omega
  · intro inUtf8
    rw [inUtf8] at bytes
    have same : (encode utf8Unit text).length = (utf8 text).length := rfl
    omega

/-- Whatever a document declares and however its run ends, the qualified names of start
tags and attributes, the values and the contents handed to the handler are no longer than
the document and, where entities are declared, twice the limit on a replacement for each
reference counted; these are limited, too. -/
theorem payload_bounded (xml : Bytes) (handler : SaxHandler) (options : ParserOptions) :
    let final := (parseXmlDocument xml handler options).2
    let expanded := price options.maxEntityReplacementBytes final * final.entityExpansions
    2 * final.payload ≤ 3 * xml.length + 2 * expanded ∧
      ((encodingOf xml).2 = utf8Unit → final.payload ≤ xml.length + expanded) ∧
      final.entityExpansions ≤ options.maxEntityExpansions + 1 := by
  cases decoded : decodeDocument xml options with
  | error error =>
      rw [parseXmlDocument_of_error decoded]
      exact ⟨Nat.zero_le _, fun _ => Nat.zero_le _, Nat.zero_le _⟩
  | ok document =>
      have paid := payload_of_decoded decoded handler
      have sizes := textSize_decoded decoded
      have counted := (holdsLimits_of_decoded decoded handler).expansions
      dsimp only at paid counted ⊢
      refine ⟨by omega, fun inUtf8 => (paid.trans (Nat.add_le_add_right (sizes.2 inUtf8) _)), ?_⟩
      rcases counted with within | ⟨beyond, _⟩
      · omega
      · omega

end XmlParser
