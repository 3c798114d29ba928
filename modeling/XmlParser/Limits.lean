import XmlParser.Progress
import XmlParser.Library.Triple

/-! The limits of the options hold at every call of the handler and at the end
of every run, and a call that throws is the last one. -/

set_option autoImplicit false

namespace XmlParser

open XmlParser.Computation Comp

/-! ## The invariant -/

/-- The declarations entered into the tables. -/
def DtdState.recorded (dtd : DtdState) : Nat := dtd.elements.length + dtd.entities.length

theorem recorded_emplaceElement (dtd : DtdState) (name : Bytes) (declaration : ElementDeclaration) :
    { dtd with elements := emplaceKey name declaration dtd.elements }.recorded = dtd.recorded + 1 := by
  simp [DtdState.recorded, emplaceKey, Nat.add_right_comm]

theorem recorded_emplaceEntity (dtd : DtdState) (name replacement : Bytes) :
    { dtd with entities := emplaceKey name replacement dtd.entities }.recorded = dtd.recorded + 1 := by
  simp [DtdState.recorded, emplaceKey, Nat.add_assoc]

/-- The handler has returned from each of these calls. -/
def SaxHandler.Returned (handler : SaxHandler) (events : List Event) : Prop :=
  ∀ history, history ≠ [] → history <+: events → handler.respond history = none

/-- The handler has returned from each of these calls, or its exception in the
last one is on its way. -/
def SaxHandler.Interrupted (handler : SaxHandler) (halt : Halt) (events : List Event) : Prop :=
  handler.Returned events ∨ ∃ before last exception, events = before ++ [last] ∧ handler.Returned before ∧
    handler.respond events = some exception ∧ halt = .thrown exception

namespace Parser

variable (p : Parser)

def FitsToken (text : Bytes) : Prop := text.length ≤ p.options.maxTokenBytes

/-- What an event carries is within the limits. -/
def Permits : Event → Prop
  | .startDocument | .endDocument => True
  | .startElement name views =>
      p.FitsToken name.qualifiedName ∧ views.length ≤ p.options.maxAttributesPerElement ∧
        ∀ view ∈ views, p.FitsToken view.name.qualifiedName ∧ p.FitsToken view.value
  | .endElement name => p.FitsToken name.qualifiedName
  | .characters text | .comment text | .cdata text => p.FitsToken text
  | .processingInstruction target data => p.FitsToken target ∧ p.FitsToken data

/-- What the event of a start tag names has been resolved. -/
def NamesResolved : Event → Prop
  | .startElement name views => name.qualifiedName ≠ [] ∧
      (∃ scopes start s t, (p.resolveName scopes name.qualifiedName true start).run (s : ParserState) = (.ok name, t)) ∧
        ∃ scopes attributes s t, (p.attributeViews scopes attributes []).run (s : ParserState) = (.ok views, t)
  | _ => True

/-- A call within the limits, with what the counters were. -/
structure PermitsCall (delivery : Delivery) : Prop where
  event : p.Permits delivery.event
  elementDepth : delivery.elementDepth ≤ p.options.maxDepth
  entityExpansions : delivery.entityExpansions ≤ p.options.maxEntityExpansions
  declarationCount : delivery.declarationCount ≤ p.options.maxDtdDeclarations

/-- The parser is within its limits, with room for so many more elements, and so
many declarations are counted and not yet entered. -/
structure WithinLimits (room pending : Nat) (s : ParserState) : Prop where
  trace : (∀ delivery ∈ s.trace, p.PermitsCall delivery ∧ p.NamesResolved delivery.event) ∧ p.handler.Returned s.events
  depth : s.elementStack.length + room ≤ p.options.maxDepth
  names : ∀ name ∈ s.elementNameStack, p.FitsToken name.qualifiedName
  expansions : s.entityExpansions ≤ p.options.maxEntityExpansions
  declarations : s.dtd.declarationCount ≤ p.options.maxDtdDeclarations
  recorded : s.dtd.recorded + pending ≤ s.dtd.declarationCount

/-- The references counted: the last one may be one too many, and is not expanded. -/
def Counted (halt : Halt) (count : Nat) : Prop :=
  count ≤ p.options.maxEntityExpansions ∨
    count = p.options.maxEntityExpansions + 1 ∧ ∃ location, halt = .thrown (.xmlParse
      ⟨.resourceLimit, location, "entity expansion count exceeds max_entity_expansions"⟩)

/-- What is left behind by a throw. -/
structure StopsWithin (halt : Halt) (s : ParserState) : Prop where
  trace : (∀ delivery ∈ s.trace, p.PermitsCall delivery ∧ p.NamesResolved delivery.event) ∧
    p.handler.Interrupted halt s.events
  depth : s.elementStack.length ≤ p.options.maxDepth
  expansions : p.Counted halt s.entityExpansions
  recorded : s.dtd.recorded ≤ p.options.maxDtdDeclarations

abbrev Keeps {α : Type} (room pending : Nat) (source : ParserM α) : Prop :=
  Triple (p.WithinLimits room pending) source (fun _ => p.WithinLimits room pending) p.StopsWithin

/-- Counting and resolving stay within the limit, or throw. -/
abbrev KeepsCount {α : Type} (source : Comp Nat Halt α) : Prop :=
  Triple (fun count => count ≤ p.options.maxEntityExpansions) source
    (fun _ count => count ≤ p.options.maxEntityExpansions) p.Counted

/-- The attributes read so far are few and short. -/
def FewShort (attributes : List RawAttribute) : Prop :=
  attributes.length ≤ p.options.maxAttributesPerElement ∧
    ∀ raw ∈ attributes, p.FitsToken raw.name ∧ p.FitsToken raw.value

namespace WithinLimits

variable {p} {room pending : Nat}

theorem stopsWithin {s : ParserState} (within : p.WithinLimits room pending s) (halt : Halt) :
    p.StopsWithin halt s where
  trace := ⟨within.trace.1, .inl within.trace.2⟩
  depth := (Nat.le_add_right _ _).trans within.depth
  expansions := .inl within.expansions
  recorded := (Nat.le_add_right _ _).trans (within.recorded.trans within.declarations)

/-! ## Members that neither count nor call -/

theorem triple_stop {α : Type} {post : α → ParserState → Prop} (halt : Halt) :
    Triple (p.WithinLimits room pending) (Comp.throw halt) post p.StopsWithin :=
  triple_throw fun _ within => within.stopsWithin halt

theorem triple_failHere {α : Type} {post : α → ParserState → Prop} (kind : ErrorKind) (message : String) :
    Triple (p.WithinLimits room pending) (p.failHere kind message) post p.StopsWithin :=
  triple_read_bind fun _ => triple_stop _

/-- A scanned value is one that the scanner can return. -/
theorem triple_scan {α : Type} {source : Cursor α} {fact : α → Prop}
    (returns : ∀ rest value final, source.run rest = (.ok value, final) → fact value) :
    Triple (p.WithinLimits room pending) (scan source) (fun value s => fact value ∧ p.WithinLimits room pending s)
      p.StopsWithin := by
  intro s within
  constructor
  · intro value final ran
    obtain ⟨rest, scanned, rfl⟩ := run_onPart_eq_iff.mp ran
    exact ⟨returns _ _ _ scanned, within.trace, within.depth, within.names, within.expansions,
      within.declarations, within.recorded⟩
  · intro halt final ran
    obtain ⟨rest, _, rfl⟩ := run_onPart_eq_iff.mp ran
    have left := within.stopsWithin halt
    exact ⟨left.trace, left.depth, left.expansions, left.recorded⟩

theorem keeps_scan {α : Type} (source : Cursor α) : p.Keeps room pending (scan source) := by
  have scanned : Triple (p.WithinLimits room pending) (scan source)
      (fun _ s => True ∧ p.WithinLimits room pending s) p.StopsWithin := triple_scan fun _ _ _ _ => trivial
  exact scanned.imp (fun _ within => within) (fun _ _ here => here.2) fun _ _ left => left

/-- A value that is returned is the value of a run. -/
theorem triple_returned {α : Type} {source : ParserM α} {before : ParserState → Prop}
    {after : α → ParserState → Prop} {failed : Halt → ParserState → Prop}
    (triple : Triple before source after failed) :
    Triple before source (fun value s => (∃ first last, source.run first = (.ok value, last)) ∧ after value s)
      failed :=
  fun s here => ⟨fun value final ran => ⟨⟨s, final, ran⟩, (triple s here).1 value final ran⟩, (triple s here).2⟩

theorem triple_emit {event : Event} (permitted : p.Permits event) (resolved : p.NamesResolved event) :
    Triple (p.WithinLimits 0 pending) (p.emit event) (fun _ => p.WithinLimits 0 pending) p.StopsWithin := by
  intro s within
  have calls : ∀ delivery ∈ (s.deliver event).trace, p.PermitsCall delivery ∧ p.NamesResolved delivery.event := by
    intro delivery member
    cases List.mem_append.mp member with
    | inl earlier => exact within.trace.1 delivery earlier
    | inr last =>
        rw [List.mem_singleton.mp last]
        exact ⟨⟨permitted, within.depth, within.expansions, within.declarations⟩, resolved⟩
  have events : (s.deliver event).events = s.events ++ [event] := List.map_append
  unfold emit
  rw [run_modify_bind, run_read_bind]
  cases response : p.handler.respond (s.deliver event).events with
  | none =>
      refine ⟨fun value final ran => ?_, nofun⟩
      cases ran
      refine ⟨⟨calls, fun history nonempty isPrefix => ?_⟩, within.depth, within.names, within.expansions,
        within.declarations, within.recorded⟩
      rw [events] at isPrefix response
      cases List.prefix_concat_iff.mp isPrefix with
      | inl same => exact same ▸ response
      | inr earlier => exact within.trace.2 history nonempty earlier
  | some exception =>
      refine ⟨nofun, fun halt final ran => ?_⟩
      cases ran
      have left := within.stopsWithin (.thrown exception)
      exact ⟨⟨calls, .inr ⟨s.events, event, exception, events, within.trace.2, response, rfl⟩⟩, left.depth,
        left.expansions, left.recorded⟩

theorem keeps_scanItem {α : Type} {source : Cursor α} {event : α → Event}
    (permitted : ∀ rest value final, source.run rest = (.ok value, final) → p.Permits (event value))
    (resolved : ∀ value, p.NamesResolved (event value)) :
    p.Keeps 0 pending (scan source >>= fun value => p.emit (event value)) :=
  triple_bind_fact (triple_scan permitted) fun value fits => triple_emit fits (resolved value)

theorem keeps_parseComment : p.Keeps 0 pending p.parseComment := by
  refine keeps_scanItem (fun rest text final scanned => ?_) fun _ => trivial
  obtain ⟨_, _, _, _, _, _, fits⟩ := p.scanComment_eq_ok_iff.mp scanned
  exact fits

theorem keeps_parseCdata : p.Keeps 0 pending p.parseCdata := by
  refine keeps_scanItem (fun rest text final scanned => ?_) fun _ => trivial
  obtain ⟨_, _, _, _, _, _, fits⟩ := p.scanCdata_eq_ok_iff.mp scanned
  exact fits

theorem fits_name {name : List Nat} (named : Grammar.Name name)
    (short : name.length ≤ p.options.maxTokenBytes) : p.FitsToken (utf8 name) := by
  unfold FitsToken
  rw [← named.toAscii]
  unfold toAscii
  rw [List.length_map]
  exact short

theorem fits_parseName (rest : List DecodedChar) (name : Bytes) (final : List DecodedChar)
    (scanned : p.parseName.run rest = (.ok name, final)) : name ≠ [] ∧ p.FitsToken name := by
  obtain ⟨consumed, _, named, _, rfl, fits⟩ := p.parseName_eq_ok_iff.mp scanned
  refine ⟨?_, fits_name named (by rwa [values_length])⟩
  rw [← named.toAscii]
  cases spelled : values consumed with
  | nil =>
      rw [spelled] at named
      exact named.elim
  | cons first rest => exact List.cons_ne_nil _ _

theorem keeps_parseProcessingInstruction : p.Keeps 0 pending p.parseProcessingInstruction := by
  refine keeps_scanItem (fun rest value final scanned => ?_) fun _ => trivial
  obtain ⟨_, target, _, data, _, _, named, _, _, _, _, _, rfl, short, fits⟩ :=
    p.scanProcessingInstruction_eq_ok_iff.mp scanned
  exact ⟨fits_name named short, fits⟩

theorem keeps_skipMisc : p.Keeps 0 pending p.skipMisc := by
  refine triple_loop (fun _ => p.WithinLimits 0 pending) (fun _ => ?_) (fun _ _ within => within.stopsWithin _) ()
  refine triple_read_bind fun before => triple_bind (keeps_scan _) fun _ => triple_read_bind fun consumed => ?_
  refine triple_read_bind fun isComment => triple_ite (fun _ => ?_) fun _ => ?_
  · exact triple_bind keeps_parseComment fun _ => triple_pure fun _ within => within
  refine triple_read_bind fun isInstruction => triple_ite (fun _ => ?_) fun _ => ?_
  · exact triple_bind keeps_parseProcessingInstruction fun _ => triple_pure fun _ within => within
  · exact triple_ite (fun _ => triple_pure fun _ within => within) fun _ => triple_pure fun _ within => within

/-! ## References -/

theorem keepsCount_failAt {α : Type} (kind : ErrorKind) (location : SourceLocation) (message : String) :
    p.KeepsCount (failAt kind location message : Comp Nat Halt α) :=
  triple_throw fun _ within => .inl within

theorem keepsCount_pure {α : Type} (value : α) : p.KeepsCount (pure value) :=
  triple_pure fun _ within => within

theorem keepsCount_countExpansion (start : SourceLocation) : p.KeepsCount (p.countExpansion start) := by
  have counts : Triple (fun count => count ≤ p.options.maxEntityExpansions) (Comp.modify (· + 1))
      (fun _ count => count ≤ p.options.maxEntityExpansions + 1) p.Counted :=
    triple_modify fun _ within => Nat.succ_le_succ within
  refine triple_bind counts fun _ => triple_read_bind_of_eq fun count => triple_ite (fun beyond => ?_) fun fits => ?_
  · refine triple_throw fun state here => .inr ⟨?_, start, rfl⟩
    obtain ⟨bounded, rfl⟩ := here
    exact Nat.le_antisymm bounded beyond
  · refine triple_pure fun state here => ?_
    obtain ⟨_, rfl⟩ := here
    exact Nat.le_of_not_gt fits

theorem keepsCount_parseCharacterReference (text : Bytes) (start : SourceLocation) :
    p.KeepsCount (p.parseCharacterReference text start) := by
  unfold parseCharacterReference
  refine triple_ite (fun _ => keepsCount_failAt _ _ _) fun _ => ?_
  split
  · exact keepsCount_failAt _ _ _
  · exact triple_ite (fun _ => keepsCount_failAt _ _ _) fun _ => keepsCount_pure _

theorem keepsCount_expandReference (entities : List (Bytes × Bytes)) (start : SourceLocation)
    {nested : Bytes → Comp Nat Halt Bytes} (keeps : ∀ text, p.KeepsCount (nested text)) (name : Bytes) :
    p.KeepsCount (p.expandReference entities start nested name) := by
  unfold expandReference
  split
  · exact keepsCount_pure _
  refine triple_ite (fun _ => keepsCount_parseCharacterReference _ _) fun _ => ?_
  split
  · exact keepsCount_failAt _ _ _
  · exact keeps _

theorem keepsCount_expandRound (entities : List (Bytes × Bytes)) (start : SourceLocation)
    {nested : Bytes → Comp Nat Halt Bytes} (keeps : ∀ text, p.KeepsCount (nested text))
    (current : Bytes × Bytes) : p.KeepsCount (p.expandRound entities start nested current) := by
  obtain ⟨text, expanded⟩ := current
  cases text with
  | nil => exact keepsCount_pure _
  | cons ch rest =>
      refine triple_ite (fun _ => keepsCount_pure _) fun _ => ?_
      refine triple_ite (fun _ => keepsCount_failAt _ _ _) fun _ => ?_
      refine triple_bind (keepsCount_countExpansion start) fun _ => ?_
      refine triple_bind (keepsCount_expandReference entities start keeps _) fun value => ?_
      exact triple_ite (fun _ => keepsCount_failAt _ _ _) fun _ => keepsCount_pure _

theorem keepsCount_expandEntityText (entities : List (Bytes × Bytes)) (start : SourceLocation)
    (fuel depth : Nat) (text : Bytes) :
    p.KeepsCount (p.expandEntityText entities start fuel depth text) := by
  induction fuel generalizing depth text with
  | zero => exact triple_throw fun _ within => .inl within
  | succ fuel ih =>
      refine triple_ite (fun _ => keepsCount_failAt _ _ _) fun _ => ?_
      refine triple_loop (fun _ count => count ≤ p.options.maxEntityExpansions) (fun current => ?_)
        (fun _ _ within => .inl within) _
      refine (keepsCount_expandRound entities start (fun text => ih (depth + 1) text) current).imp
        (fun _ within => within) (fun step _ within => ?_) fun _ _ counted => counted
      cases step with
      | next following => exact within
      | done result => exact within

theorem keepsCount_resolveReference (entities : List (Bytes × Bytes)) (name : Bytes)
    (start : SourceLocation) : p.KeepsCount (p.resolveReference entities name start) := by
  unfold resolveReference
  split
  · exact keepsCount_pure _
  refine triple_ite (fun _ => keepsCount_parseCharacterReference _ _) fun _ => ?_
  split
  · exact keepsCount_expandEntityText _ _ _ _ _
  · exact triple_ite (fun _ => keepsCount_failAt _ _ _) fun _ => keepsCount_failAt _ _ _

theorem keeps_counting {α : Type} {source : Comp Nat Halt α} (keeps : p.KeepsCount source) :
    p.Keeps room pending (counting source) := by
  intro s within
  obtain ⟨returns, throws⟩ := keeps s.entityExpansions within.expansions
  constructor
  · intro value final ran
    obtain ⟨count, counted, rfl⟩ := run_onPart_eq_iff.mp ran
    exact ⟨within.trace, within.depth, within.names, returns value count counted, within.declarations,
      within.recorded⟩
  · intro halt final ran
    obtain ⟨count, counted, rfl⟩ := run_onPart_eq_iff.mp ran
    have left := within.stopsWithin halt
    exact ⟨left.trace, left.depth, throws halt count counted, left.recorded⟩

theorem keeps_parseReference : p.Keeps room pending p.parseReference := by
  refine triple_read_bind fun start => triple_bind (keeps_scan _) fun _ => ?_
  refine triple_bind (keeps_counting (keepsCount_countExpansion start)) fun _ => ?_
  refine triple_bind (keeps_scan _) fun name => triple_bind (keeps_scan _) fun _ => ?_
  exact triple_read_bind fun entities => keeps_counting (keepsCount_resolveReference _ _ _)

theorem keeps_takePiece (text : Bytes) : p.Keeps room pending (p.takePiece text) := by
  refine triple_read_bind fun next => triple_ite (fun _ => ?_) fun _ => keeps_scan _
  exact triple_bind keeps_parseReference fun _ => triple_pure fun _ within => within

/-- The end of a round that appends: the text tested fits. -/
theorem triple_enforceTokenSize (text : Bytes) (start : SourceLocation) :
    Triple (p.WithinLimits room pending) (p.enforceTokenSize text.length start)
      (fun _ s => p.FitsToken text ∧ p.WithinLimits room pending s) p.StopsWithin := by
  refine triple_ite (fun _ => triple_throw fun s within => within.stopsWithin _) fun fits => ?_
  exact triple_pure fun s within => ⟨Nat.le_of_not_gt fits, within⟩

/-! ## The document type declaration -/

theorem triple_modifyDtd {update : DtdState → DtdState} {more : Nat}
    (counted : ∀ dtd, (update dtd).declarationCount = dtd.declarationCount)
    (recorded : ∀ dtd, (update dtd).recorded + pending ≤ dtd.recorded + more) :
    Triple (p.WithinLimits room more) (modifyDtd update) (fun _ => p.WithinLimits room pending) p.StopsWithin := by
  refine triple_modify fun s within => ⟨within.trace, within.depth, within.names, within.expansions, ?_, ?_⟩
  · show (update s.dtd).declarationCount ≤ _
    rw [counted]
    exact within.declarations
  · show (update s.dtd).recorded + pending ≤ (update s.dtd).declarationCount
    rw [counted]
    exact (recorded s.dtd).trans within.recorded

theorem triple_enforceDtdDeclarationLimit :
    Triple (p.WithinLimits room 0) p.enforceDtdDeclarationLimit (fun _ => p.WithinLimits room 1) p.StopsWithin := by
  let counted (s : ParserState) : ParserState :=
    { s with dtd := { s.dtd with declarationCount := s.dtd.declarationCount + 1 } }
  have counts : Triple (p.WithinLimits room 0)
      (modifyDtd fun dtd => { dtd with declarationCount := dtd.declarationCount + 1 })
      (fun _ t => ∃ s, p.WithinLimits room 0 s ∧ t = counted s) p.StopsWithin :=
    triple_modify fun s within => ⟨s, within, rfl⟩
  refine triple_bind counts fun _ => triple_read_bind_of_eq fun count => triple_ite (fun beyond => ?_) fun fits => ?_
  · -- The table is as it was, so it is within the limit although the count is not.
    refine triple_read_bind fun location => triple_throw fun t here => ?_
    obtain ⟨⟨s, within, rfl⟩, _⟩ := here
    have left := within.stopsWithin (.thrown (.xmlParse
      ⟨.resourceLimit, location, "DTD declaration count exceeds max_dtd_declarations"⟩))
    exact ⟨left.trace, left.depth, left.expansions, left.recorded⟩
  · refine triple_pure fun t here => ?_
    obtain ⟨⟨s, within, rfl⟩, rfl⟩ := here
    exact ⟨within.trace, within.depth, within.names, within.expansions, Nat.le_of_not_gt fits,
      Nat.succ_le_succ within.recorded⟩

theorem triple_declareElement (name model : Bytes) (location : SourceLocation) :
    Triple (p.WithinLimits room 1) (declareElement name model location) (fun _ => p.WithinLimits room 0)
      p.StopsWithin := by
  have models : p.Keeps room 1 (parseElementModel model location) := by
    unfold parseElementModel
    refine triple_ite (fun _ => triple_pure fun _ within => within) fun _ => ?_
    refine triple_ite (fun _ => triple_pure fun _ within => within) fun _ => ?_
    refine triple_ite (fun _ => triple_pure fun _ within => within) fun _ => ?_
    exact triple_ite (fun _ => triple_pure fun _ within => within) fun _ => triple_stop _
  refine triple_read_bind fun _ => triple_ite (fun _ => triple_stop _) fun _ => ?_
  refine triple_bind models fun declaration => triple_modifyDtd (fun _ => rfl) fun dtd => ?_
  exact Nat.le_of_eq (recorded_emplaceElement dtd name declaration)

theorem keeps_parseElementDeclaration : p.Keeps room 0 p.parseElementDeclaration := by
  refine triple_read_bind fun start => triple_bind triple_enforceDtdDeclarationLimit fun _ => ?_
  refine triple_bind (keeps_scan _) fun _ => triple_read_bind fun _ => ?_
  refine triple_ite (fun _ => triple_failHere _ _) fun _ => ?_
  refine triple_bind (keeps_scan _) fun _ => triple_bind (keeps_scan _) fun name => ?_
  refine triple_bind (keeps_scan _) fun _ => triple_bind (keeps_scan _) fun model => ?_
  exact triple_bind (keeps_scan _) fun _ => triple_declareElement _ _ _

theorem triple_enterEntity (name replacement : Bytes) (start : SourceLocation) :
    Triple (p.WithinLimits room 1) (p.enterEntity name replacement start) (fun _ => p.WithinLimits room 0)
      p.StopsWithin := by
  refine triple_ite (fun _ => triple_stop _) fun _ => ?_
  refine triple_bind (keeps_scan _) fun _ => triple_bind (keeps_scan _) fun _ => triple_read_bind fun _ => ?_
  refine triple_ite (fun _ => triple_stop _) fun _ => triple_modifyDtd (fun _ => rfl) fun dtd => ?_
  exact Nat.le_of_eq (recorded_emplaceEntity dtd name replacement)

theorem keeps_parseEntityDeclaration : p.Keeps room 0 p.parseEntityDeclaration := by
  refine triple_read_bind fun start => triple_bind triple_enforceDtdDeclarationLimit fun _ => ?_
  refine triple_bind (keeps_scan _) fun _ => triple_read_bind fun _ => ?_
  refine triple_ite (fun _ => triple_failHere _ _) fun _ => ?_
  refine triple_bind (keeps_scan _) fun _ => triple_read_bind fun _ => ?_
  refine triple_ite (fun _ => triple_failHere _ _) fun _ => ?_
  refine triple_bind (keeps_scan _) fun name => triple_bind (keeps_scan _) fun _ => ?_
  exact triple_bind (keeps_scan _) fun replacement => triple_enterEntity _ _ _

theorem keeps_internalSubsetRound (current : Unit) :
    p.Keeps room 0 (p.internalSubsetRound current) := by
  refine triple_read_bind fun _ => triple_ite (fun _ => triple_failHere _ _) fun _ => ?_
  refine triple_bind (keeps_scan _) fun _ => triple_read_bind fun _ => ?_
  refine triple_ite (fun _ => triple_pure fun _ within => within) fun _ => triple_read_bind fun _ => ?_
  refine triple_ite (fun _ => ?_) fun _ => triple_read_bind fun _ => ?_
  · exact triple_bind (keeps_scan _) fun _ => triple_pure fun _ within => within
  refine triple_ite (fun _ => ?_) fun _ => triple_read_bind fun _ => ?_
  · exact triple_bind keeps_parseElementDeclaration fun _ => triple_pure fun _ within => within
  refine triple_ite (fun _ => ?_) fun _ => triple_failHere _ _
  exact triple_bind keeps_parseEntityDeclaration fun _ => triple_pure fun _ within => within

/-- A loop whose rounds keep the limits keeps them. -/
theorem keeps_loop {β γ : Type} {size : β → ParserState → Nat} {body : β → ParserM (LoopStep β γ)}
    (round : ∀ current, p.Keeps room pending (body current)) (start : β) :
    p.Keeps room pending (loop size .outOfFuel body start) := by
  refine triple_loop (fun _ => p.WithinLimits room pending) (fun current => ?_)
    (fun _ _ within => within.stopsWithin _) start
  refine (round current).imp (fun _ within => within) (fun step _ within => ?_) fun _ _ left => left
  cases step with
  | next following => exact within
  | done result => exact within

theorem keeps_parseExternalElementDeclaration (declaration : Bytes) :
    p.Keeps room 0 (p.parseExternalElementDeclaration declaration) := by
  refine triple_bind triple_enforceDtdDeclarationLimit fun _ => ?_
  refine triple_ite (fun _ => triple_failHere _ _) fun _ => ?_
  exact triple_read_bind fun _ => triple_declareElement _ _ _

theorem keeps_externalSubsetRound (subset : Bytes) : p.Keeps room 0 (p.externalSubsetRound subset) := by
  refine triple_ite (fun _ => triple_pure fun _ within => within) fun _ => triple_ite (fun _ => ?_) fun _ => ?_
  · refine triple_ite (fun _ => triple_failHere _ _) fun _ => ?_
    exact triple_bind (keeps_parseExternalElementDeclaration _) fun _ => triple_pure fun _ within => within
  · exact triple_failHere _ _

theorem keeps_resolveExternalSubsetIfNeeded : p.Keeps room 0 p.resolveExternalSubsetIfNeeded := by
  refine triple_read_bind fun dtd => triple_ite (fun _ => triple_pure fun _ within => within) fun _ => ?_
  split
  · split
    · exact triple_stop _
    · exact triple_ite (fun _ => triple_failHere _ _) fun _ => keeps_loop keeps_externalSubsetRound _
  · exact triple_failHere _ _

theorem keeps_modifyDtd {update : DtdState → DtdState}
    (same : ∀ dtd, (update dtd).declarationCount = dtd.declarationCount ∧
      (update dtd).recorded = dtd.recorded) : p.Keeps room pending (modifyDtd update) :=
  triple_modifyDtd (fun dtd => (same dtd).1) fun dtd => Nat.le_of_eq (congrArg (· + pending) (same dtd).2)

theorem keeps_parseExternalId : p.Keeps room pending p.parseExternalId := by
  refine triple_read_bind fun _ => triple_ite (fun _ => ?_) fun _ => triple_read_bind fun _ => ?_
  · refine triple_bind (keeps_scan _) fun _ => triple_bind (keeps_scan _) fun _ => ?_
    refine triple_bind (keeps_scan _) fun systemId => ?_
    exact triple_bind (keeps_modifyDtd fun _ => ⟨rfl, rfl⟩) fun _ => keeps_scan _
  refine triple_ite (fun _ => ?_) fun _ => triple_pure fun _ within => within
  refine triple_bind (keeps_scan _) fun _ => triple_bind (keeps_scan _) fun _ => ?_
  refine triple_bind (keeps_scan _) fun _ => triple_bind (keeps_scan _) fun _ => ?_
  refine triple_bind (keeps_scan _) fun systemId => ?_
  exact triple_bind (keeps_modifyDtd fun _ => ⟨rfl, rfl⟩) fun _ => keeps_scan _

theorem keeps_parseBracketedSubset : p.Keeps room 0 p.parseBracketedSubset := by
  refine triple_read_bind fun _ => triple_ite (fun _ => ?_) fun _ => triple_pure fun _ within => within
  refine triple_bind (keeps_scan _) fun _ => ?_
  refine triple_bind (keeps_loop keeps_internalSubsetRound ()) fun _ => ?_
  exact triple_bind (keeps_scan _) fun _ => keeps_scan _

theorem keeps_parseDoctypeIfPresent : p.Keeps room 0 p.parseDoctypeIfPresent := by
  refine triple_read_bind fun _ => triple_ite (fun _ => triple_pure fun _ within => within) fun _ => ?_
  refine triple_bind (keeps_modifyDtd fun _ => ⟨rfl, rfl⟩) fun _ => triple_bind (keeps_scan _) fun _ => ?_
  refine triple_read_bind fun _ => triple_ite (fun _ => triple_failHere _ _) fun _ => ?_
  refine triple_bind (keeps_scan _) fun _ => triple_bind (keeps_scan _) fun rootName => ?_
  refine triple_bind (keeps_modifyDtd fun _ => ⟨rfl, rfl⟩) fun _ => triple_bind (keeps_scan _) fun _ => ?_
  refine triple_bind keeps_parseExternalId fun _ => triple_bind keeps_parseBracketedSubset fun _ => ?_
  exact triple_bind (keeps_scan _) fun _ => keeps_resolveExternalSubsetIfNeeded

/-! ## Attributes and names -/

/-- An appending round of a loop over a text. -/
theorem triple_append {source : ParserM Bytes} (keeps : p.Keeps room pending source) (start : SourceLocation)
    {ended : Bytes → ParserState → Prop} :
    Triple (p.WithinLimits room pending)
      (source >>= fun text => p.enforceTokenSize text.length start >>= fun _ =>
        pure (.next text) : ParserM (LoopStep Bytes Bytes))
      (RoundPost (fun text s => p.FitsToken text ∧ p.WithinLimits room pending s) ended) p.StopsWithin :=
  triple_bind keeps fun text =>
    triple_bind (triple_enforceTokenSize text start) fun _ => triple_pure fun _ here => here

theorem triple_parseAttributeValue :
    Triple (p.WithinLimits room pending) p.parseAttributeValue
      (fun value s => p.FitsToken value ∧ p.WithinLimits room pending s) p.StopsWithin := by
  refine triple_read_bind fun start => triple_read_bind fun quote => ?_
  refine triple_ite (fun _ => triple_failHere _ _) fun _ => triple_bind (keeps_scan _) fun _ => ?_
  refine (triple_loop (fun value s => p.FitsToken value ∧ p.WithinLimits room pending s)
    (fun value => triple_of_fact fun fits => ?_) (fun _ _ here => here.2.stopsWithin _) []).imp
    (fun _ within => ⟨Nat.zero_le _, within⟩) (fun _ _ here => here) fun _ _ left => left
  refine triple_read_bind fun _ => triple_read_bind fun _ => triple_ite (fun _ => ?_) fun _ => ?_
  · exact triple_bind (keeps_scan _) fun _ => triple_pure fun _ within => ⟨fits, within⟩
  refine triple_read_bind fun _ => triple_ite (fun _ => triple_failHere _ _) fun _ => ?_
  exact triple_append (keeps_takePiece _) start

theorem triple_parseAttributes :
    Triple (p.WithinLimits room pending) p.parseAttributes
      (fun attributes s => p.FewShort attributes ∧ p.WithinLimits room pending s) p.StopsWithin := by
  refine (triple_loop (fun attributes s => p.FewShort attributes ∧ p.WithinLimits room pending s)
    (fun attributes => triple_of_fact fun few => ?_) (fun _ _ here => here.2.stopsWithin _) []).imp
    (fun _ within => ⟨⟨Nat.zero_le _, fun _ member => nomatch member⟩, within⟩) (fun _ _ here => here)
    fun _ _ left => left
  refine triple_bind (keeps_scan _) fun _ => triple_read_bind fun _ => triple_read_bind fun _ => ?_
  refine triple_ite (fun _ => triple_pure fun _ within => ⟨few, within⟩) fun _ => ?_
  refine triple_read_bind fun location => triple_bind_fact (triple_scan fits_parseName) fun name short => ?_
  refine triple_ite (fun _ => triple_failHere _ _) fun _ => ?_
  refine triple_ite (fun _ => triple_failHere _ _) fun fits => ?_
  refine triple_bind (keeps_scan _) fun _ => triple_bind (keeps_scan _) fun _ => ?_
  refine triple_bind (keeps_scan _) fun _ => triple_bind_fact triple_parseAttributeValue fun value brief => ?_
  refine triple_pure fun _ within => ⟨⟨?_, ?_⟩, within⟩
  · rw [List.length_append]
    exact Nat.le_of_not_gt fits
  · intro raw member
    cases List.mem_append.mp member with
    | inl earlier => exact few.2 raw earlier
    | inr last =>
        rw [List.mem_singleton.mp last]
        exact ⟨short.2, brief⟩

/-- Each view is made of one of the attributes. -/
theorem attributeViews_mem {σ : Type} {scopes : List NamespaceScope} {attributes : List RawAttribute}
    {seen : List (Bytes × Bytes)} {s t : σ} {views : List AttributeView}
    (ran : (p.attributeViews scopes attributes seen).run s = (.ok views, t)) :
    ∀ view ∈ views, ∃ raw ∈ attributes, view.name.qualifiedName = raw.name ∧ view.value = raw.value := by
  induction attributes generalizing seen views s t with
  | nil =>
      cases ran
      exact fun _ member => nomatch member
  | cons raw attributes ih =>
      unfold attributeViews at ran
      split at ran
      · intro view member
        obtain ⟨other, isOther, same⟩ := ih ran view member
        exact ⟨other, List.mem_cons_of_mem _ isOther, same⟩
      · obtain ⟨name, next, resolved, rest⟩ := bind_eq_ok.mp ran
        split at rest
        · cases rest
        obtain ⟨others, after, viewed, last⟩ := bind_eq_ok.mp rest
        cases last
        intro view member
        cases List.mem_cons.mp member with
        | inl first =>
            subst first
            exact ⟨raw, List.mem_cons_self, resolveName_qualifiedName resolved, rfl⟩
        | inr later =>
            obtain ⟨other, isOther, same⟩ := ih viewed view later
            exact ⟨other, List.mem_cons_of_mem _ isOther, same⟩

/-- No attribute is viewed twice. -/
theorem attributeViews_length {σ : Type} {scopes : List NamespaceScope} {attributes : List RawAttribute}
    {seen : List (Bytes × Bytes)} {s t : σ} {views : List AttributeView}
    (ran : (p.attributeViews scopes attributes seen).run s = (.ok views, t)) : views.length ≤ attributes.length := by
  induction attributes generalizing seen views s with
  | nil =>
      cases ran
      exact Nat.le_refl _
  | cons raw attributes ih =>
      unfold attributeViews at ran
      split at ran
      · exact (ih ran).trans (Nat.le_succ _)
      · obtain ⟨name, _, _, ran⟩ := bind_eq_ok.mp ran
        split at ran
        · cases ran
        · obtain ⟨others, _, viewed, ran⟩ := bind_eq_ok.mp ran
          cases ran
          exact Nat.succ_le_succ (ih viewed)

/-! ## Content -/

theorem keeps_deliverText {text : Bytes} (fits : p.FitsToken text) : p.Keeps 0 pending (p.deliverText text) := by
  refine triple_ite (fun _ => triple_pure fun _ within => within) fun _ => ?_
  refine triple_bind (triple_modify fun s within => ?_) fun _ => triple_emit fits trivial
  split
  · exact ⟨within.trace, within.depth, within.names, within.expansions, within.declarations, within.recorded⟩
  · exact within

theorem keeps_parseText : p.Keeps 0 pending p.parseText := by
  refine triple_read_bind fun start => triple_bind_fact ?_ fun text fits => keeps_deliverText fits
  refine (triple_loop (fun text s => p.FitsToken text ∧ p.WithinLimits 0 pending s)
    (fun text => triple_of_fact fun fits => ?_) (fun _ _ here => here.2.stopsWithin _) []).imp
    (fun _ within => ⟨Nat.zero_le _, within⟩) (fun _ _ here => here) fun _ _ left => left
  refine triple_read_bind fun _ => triple_read_bind fun _ => triple_ite (fun _ => ?_) fun _ => ?_
  · exact triple_pure fun _ within => ⟨fits, within⟩
  · exact triple_append (keeps_takePiece _) start

theorem keeps_parseEndTag (openName : Bytes) : p.Keeps 0 pending (p.parseEndTag openName) := by
  refine triple_read_bind fun endStart => triple_bind (keeps_scan _) fun _ => ?_
  refine triple_bind (keeps_scan _) fun endName => triple_bind (keeps_scan _) fun _ => ?_
  refine triple_bind (keeps_scan _) fun _ => triple_ite (fun _ => triple_stop _) fun _ => ?_
  intro s within
  rw [run_read_bind]
  have fits := within.names
  cases named : s.elementNameStack with
  | nil => exact triple_stop _ s within
  | cons name outer =>
      rw [named] at fits
      have permitted : p.Permits (.endElement name) := fits name List.mem_cons_self
      exact triple_emit permitted trivial s within

theorem keeps_contentRound {element : ParserM Unit} (keeps : p.Keeps 0 0 element) (openName : Bytes)
    (current : Unit) : p.Keeps 0 0 (p.contentRound element openName current) := by
  have again : ∀ {source : ParserM Unit}, p.Keeps 0 0 source →
      p.Keeps 0 0 (source >>= fun _ => pure (.next ()) : ParserM (LoopStep Unit Unit)) :=
    fun keeps => triple_bind keeps fun _ => triple_pure fun _ within => within
  refine triple_read_bind fun _ => triple_ite (fun _ => triple_failHere _ _) fun _ => triple_read_bind fun _ => ?_
  refine triple_ite (fun _ => ?_) fun _ => triple_read_bind fun _ => ?_
  · exact triple_bind (keeps_parseEndTag openName) fun _ => triple_pure fun _ within => within
  refine triple_ite (fun _ => again keeps_parseComment) fun _ => triple_read_bind fun _ => ?_
  refine triple_ite (fun _ => again keeps_parseCdata) fun _ => triple_read_bind fun _ => ?_
  refine triple_ite (fun _ => again keeps_parseProcessingInstruction) fun _ => triple_read_bind fun _ => ?_
  exact triple_ite (fun _ => again keeps) fun _ => again keeps_parseText

theorem keeps_parseContent {element : ParserM Unit} (keeps : p.Keeps 0 0 element) (openName : Bytes) :
    p.Keeps 0 0 (p.parseContent element openName) :=
  keeps_loop (keeps_contentRound keeps openName) ()

/-! ## Elements -/

theorem triple_parseTagName (start : SourceLocation) :
    Triple (p.WithinLimits 0 0) (p.parseTagName start)
      (fun name s => (name ≠ [] ∧ p.FitsToken name) ∧ p.WithinLimits 1 0 s) p.StopsWithin := by
  refine triple_bind (keeps_scan _) fun _ => triple_read_bind fun _ => ?_
  refine triple_ite (fun _ => triple_stop _) fun _ => ?_
  refine triple_bind_fact (triple_scan fits_parseName) fun name short => triple_read_bind_of_eq fun depth => ?_
  refine triple_ite (fun _ => triple_throw fun _ here => here.1.stopsWithin _) fun fits => ?_
  refine triple_pure fun s here => ⟨short, ?_⟩
  obtain ⟨within, rfl⟩ := here
  exact ⟨within.trace, Nat.le_of_not_gt fits, within.names, within.expansions, within.declarations,
    within.recorded⟩

theorem keeps_of_still {α : Type} {source : ParserM α} (still : Obeys Eq Halt.IsThrown source) :
    p.Keeps room pending source :=
  still.triple (fun _ _ within same _ => same ▸ within) fun _ _ within same halt => same ▸ within.stopsWithin halt

theorem triple_openElement {name : Bytes} (proper : name ≠ []) (short : p.FitsToken name) (start : SourceLocation) :
    Triple (p.WithinLimits 1 0) (p.openElement name start)
      (fun elementName s => p.FitsToken elementName.qualifiedName ∧ p.WithinLimits 0 0 s) p.StopsWithin := by
  have reads : Triple (p.WithinLimits 1 0) p.parseAttributes
      (fun attributes s => p.FewShort attributes ∧ p.WithinLimits 1 0 s) p.StopsWithin := triple_parseAttributes
  refine triple_bind_fact reads fun attributes few => ?_
  have pushes : p.Keeps 1 0 (pushScope (p.collectNamespaceDeclarations attributes)) :=
    triple_modify fun s within => ⟨within.trace, within.depth, within.names, within.expansions,
      within.declarations, within.recorded⟩
  refine triple_bind pushes fun _ => triple_read_bind fun scopes => ?_
  refine triple_bind_fact (triple_returned (keeps_of_still (p.obeys_resolveName scopes name true start)))
    fun elementName resolved => ?_
  refine triple_bind_fact (triple_returned (keeps_of_still (p.obeys_attributeViews scopes attributes [])))
    fun views viewed => ?_
  obtain ⟨before, after, resolved⟩ := resolved
  have same := resolveName_qualifiedName resolved
  have named : p.FitsToken elementName.qualifiedName := by
    rw [same]
    exact short
  have resolves : p.NamesResolved (.startElement elementName views) := by
    subst same
    exact ⟨proper, ⟨scopes, start, before, after, resolved⟩, scopes, attributes, viewed⟩
  have pushed : Triple (p.WithinLimits 1 0) (pushElement name elementName) (fun _ => p.WithinLimits 0 0)
      p.StopsWithin := by
    refine triple_modify fun s within => ⟨within.trace, within.depth, ?_, within.expansions,
      within.declarations, within.recorded⟩
    intro other member
    cases List.mem_cons.mp member with
    | inl newest => exact newest ▸ named
    | inr earlier => exact within.names other earlier
  refine triple_bind pushed fun _ => ?_
  have permitted : p.Permits (.startElement elementName views) := by
    obtain ⟨s, t, viewed⟩ := viewed
    refine ⟨named, (attributeViews_length viewed).trans few.1, ?_⟩
    intro view member
    obtain ⟨raw, isRaw, sameName, sameValue⟩ := attributeViews_mem viewed view member
    rw [sameName, sameValue]
    exact few.2 raw isRaw
  exact triple_bind (triple_emit permitted resolves) fun _ => triple_pure fun _ within => ⟨named, within⟩

theorem keeps_recoverableValidityError (location : SourceLocation) (message : String) :
    p.Keeps room pending (p.recoverableValidityError location message) := by
  unfold recoverableValidityError
  split
  · exact triple_stop _
  · have records : p.Keeps room pending (Comp.modify fun s =>
        { s with reported := s.reported ++ [⟨.validity, location, message⟩] }) :=
      triple_modify fun s within => ⟨within.trace, within.depth, within.names, within.expansions,
        within.declarations, within.recorded⟩
    refine triple_bind records fun _ => triple_read_bind fun response => ?_
    cases response with
    | none => exact triple_pure fun _ within => within
    | some exception => exact triple_stop _

theorem keeps_validateElement (frame : ValidationFrame) (location : SourceLocation) :
    p.Keeps room pending (p.validateElement frame location) := by
  have reports := fun message => @keeps_recoverableValidityError p room pending location message
  have root : p.Keeps room pending (p.validateRoot frame location) :=
    triple_read_bind fun _ => triple_ite (fun _ => reports _) fun _ => triple_pure fun _ within => within
  refine triple_read_bind fun s => triple_ite (fun _ => triple_pure fun _ within => within) fun _ => ?_
  refine triple_bind root fun _ => triple_read_bind fun declared => ?_
  split
  · exact reports _
  split
  · exact triple_pure fun _ within => within
  · exact triple_ite (fun _ => reports _) fun _ => triple_pure fun _ within => within
  · exact triple_ite (fun _ => reports _) fun _ => triple_pure fun _ within => within
  · exact triple_ite (fun _ => reports _) fun _ => triple_pure fun _ within => within

theorem keeps_finishValidationFrame (location : SourceLocation) :
    p.Keeps room pending (p.finishValidationFrame location) := by
  have keeps : ∀ change : ParserState → List ValidationFrame,
      p.Keeps room pending (Comp.modify fun s => { s with validationStack := change s }) :=
    fun change => triple_modify fun s within => ⟨within.trace, within.depth, within.names,
      within.expansions, within.declarations, within.recorded⟩
  have top : ∀ stack : List ValidationFrame, p.Keeps room pending (topOf stack) := by
    intro stack
    cases stack with
    | nil => exact triple_stop _
    | cons frame outer => exact triple_pure fun _ within => within
  refine triple_read_bind fun stack => triple_bind (top stack) fun frame => ?_
  exact triple_bind (keeps _) fun _ => triple_bind (keeps_validateElement frame location) fun _ => keeps _

theorem keeps_popElement : p.Keeps 0 0 popElement := by
  refine triple_read_bind fun s => triple_ite (fun _ => triple_stop _) fun _ => ?_
  refine triple_modify fun s within => ⟨within.trace, ?_, ?_, within.expansions, within.declarations,
    within.recorded⟩
  · exact (Nat.add_le_add_right (List.tail_sublist s.elementStack).length_le 0).trans within.depth
  · exact fun name member => within.names name (List.mem_of_mem_tail member)

theorem keeps_parseElement (fuel : Nat) : p.Keeps 0 0 (p.parseElement fuel) := by
  induction fuel with
  | zero => exact triple_stop _
  | succ fuel ih =>
      refine triple_read_bind fun start => triple_bind_fact (triple_parseTagName start) fun name short => ?_
      refine triple_bind_fact (triple_openElement short.1 short.2 start) fun elementName named => ?_
      refine triple_bind ?_ fun _ => triple_bind (keeps_finishValidationFrame start) fun _ => keeps_popElement
      refine triple_read_bind fun _ => triple_ite (fun _ => ?_) fun _ => ?_
      · have permitted : p.Permits (.endElement elementName) := named
        exact triple_bind (keeps_scan _) fun _ => triple_emit permitted trivial
      · exact triple_bind (keeps_scan _) fun _ => keeps_parseContent ih name

theorem keeps_parse : p.Keeps 0 0 p.parse := by
  have starts : p.Permits .startDocument := trivial
  have ends : p.Permits .endDocument := trivial
  refine triple_bind (triple_emit starts trivial) fun _ => triple_bind (keeps_scan _) fun _ => ?_
  refine triple_bind keeps_skipMisc fun _ => triple_bind keeps_parseDoctypeIfPresent fun _ => ?_
  refine triple_bind keeps_skipMisc fun _ => triple_read_bind fun length => ?_
  refine triple_bind (keeps_parseElement _) fun _ => triple_bind keeps_skipMisc fun _ => ?_
  exact triple_read_bind fun _ => triple_ite (fun _ => triple_failHere _ _) fun _ => triple_emit ends trivial

end WithinLimits

end Parser

/-! ## Whole runs -/

theorem length_le_of_decoded {xml : Bytes} {options : ParserOptions} {document : DecodedDocument}
    (decoded : decodeDocument xml options = .ok document) : xml.length ≤ options.maxDocumentBytes := by
  unfold decodeDocument at decoded
  split at decoded
  · cases decoded
  split at decoded
  · cases decoded
  · rename_i fits
    exact Nat.le_of_not_gt fits

/-- The limits of the options on a run, at every call of the handler and at its
end. A run that meets a limit ends by the error of that limit. -/
structure HoldsLimits (p : Parser) (xml : Bytes) (outcome : Outcome) : Prop where
  document : xml.length ≤ p.options.maxDocumentBytes ∨
    outcome = (.error (.thrown (.xmlParse ⟨.resourceLimit, {}, "XML input exceeds max_document_bytes"⟩)),
      { rest := [] })
  calls : ∀ delivery ∈ outcome.2.trace, p.PermitsCall delivery
  depth : outcome.2.elementStack.length ≤ p.options.maxDepth
  expansions : outcome.2.entityExpansions ≤ p.options.maxEntityExpansions ∨
    outcome.2.entityExpansions = p.options.maxEntityExpansions + 1 ∧ ∃ location,
      outcome.1 = .error (.thrown (.xmlParse
        ⟨.resourceLimit, location, "entity expansion count exceeds max_entity_expansions"⟩))
  recorded : outcome.2.dtd.recorded ≤ p.options.maxDtdDeclarations

theorem within_start (p : Parser) (chars : List DecodedChar) : p.WithinLimits 0 0 { rest := chars } where
  trace := ⟨fun _ member => (nomatch member), fun _ nonempty isPrefix => absurd (List.prefix_nil.mp isPrefix) nonempty⟩
  depth := Nat.zero_le _
  names _ member := nomatch member
  expansions := Nat.zero_le _
  declarations := Nat.zero_le _
  recorded := Nat.le_refl _

theorem holdsLimits_of_decoded {xml : Bytes} {options : ParserOptions} {document : DecodedDocument}
    (decoded : decodeDocument xml options = .ok document) (handler : SaxHandler) :
    HoldsLimits ⟨handler, options, document.endLocation⟩ xml (parseXmlDocument xml handler options) := by
  have fits := length_le_of_decoded decoded
  have start := within_start (.mk handler options document.endLocation) document.chars
  obtain ⟨returns, throws⟩ := Parser.WithinLimits.keeps_parse _ start
  rw [parseXmlDocument_of_ok decoded]
  cases ran : (Parser.mk handler options document.endLocation).parse.run { rest := document.chars } with
  | mk outcome final =>
      cases outcome with
      | ok value =>
          have within := returns value final ran
          exact ⟨.inl fits, fun delivery member => (within.trace.1 delivery member).1, within.depth, .inl within.expansions,
            (Nat.le_add_right _ _).trans (within.recorded.trans within.declarations)⟩
      | error halt =>
          have left := throws halt final ran
          refine ⟨.inl fits, fun delivery member => (left.trace.1 delivery member).1, left.depth, ?_, left.recorded⟩
          cases left.expansions with
          | inl fits => exact .inl fits
          | inr beyond =>
              obtain ⟨count, location, rfl⟩ := beyond
              exact .inr ⟨count, location, rfl⟩

theorem resolves_of_decoded {xml : Bytes} {options : ParserOptions} {document : DecodedDocument}
    (decoded : decodeDocument xml options = .ok document) (handler : SaxHandler) :
    ∀ delivery ∈ (parseXmlDocument xml handler options).2.trace,
      (Parser.mk handler options document.endLocation).NamesResolved delivery.event := by
  have start := within_start (.mk handler options document.endLocation) document.chars
  obtain ⟨returns, throws⟩ := Parser.WithinLimits.keeps_parse _ start
  rw [parseXmlDocument_of_ok decoded]
  intro delivery member
  cases ran : (Parser.mk handler options document.endLocation).parse.run { rest := document.chars } with
  | mk outcome final =>
      rw [ran] at member
      cases outcome with
      | ok value => exact ((returns value final ran).trace.1 delivery member).2
      | error halt => exact ((throws halt final ran).trace.1 delivery member).2

/-- A call that throws is the last one, and the run ends by its exception. -/
theorem calls_interrupted (xml : Bytes) (handler : SaxHandler) (options : ParserOptions) :
    match parseXmlDocument xml handler options with
    | (.ok (), final) => handler.Returned final.events
    | (.error halt, final) => handler.Interrupted halt final.events := by
  unfold parseXmlDocument
  cases decodeDocument xml options with
  | error error => exact .inl fun _ nonempty isPrefix => absurd (List.prefix_nil.mp isPrefix) nonempty
  | ok document =>
      have start := within_start (.mk handler options document.endLocation) document.chars
      obtain ⟨returns, throws⟩ := Parser.WithinLimits.keeps_parse _ start
      dsimp only
      cases ran : (Parser.mk handler options document.endLocation).parse.run { rest := document.chars } with
      | mk outcome final =>
          cases outcome with
          | ok value => exact (returns value final ran).trace.2
          | error halt => exact (throws halt final ran).trace.2

end XmlParser
