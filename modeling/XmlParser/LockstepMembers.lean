import XmlParser.Lockstep
import XmlParser.Progress

/-! The members that count, call back and keep stacks, in lockstep, and whole runs. -/

set_option autoImplicit false

namespace XmlParser

open XmlParser.Computation Comp
open XmlParser.Parser (counting modifyDtd pushScope pushElement popElement parseElementModel declareElement)

namespace Setting

variable {setting : Setting}

theorem Paired.events {s t : ParserState} (paired : setting.Paired s t) :
    List.Forall₂ setting.SameEvent s.events t.events := by
  unfold ParserState.events
  rw [List.forall₂_map_left_iff, List.forall₂_map_right_iff]
  exact paired.trace.imp fun _ _ same => same.event

theorem forall₂_snoc {α : Type} {same : α → α → Prop} {left right : List α} {first second : α}
    (sames : List.Forall₂ same left right) (last : same first second) :
    List.Forall₂ same (left ++ [first]) (right ++ [second]) :=
  List.rel_append sames (.cons last .nil)

theorem Paired.deliver {s t : ParserState} (paired : setting.Paired s t) {first second : Event}
    (same : setting.SameEvent first second) :
    setting.Paired (s.deliver first) (t.deliver second) := by
  refine ⟨paired.rest, paired.entityExpansions, paired.elementStack, paired.elementNameStack,
    paired.namespaceScopes, paired.dtd, paired.validationStack, ?_, paired.reported⟩
  apply forall₂_snoc paired.trace
  exact ⟨same, congrArg List.length paired.elementStack, congrArg List.length paired.elementNameStack,
    congrArg List.length paired.namespaceScopes, congrArg List.length paired.validationStack,
    paired.entityExpansions, congrArg DtdState.declarationCount paired.dtd⟩

abbrev CouplesState (setting : Setting) {α : Type} (source target : ParserM α) : Prop :=
  Couples (compareStates setting) (· = ·) source target

abbrev CouplesCount (setting : Setting) {α : Type} (source target : Comp Nat Halt α) : Prop :=
  Couples (compareCount setting) (· = ·) source target

theorem couples_scan {α : Type} {same : α → α → Prop} {source target : Cursor α}
    (couples : Couples (compareText setting) same source target) :
    Couples (compareStates setting) same (scan source) (scan target) := by
  refine couples_onPart couples (fun _ _ paired => paired.rest) ?_
    (fun part s => ⟨List.prefix_rfl, List.prefix_rfl, id⟩) (fun _ _ => id) (fun _ _ _ => False.elim) ?_
    fun _ _ => False.elim
  · intro s t left right paired same
    exact ⟨same, paired.entityExpansions, paired.elementStack, paired.elementNameStack,
      paired.namespaceScopes, paired.dtd, paired.validationStack, paired.trace, paired.reported⟩
  · intro halt s t left right paired stops
    exact ⟨stops _, paired.precedes.trace, paired.precedes.reported⟩

theorem couples_counting {α : Type} {source target : Comp Nat Halt α}
    (couples : CouplesCount setting source target) :
    CouplesState setting (counting source) (counting target) := by
  refine couples_onPart couples (fun _ _ paired => paired.entityExpansions) ?_
    (fun part s => ⟨List.prefix_rfl, List.prefix_rfl, id⟩) (fun _ _ => id) (fun _ _ _ => False.elim) ?_
    fun _ _ => False.elim
  · intro s t left right paired same
    exact ⟨paired.rest, same, paired.elementStack, paired.elementNameStack, paired.namespaceScopes,
      paired.dtd, paired.validationStack, paired.trace, paired.reported⟩
  · intro halt s t left right paired stops
    exact ⟨stops _, paired.precedes.trace, paired.precedes.reported⟩

theorem couples_look {α β : Type} {same : β → β → Prop} {view : List DecodedChar → α}
    {left right : α → ParserM β} (textual : Textual view)
    (rest : ∀ value, Couples (compareStates setting) same (left value) (right value)) :
    Couples (compareStates setting) same (look view >>= left) (look view >>= right) :=
  couples_read_bind_eq (fun _ _ paired => textual _ _ (SameText.values paired.rest)) rest

theorem couples_modifyDtd {update : DtdState → DtdState}
    (external : ∀ dtd, dtd.hasExternalSubset = true → (update dtd).hasExternalSubset = true) :
    CouplesState setting (modifyDtd update) (modifyDtd update) := by
  apply couples_modify
  · intro s
    exact ⟨List.prefix_rfl, List.prefix_rfl, external s.dtd⟩
  · intro s t paired
    exact ⟨paired.rest, paired.entityExpansions, paired.elementStack, paired.elementNameStack,
      paired.namespaceScopes, congrArg update paired.dtd, paired.validationStack, paired.trace,
      paired.reported⟩

theorem couples_loopState {β γ : Type} {carried : β → β → Prop} [Covers (compareStates setting) carried]
    {result : γ → γ → Prop} [Covers (compareStates setting) result]
    {body other : β → ParserM (LoopStep β γ)}
    (round : ∀ left right, carried left right →
      Couples (compareStates setting) (LoopStep.Same carried result) (body left) (other right))
    {start : β} (starts : carried start start) :
    Couples (compareStates setting) result
      (loop (fun _ s => s.rest.length) .outOfFuel body start)
      (loop (fun _ s => s.rest.length) .outOfFuel other start) := by
  refine couples_loop ?_ sameHalt_outOfFuel round starts
  intro left right s t _ paired
  exact textual_length _ _ (SameText.values paired.rest)

theorem couples_loopState_eq {β γ : Type} {result : γ → γ → Prop}
    [Covers (compareStates setting) result]
    {body other : β → ParserM (LoopStep β γ)}
    (round : ∀ current,
      Couples (compareStates setting) (LoopStep.Same (· = ·) result) (body current) (other current))
    (start : β) :
    Couples (compareStates setting) result
      (loop (fun _ s => s.rest.length) .outOfFuel body start)
      (loop (fun _ s => s.rest.length) .outOfFuel other start) := by
  refine couples_loop_eq ?_ sameHalt_outOfFuel round start
  intro current s t paired
  exact textual_length _ _ (SameText.values paired.rest)

theorem couples_topOf {α : Type} (stack : List α) :
    CouplesState setting (topOf stack) (topOf stack) := by
  cases stack with
  | nil => exact couples_throw sameHalt_undefinedBehavior
  | cons top rest => exact couples_pure rfl

namespace Alike

variable {p q : Parser} (alike : setting.Alike p q)

include alike

theorem lookLocation {β : Type} {same : β → β → Prop} {left right : SourceLocation → ParserM β}
    (rest : ∀ here there, setting.same here there →
      Couples (compareStates setting) same (left here) (right there)) :
    Couples (compareStates setting) same (look p.location >>= left) (look q.location >>= right) :=
  couples_read_bind (fun _ _ paired => alike.location paired.rest) rest

theorem failHere {α : Type} {same : α → α → Prop} (kind : ErrorKind) (message : String) :
    Couples (compareStates setting) same (p.failHere kind message) (q.failHere kind message) :=
  alike.lookLocation fun _ _ locations => couples_failAt kind message locations

theorem limitHere {α : Type} {same : α → α → Prop} {size tight loose : Nat} {message : String}
    {source target : ParserM α} (limits : setting.Limits tight loose)
    (passes : Couples (compareStates setting) same source target) :
    Couples (compareStates setting) same
      (if size > loose then p.failHere .resourceLimit message else source)
      (if size > tight then q.failHere .resourceLimit message else target) :=
  couples_limit_of limits (alike.failHere _ _) (fun t => ⟨q.location t.rest, rfl⟩) passes.grows
    fun _ => passes

theorem emit {first second : Event} (events : setting.SameEvent first second) :
    CouplesState setting (p.emit first) (q.emit second) := by
  constructor
  · refine fun _ => obeys_bind (obeys_modify fun s => ?_) fun _ => obeys_bind (obeys_read _) fun response => ?_
    · exact ⟨List.prefix_append _ _, List.prefix_rfl, id⟩
    · cases response with
      | none => exact obeys_pure _
      | some exception => exact obeys_throw trivial
  · intro s t paired
    have delivered := paired.deliver events
    unfold Parser.emit
    rw [run_modify_bind, run_modify_bind, run_read_bind, run_read_bind]
    cases alike.handler _ _ delivered.events with
    | inl same =>
        rw [← same]
        cases response : p.handler.respond (s.deliver first).events with
        | none => exact .returned rfl delivered
        | some exception =>
            have called : (s.deliver first).events ≠ [] := by simp [ParserState.events, ParserState.deliver]
            exact .passed ⟨exception, rfl, alike.passes exception _ (.handler called response)⟩ delivered
    | inr early =>
        obtain ⟨returned, exception, threw, stops⟩ := early
        rw [returned, threw]
        exact .stopped ⟨stops, delivered.precedes⟩

theorem emit_eq {event : Event} (notOpening : event.isOpening = false) :
    CouplesState setting (p.emit event) (q.emit event) :=
  alike.emit (.plain event notOpening)

theorem parseComment : CouplesState setting p.parseComment q.parseComment :=
  couples_bind_eq (couples_scan alike.scanComment) fun _ => alike.emit_eq rfl

theorem parseProcessingInstruction :
    CouplesState setting p.parseProcessingInstruction q.parseProcessingInstruction :=
  couples_bind_eq (couples_scan alike.scanProcessingInstruction) fun _ => alike.emit_eq rfl

theorem parseCdata : CouplesState setting p.parseCdata q.parseCdata :=
  couples_bind_eq (couples_scan alike.scanCdata) fun _ => alike.emit_eq rfl

theorem skipMisc : CouplesState setting p.skipMisc q.skipMisc := by
  refine couples_loopState_eq (fun current => ?_) ()
  refine couples_look textual_length fun before => ?_
  refine couples_bind_eq (couples_scan alike.skipWhitespace) fun _ => ?_
  refine couples_look (fun left right same => ?_) fun consumed => ?_
  · exact congrArg (fun length => decide (length < before)) (textual_length left right same)
  refine couples_look (textual_startsWith _) fun _ => couples_ite (fun _ => ?_) fun _ => ?_
  · exact couples_bind_eq alike.parseComment fun _ => couples_pure (.next rfl)
  refine couples_look (textual_startsWith _) fun _ => couples_ite (fun _ => ?_) fun _ => ?_
  · exact couples_bind_eq alike.parseProcessingInstruction fun _ => couples_pure (.next rfl)
  · exact couples_ite (fun _ => couples_pure (.next rfl)) fun _ => couples_pure (.done rfl)

/-! ## References -/

theorem parseCharacterReference {σ : Type} {comparison : Comparison σ Halt}
    [Measures setting comparison] (text : Bytes) {here there : SourceLocation}
    (locations : setting.same here there) :
    Couples comparison (· = ·) (p.parseCharacterReference text here)
      (q.parseCharacterReference text there) := by
  unfold Parser.parseCharacterReference
  refine couples_ite (fun _ => couples_failAt _ _ locations) fun _ => ?_
  split
  · exact couples_failAt _ _ locations
  · rw [alike.version]
    exact couples_ite (fun _ => couples_failAt _ _ locations) fun _ => couples_pure rfl

theorem countExpansion {here there : SourceLocation} (locations : setting.same here there) :
    CouplesCount setting (p.countExpansion here) (q.countExpansion there) := by
  have counts : CouplesCount setting (Comp.modify (· + 1)) (Comp.modify (· + 1)) :=
    couples_modify (fun _ => trivial) fun _ _ same => congrArg (· + 1) same
  refine couples_bind_eq counts fun _ => couples_read_bind_eq (fun _ _ same => same) fun count => ?_
  exact couples_limit alike.maxEntityExpansions locations (couples_pure rfl)

theorem expandReference (entities : List (Bytes × Bytes)) {here there : SourceLocation}
    (locations : setting.same here there) {first second : Bytes → Comp Nat Halt Bytes}
    (nested : ∀ text, CouplesCount setting (first text) (second text)) (name : Bytes) :
    CouplesCount setting (p.expandReference entities here first name)
      (q.expandReference entities there second name) := by
  unfold Parser.expandReference
  split
  · exact couples_pure rfl
  · refine couples_ite (fun _ => alike.parseCharacterReference _ locations) fun _ => ?_
    split
    · exact couples_failAt _ _ locations
    · exact nested _

theorem expandRound (entities : List (Bytes × Bytes)) {here there : SourceLocation}
    (locations : setting.same here there) {first second : Bytes → Comp Nat Halt Bytes}
    (nested : ∀ text, CouplesCount setting (first text) (second text)) (current : Bytes × Bytes) :
    Couples (compareCount setting) (LoopStep.Same (· = ·) (· = ·))
      (p.expandRound entities here first current) (q.expandRound entities there second current) := by
  obtain ⟨text, expanded⟩ := current
  cases text with
  | nil => exact couples_pure (.done rfl)
  | cons ch rest =>
      refine couples_ite (fun _ => couples_pure (.next rfl)) fun _ => ?_
      refine couples_ite (fun _ => couples_failAt _ _ locations) fun _ => ?_
      refine couples_bind_eq (alike.countExpansion locations) fun _ => ?_
      refine couples_bind_eq (alike.expandReference entities locations nested _) fun value => ?_
      exact couples_limit alike.maxEntityReplacementBytes locations (couples_pure (.next rfl))

/-- The bound of the second parser on the nesting is met before its fuel runs out. -/
theorem expandEntityText (entities : List (Bytes × Bytes)) {here there : SourceLocation}
    (locations : setting.same here there) (fuel more depth : Nat) (text : Bytes)
    (enough : q.options.maxEntityExpansions + 1 ≤ depth + fuel) :
    CouplesCount setting (p.expandEntityText entities here (fuel + more + 1) depth text)
      (q.expandEntityText entities there (fuel + 1) depth text) := by
  have grows : ∀ {α : Type} (source : Comp Nat Halt α),
      (compareCount setting).lax → Obeys (compareCount setting).Grows (fun _ => True) source :=
    fun _ _ _ => ⟨trivial, fun _ _ => trivial⟩
  induction fuel generalizing depth text with
  | zero =>
      unfold Parser.expandEntityText
      refine couples_limit_of alike.maxEntityExpansions (couples_failAt _ _ locations)
        (fun _ => ⟨there, rfl⟩) (grows _) fun fits => ?_
      omega
  | succ fuel ih =>
      unfold Parser.expandEntityText
      refine couples_limit alike.maxEntityExpansions locations ?_
      refine couples_loop_eq (fun _ _ _ _ => rfl) sameHalt_outOfFuel (fun current => ?_) _
      rw [Nat.add_right_comm fuel 1 more]
      exact alike.expandRound entities locations (fun text => ih (depth + 1) text (by omega)) current

theorem resolveReference (entities : List (Bytes × Bytes)) (name : Bytes) {here there : SourceLocation}
    (locations : setting.same here there) :
    CouplesCount setting (p.resolveReference entities name here)
      (q.resolveReference entities name there) := by
  unfold Parser.resolveReference
  split
  · exact couples_pure rfl
  refine couples_ite (fun _ => alike.parseCharacterReference _ locations) fun _ => ?_
  split
  · rename_i replacement _
    have bounded : q.options.maxEntityExpansions ≤ p.options.maxEntityExpansions := by
      cases alike.maxEntityExpansions with
      | inl equal => exact Nat.le_of_eq equal
      | inr tighter => exact tighter.1
    have expands := alike.expandEntityText entities locations (q.options.maxEntityExpansions + 1)
      (p.options.maxEntityExpansions - q.options.maxEntityExpansions) 0 replacement (by omega)
    have fuel : q.options.maxEntityExpansions + 1 +
        (p.options.maxEntityExpansions - q.options.maxEntityExpansions) + 1 =
          p.options.maxEntityExpansions + 2 := by omega
    rw [fuel] at expands
    exact expands
  · cases alike.reports with
    | inl same =>
        rw [same.2.1]
        exact couples_ite (fun _ => couples_failAt _ _ locations) fun _ => couples_failAt _ _ locations
    | inr silent =>
        obtain ⟨hidden, validates, ignores, _⟩ := silent
        rw [if_pos validates, if_neg (by rw [ignores]; exact nofun)]
        exact couples_throw (.excused hidden locations)

theorem parseReference : CouplesState setting p.parseReference q.parseReference := by
  refine alike.lookLocation fun here there locations => ?_
  refine couples_bind_eq (couples_scan (alike.expect _ _)) fun _ => ?_
  refine couples_bind_eq (couples_counting (alike.countExpansion locations)) fun _ => ?_
  refine couples_bind_eq (couples_scan ?_) fun name => ?_
  · exact couples_whileText (textual_whilePeek (· != 0x3B)) (alike.pushPeek locations) []
  refine couples_bind_eq (couples_scan (alike.expect _ _)) fun _ => ?_
  refine couples_read_bind_eq (fun _ _ paired => congrArg DtdState.entities paired.dtd) fun entities => ?_
  exact couples_counting (alike.resolveReference entities _ locations)

theorem takePiece (text : Bytes) : CouplesState setting (p.takePiece text) (q.takePiece text) := by
  refine couples_look textual_peek fun next => couples_ite (fun _ => ?_) fun _ => ?_
  · exact couples_bind_eq alike.parseReference fun _ => couples_pure rfl
  · exact couples_scan (alike.takePeek text)

/-! ## The document type declaration -/

theorem enforceDtdDeclarationLimit :
    CouplesState setting p.enforceDtdDeclarationLimit q.enforceDtdDeclarationLimit := by
  refine couples_bind_eq (couples_modifyDtd fun _ => id) fun _ => ?_
  refine couples_read_bind_eq (fun _ _ paired => congrArg DtdState.declarationCount paired.dtd) fun count => ?_
  exact alike.limitHere alike.maxDtdDeclarations (couples_pure rfl)

omit alike in
theorem parseElementModel {σ : Type} {comparison : Comparison σ Halt} [Measures setting comparison]
    (model : Bytes) {here there : SourceLocation} (locations : setting.same here there) :
    Couples comparison (· = ·) (parseElementModel model here) (parseElementModel model there) := by
  unfold Parser.parseElementModel
  refine couples_ite (fun _ => couples_pure rfl) fun _ => couples_ite (fun _ => couples_pure rfl) fun _ => ?_
  refine couples_ite (fun _ => couples_pure rfl) fun _ => ?_
  exact couples_ite (fun _ => couples_pure rfl) fun _ => couples_failAt _ _ locations

omit alike in
theorem declareElement (name model : Bytes) {here there : SourceLocation}
    (locations : setting.same here there) :
    CouplesState setting (declareElement name model here) (declareElement name model there) := by
  unfold Parser.declareElement
  refine couples_read_bind_eq (fun _ _ paired => ?_) fun known => ?_
  · rw [paired.dtd]
  refine couples_ite (fun _ => couples_failAt _ _ locations) fun _ => ?_
  exact couples_bind_eq (parseElementModel model locations) fun _ => couples_modifyDtd fun _ => id

theorem parseElementDeclaration :
    CouplesState setting p.parseElementDeclaration q.parseElementDeclaration := by
  refine alike.lookLocation fun here there locations => ?_
  refine couples_bind_eq alike.enforceDtdDeclarationLimit fun _ => ?_
  refine couples_bind_eq (couples_scan (alike.expectSequence _ _)) fun _ => ?_
  refine couples_look textual_peek fun next => couples_ite (fun _ => alike.failHere _ _) fun _ => ?_
  refine couples_bind_eq (couples_scan alike.skipWhitespace) fun _ => ?_
  refine couples_bind_eq (couples_scan alike.parseName) fun name => ?_
  refine couples_bind_eq (couples_scan alike.skipWhitespace) fun _ => ?_
  refine couples_bind_eq (couples_scan ?_) fun model => ?_
  · exact couples_whileText (textual_whilePeek (· != 0x3E)) alike.takePeek []
  refine couples_bind_eq (couples_scan (alike.expect _ _)) fun _ => ?_
  exact declareElement name model locations

theorem enterEntity (name replacement : Bytes) {here there : SourceLocation}
    (locations : setting.same here there) :
    CouplesState setting (p.enterEntity name replacement here) (q.enterEntity name replacement there) := by
  refine couples_limit alike.maxEntityReplacementBytes locations ?_
  refine couples_bind_eq (couples_scan alike.skipWhitespace) fun _ => ?_
  refine couples_bind_eq (couples_scan (alike.expect _ _)) fun _ => ?_
  refine couples_read_bind_eq (fun _ _ paired => ?_) fun known => ?_
  · rw [paired.dtd]
  exact couples_ite (fun _ => couples_failAt _ _ locations) fun _ => couples_modifyDtd fun _ => id

theorem parseEntityDeclaration :
    CouplesState setting p.parseEntityDeclaration q.parseEntityDeclaration := by
  refine alike.lookLocation fun here there locations => ?_
  refine couples_bind_eq alike.enforceDtdDeclarationLimit fun _ => ?_
  refine couples_bind_eq (couples_scan (alike.expectSequence _ _)) fun _ => ?_
  refine couples_look textual_peek fun next => couples_ite (fun _ => alike.failHere _ _) fun _ => ?_
  refine couples_bind_eq (couples_scan alike.skipWhitespace) fun _ => ?_
  refine couples_look textual_peek fun sign => couples_ite (fun _ => alike.failHere _ _) fun _ => ?_
  refine couples_bind_eq (couples_scan alike.parseName) fun name => ?_
  refine couples_bind_eq (couples_scan alike.skipWhitespace) fun _ => ?_
  refine couples_bind_eq (couples_scan alike.parseQuotedLiteral) fun replacement => ?_
  exact alike.enterEntity name replacement locations

theorem parseInternalSubset : CouplesState setting p.parseInternalSubset q.parseInternalSubset := by
  refine couples_loopState_eq (fun current => ?_) ()
  refine couples_look textual_eof fun _ => couples_ite (fun _ => alike.failHere _ _) fun _ => ?_
  refine couples_bind_eq (couples_scan alike.skipWhitespace) fun _ => ?_
  refine couples_look textual_peek fun _ => couples_ite (fun _ => couples_pure (.done rfl)) fun _ => ?_
  refine couples_look (textual_startsWith _) fun _ => couples_ite (fun _ => ?_) fun _ => ?_
  · exact couples_bind_eq (couples_scan alike.scanComment) fun _ => couples_pure (.next rfl)
  refine couples_look (textual_startsWith _) fun _ => couples_ite (fun _ => ?_) fun _ => ?_
  · exact couples_bind_eq alike.parseElementDeclaration fun _ => couples_pure (.next rfl)
  refine couples_look (textual_startsWith _) fun _ => couples_ite (fun _ => ?_) fun _ => ?_
  · exact couples_bind_eq alike.parseEntityDeclaration fun _ => couples_pure (.next rfl)
  · exact alike.failHere _ _

theorem parseExternalElementDeclaration (declaration : Bytes) :
    CouplesState setting (p.parseExternalElementDeclaration declaration)
      (q.parseExternalElementDeclaration declaration) := by
  refine couples_bind_eq alike.enforceDtdDeclarationLimit fun _ => ?_
  refine couples_ite (fun _ => alike.failHere _ _) fun _ => ?_
  exact alike.lookLocation fun here there locations => declareElement _ _ locations

theorem externalSubsetRound (subset : Bytes) :
    Couples (compareStates setting) (LoopStep.Same (· = ·) (· = ·)) (p.externalSubsetRound subset)
      (q.externalSubsetRound subset) := by
  refine couples_ite (fun _ => couples_pure (.done rfl)) fun _ => couples_ite (fun _ => ?_) fun _ => ?_
  · refine couples_ite (fun _ => alike.failHere _ _) fun _ => ?_
    exact couples_bind_eq (alike.parseExternalElementDeclaration _) fun _ => couples_pure (.next rfl)
  · exact alike.failHere _ _

theorem parseExternalSubsetText (subset : Bytes) :
    CouplesState setting (p.parseExternalSubsetText subset) (q.parseExternalSubsetText subset) :=
  couples_loop_eq (fun _ _ _ _ => rfl) sameHalt_outOfFuel alike.externalSubsetRound subset

theorem resolveExternalSubset_of_validation (validation : q.options.validation = p.options.validation) :
    CouplesState setting p.resolveExternalSubsetIfNeeded q.resolveExternalSubsetIfNeeded := by
  unfold Parser.resolveExternalSubsetIfNeeded
  rw [validation, alike.allowExternalDtd, alike.externalDtdResolver]
  refine couples_read_bind_from (fun _ _ paired => paired.dtd) fun dtd => ?_
  refine couplesFrom_ite (fun _ => (couples_pure rfl).always) fun asks => ?_
  simp only [Bool.or_eq_true, not_or, Bool.not_eq_true', Bool.not_eq_false, bne_iff_ne, ne_eq, not_not] at asks
  obtain ⟨external, validates⟩ := asks
  split
  · rename_i resolve allowed configured
    split
    · rename_i exception threw
      refine couplesFrom_pass fun s isDtd => ⟨exception, rfl, alike.passes exception s ?_⟩
      subst isDtd
      exact .resolver configured validates allowed external threw
    · exact (alike.limitHere alike.maxExternalSubsetBytes (alike.parseExternalSubsetText _)).always
  · exact (alike.failHere _ _).always

end Alike

theorem eq_of_forall₂ {α : Type} {same : α → α → Prop} {left right : List α}
    (equal : ∀ first second, same first second → first = second)
    (sames : List.Forall₂ same left right) : left = right := by
  induction sames with
  | nil => rfl
  | cons first _ ih => rw [equal _ _ first, ih]

section Exact

/-- Locations that count as the same are equal. -/
def Exact (setting : Setting) : Prop := ∀ left right, setting.same left right → left = right

variable (exact : setting.Exact)

include exact

theorem Exact.view {left right : AttributeView} (same : setting.SameView left right) : left = right := by
  cases left
  cases right
  obtain ⟨rfl, rfl, location⟩ := same
  exact congrArg _ (exact _ _ location)

theorem Exact.error {left right : XmlParseException} (same : setting.SameError left right) :
    left = right := by
  cases left
  cases right
  obtain ⟨rfl, rfl, location⟩ := same
  exact congrArg (XmlParseException.mk _ · _) (exact _ _ location)

theorem Exact.event {left right : Event} (same : setting.SameEvent left right) : left = right := by
  cases same with
  | startElement name views => rw [eq_of_forall₂ (fun _ _ => exact.view) views]
  | plain event _ => rfl

theorem Exact.delivery {left right : Delivery} (same : setting.SameDelivery left right) :
    left = right := by
  cases left
  cases right
  obtain ⟨event, rfl, rfl, rfl, rfl, rfl, rfl⟩ := same
  exact congrArg (Delivery.mk · _ _ _ _ _ _) (exact.event event)

theorem Exact.events {left right : List Event} (same : List.Forall₂ setting.SameEvent left right) :
    left = right :=
  eq_of_forall₂ (fun _ _ => exact.event) same

end Exact

/-- Locations are told apart, and a run may stop at any time. -/
def alone : Setting where
  same := Eq
  stops _ _ := True
  validates := True
  passes _ _ := True
  refl _ _ := rfl

theorem exact_alone : alone.Exact := fun _ _ => id

/-- A parser is configured as itself. -/
theorem alike_refl (p : Parser) : alone.Alike p p where
  version := rfl
  namespaces := rfl
  allowExternalDtd := rfl
  externalDtdResolver := rfl
  passes _ _ _ := trivial
  maxDepth := .inl rfl
  maxTokenBytes := .inl rfl
  maxAttributesPerElement := .inl rfl
  maxEntityExpansions := .inl rfl
  maxDtdDeclarations := .inl rfl
  maxEntityReplacementBytes := .inl rfl
  maxExternalSubsetBytes := .inl rfl
  endLocation := rfl
  handler left right same := by
    rw [exact_alone.events same]
    exact .inl rfl
  reports := by
    refine .inl ⟨trivial, rfl, ?_⟩
    cases handler : p.options.recoverableErrorHandler with
    | none => exact .inl ⟨rfl, rfl⟩
    | some handle =>
        refine .inr ⟨handle, handle, rfl, rfl, fun left right same => ?_⟩
        rw [eq_of_forall₂ (fun _ _ => exact_alone.error) same]

namespace Alike

variable {p q : Parser} (alike : setting.Alike p q)

include alike

theorem resolveExternalSubsetIfNeeded :
    CouplesState setting p.resolveExternalSubsetIfNeeded q.resolveExternalSubsetIfNeeded := by
  cases alike.reports with
  | inl same => exact alike.resolveExternalSubset_of_validation same.2.1
  | inr silent =>
      obtain ⟨hidden, validates, ignores, _⟩ := silent
      have skips : ∀ t, q.resolveExternalSubsetIfNeeded.run t = (.ok (), t) := by
        intro t
        unfold Parser.resolveExternalSubsetIfNeeded
        have ignored : (!t.dtd.hasExternalSubset || q.options.validation != .dtd) = true := by
          rw [ignores]
          exact Bool.or_eq_true_iff.mpr (.inr rfl)
        rw [run_read_bind, if_pos ignored]
        rfl
      have grows : Obeys Calls (fun _ => True) p.resolveExternalSubsetIfNeeded :=
        ((alike_refl p).resolveExternalSubset_of_validation rfl).grows (.inr ⟨.outOfFuel, [], trivial⟩)
      refine ⟨fun _ => grows, fun s t paired => ?_⟩
      cases external : s.dtd.hasExternalSubset with
      | true => exact .parted ⟨hidden, (grows s).1.external external⟩
      | false =>
          have alsoSkips : p.resolveExternalSubsetIfNeeded.run s = (.ok (), s) := by
            unfold Parser.resolveExternalSubsetIfNeeded
            rw [run_read_bind, external]
            rfl
          rw [skips, alsoSkips]
          exact .returned rfl paired

theorem parseExternalId : CouplesState setting p.parseExternalId q.parseExternalId := by
  have skip := couples_scan alike.skipWhitespace
  have read := couples_scan alike.parseQuotedLiteral
  have moves : ∀ count, CouplesState setting (scan (Comp.modify (List.drop count)))
      (scan (Comp.modify (List.drop count))) := fun count =>
    couples_scan (couples_modify (fun _ => trivial) fun _ _ related => SameText.drop related count)
  refine couples_look (textual_startsWith _) fun _ => couples_ite (fun _ => ?_) fun _ => ?_
  · refine couples_bind_eq (moves 6) fun _ => couples_bind_eq skip fun _ => ?_
    refine couples_bind_eq read fun systemId => ?_
    exact couples_bind_eq (couples_modifyDtd fun _ _ => rfl) fun _ => skip
  refine couples_look (textual_startsWith _) fun _ => couples_ite (fun _ => ?_) fun _ => couples_pure rfl
  refine couples_bind_eq (moves 6) fun _ => couples_bind_eq skip fun _ => ?_
  refine couples_bind_eq read fun _ => couples_bind_eq skip fun _ => ?_
  refine couples_bind_eq read fun systemId => ?_
  exact couples_bind_eq (couples_modifyDtd fun _ _ => rfl) fun _ => skip

theorem parseBracketedSubset : CouplesState setting p.parseBracketedSubset q.parseBracketedSubset := by
  refine couples_look textual_peek fun _ => couples_ite (fun _ => ?_) fun _ => couples_pure rfl
  refine couples_bind_eq (couples_scan alike.advance) fun _ => ?_
  refine couples_bind_eq alike.parseInternalSubset fun _ => ?_
  refine couples_bind_eq (couples_scan (alike.expect _ _)) fun _ => ?_
  exact couples_scan alike.skipWhitespace

theorem parseDoctypeIfPresent : CouplesState setting p.parseDoctypeIfPresent q.parseDoctypeIfPresent := by
  refine couples_look (textual_startsWith _) fun _ => couples_ite (fun _ => couples_pure rfl) fun _ => ?_
  refine couples_bind_eq (couples_modifyDtd fun _ => id) fun _ => ?_
  refine couples_bind_eq (couples_scan (alike.expectSequence _ _)) fun _ => ?_
  refine couples_look textual_peek fun next => couples_ite (fun _ => alike.failHere _ _) fun _ => ?_
  refine couples_bind_eq (couples_scan alike.skipWhitespace) fun _ => ?_
  refine couples_bind_eq (couples_scan alike.parseName) fun rootName => ?_
  refine couples_bind_eq (couples_modifyDtd fun _ => id) fun _ => ?_
  refine couples_bind_eq (couples_scan alike.skipWhitespace) fun _ => ?_
  refine couples_bind_eq alike.parseExternalId fun _ => ?_
  refine couples_bind_eq alike.parseBracketedSubset fun _ => ?_
  refine couples_bind_eq (couples_scan (alike.expect _ _)) fun _ => ?_
  exact alike.resolveExternalSubsetIfNeeded

/-! ## Attributes and namespaces -/

theorem parseAttributeValue : CouplesState setting p.parseAttributeValue q.parseAttributeValue := by
  refine alike.lookLocation fun here there locations => couples_look textual_peek fun quote => ?_
  refine couples_ite (fun _ => alike.failHere _ _) fun _ => ?_
  refine couples_bind_eq (couples_scan alike.advance) fun _ => ?_
  refine couples_loopState_eq (fun value => ?_) []
  refine couples_look textual_eof fun _ => couples_look textual_peek fun _ => ?_
  refine couples_ite (fun _ => ?_) fun _ => ?_
  · exact couples_bind_eq (couples_scan (alike.expect _ _)) fun _ => couples_pure (.done rfl)
  refine couples_look textual_peek fun _ => couples_ite (fun _ => alike.failHere _ _) fun _ => ?_
  refine couples_bind_eq (alike.takePiece value) fun value => ?_
  exact couples_bind_eq (alike.enforceTokenSize _ locations) fun _ => couples_pure (.next rfl)

end Alike

/-- The attributes of a tag, up to their locations. -/
abbrev SameAttributes (setting : Setting) : List RawAttribute → List RawAttribute → Prop :=
  List.Forall₂ setting.SameRaw

theorem SameAttributes.any_name {left right : List RawAttribute}
    (same : setting.SameAttributes left right) (name : Bytes) :
    left.any (fun existing => existing.name == name) = right.any fun existing => existing.name == name := by
  induction same with
  | nil => rfl
  | cons first _ ih => rw [List.any_cons, List.any_cons, first.name, ih]

theorem SameAttributes.collects {left right : List RawAttribute}
    (same : setting.SameAttributes left right) (declarations : NamespaceScope) :
    Parser.collectDeclarations left declarations = Parser.collectDeclarations right declarations := by
  induction same generalizing declarations with
  | nil => rfl
  | cons first _ ih =>
      unfold Parser.collectDeclarations
      rw [first.name, first.value, ih, ih, ih]

namespace Alike

variable {p q : Parser} (alike : setting.Alike p q)

include alike

theorem attributesRound {left right : List RawAttribute} (same : setting.SameAttributes left right) :
    Couples (compareStates setting) (LoopStep.Same setting.SameAttributes setting.SameAttributes)
      (p.attributesRound left) (q.attributesRound right) := by
  refine couples_bind_eq (couples_scan alike.skipWhitespace) fun _ => ?_
  refine couples_look textual_peek fun _ => couples_look (textual_startsWith _) fun _ => ?_
  refine couples_ite (fun _ => couples_pure (.done same)) fun _ => ?_
  refine alike.lookLocation fun here there locations => ?_
  refine couples_bind_eq (couples_scan alike.parseName) fun name => ?_
  rw [SameAttributes.any_name same, same.length_eq]
  refine couples_ite (fun _ => alike.failHere _ _) fun _ => ?_
  refine alike.limitHere alike.maxAttributesPerElement ?_
  refine couples_bind_eq (couples_scan alike.skipWhitespace) fun _ => ?_
  refine couples_bind_eq (couples_scan (alike.expect _ _)) fun _ => ?_
  refine couples_bind_eq (couples_scan alike.skipWhitespace) fun _ => ?_
  refine couples_bind_eq alike.parseAttributeValue fun value => couples_pure (.next ?_)
  exact forall₂_snoc same ⟨rfl, rfl, locations⟩

theorem parseAttributes :
    Couples (compareStates setting) setting.SameAttributes p.parseAttributes q.parseAttributes :=
  couples_loopState (fun _ _ same => alike.attributesRound same) .nil

theorem collectNamespaceDeclarations {left right : List RawAttribute}
    (same : setting.SameAttributes left right) :
    p.collectNamespaceDeclarations left = q.collectNamespaceDeclarations right := by
  unfold Parser.collectNamespaceDeclarations
  rw [alike.namespaces, SameAttributes.collects same]

theorem resolveName {σ : Type} {comparison : Comparison σ Halt} [Measures setting comparison]
    (scopes : List NamespaceScope) (qname : Bytes) (isElement : Bool) {here there : SourceLocation}
    (locations : setting.same here there) :
    Couples comparison (· = ·) (p.resolveName scopes qname isElement here)
      (q.resolveName scopes qname isElement there) := by
  unfold Parser.resolveName
  rw [alike.namespaces]
  refine couples_ite (fun _ => couples_pure rfl) fun _ => ?_
  split
  · exact couples_pure rfl
  · refine couples_ite (fun _ => couples_failAt _ _ locations) fun _ => ?_
    exact couples_ite (fun _ => couples_failAt _ _ locations) fun _ => couples_pure rfl

theorem attributeViews (scopes : List NamespaceScope) {left right : List RawAttribute}
    (same : setting.SameAttributes left right) (seen : List (Bytes × Bytes)) :
    Couples (compareStates setting) (List.Forall₂ setting.SameView)
      (p.attributeViews scopes left seen) (q.attributeViews scopes right seen) := by
  induction same generalizing seen with
  | nil => exact couples_pure .nil
  | cons first _ ih =>
      unfold Parser.attributeViews Parser.isNamespaceDeclaration
      rw [alike.namespaces, first.name, first.value]
      refine couples_ite (fun _ => ih seen) fun _ => ?_
      refine couples_bind_eq (alike.resolveName scopes _ false first.location) fun resolved => ?_
      refine couples_ite (fun _ => couples_failAt _ _ first.location) fun _ => ?_
      refine couples_bind (ih _) fun views others same => couples_pure ?_
      exact .cons ⟨rfl, rfl, first.location⟩ same

end Alike

/-! ## Validation -/

theorem paired_refl (lax : setting.Lax) (s : ParserState) : setting.Paired s s := by
  have locations := setting.refl lax
  have events : ∀ event, setting.SameEvent event event := by
    intro event
    cases event with
    | startElement name attributes =>
        exact .startElement name (List.forall₂_same.mpr fun view _ => ⟨rfl, rfl, locations _⟩)
    | _ => exact .plain _ rfl
  refine ⟨?_, rfl, rfl, rfl, rfl, rfl, rfl, ?_, fun _ => ?_⟩
  · exact List.forall₂_same.mpr fun c _ => ⟨rfl, locations _⟩
  · exact List.forall₂_same.mpr fun delivery _ => ⟨events _, rfl, rfl, rfl, rfl, rfl, rfl⟩
  · exact List.forall₂_same.mpr fun error _ => ⟨rfl, rfl, locations _⟩

instance : Covers (compareStates setting) setting.Paired := ⟨paired_refl⟩

theorem couples_readState {α : Type} {same : α → α → Prop} {left right : ParserState → ParserM α}
    (rest : ∀ s t, setting.Paired s t → Couples (compareStates setting) same (left s) (right t)) :
    Couples (compareStates setting) same (Comp.read id >>= left) (Comp.read id >>= right) := by
  have views : ∀ s t, (compareStates setting).Related s t → setting.Paired (id s) (id t) :=
    fun _ _ => id
  exact couples_read_bind views rest

/-- Nothing but reports is added. -/
def Reports (s t : ParserState) : Prop := ∃ more, t = { s with reported := s.reported ++ more }

instance : Std.Refl Reports := ⟨fun s => ⟨[], by rw [List.append_nil]⟩⟩

instance : IsTrans ParserState Reports where
  trans r s t first second := by
    obtain ⟨before, rfl⟩ := first
    obtain ⟨after, rfl⟩ := second
    exact ⟨before ++ after, by rw [List.append_assoc]⟩

/-- Validation with an error handler that returns throws nothing. -/
theorem obeys_validateElement {p : Parser} {handle : List XmlParseException → Option Exception}
    (handler : p.options.recoverableErrorHandler = some handle)
    (returns : ∀ reported, handle reported = none) (frame : ValidationFrame) (location : SourceLocation) :
    Obeys Reports (fun _ => False) (p.validateElement frame location) := by
  have reports : ∀ message, Obeys Reports (fun _ => False) (p.recoverableValidityError location message) := by
    intro message
    unfold Parser.recoverableValidityError
    rw [handler]
    refine obeys_bind (obeys_modify fun s => ⟨_, rfl⟩) fun _ => ?_
    intro s
    rw [run_read_bind, returns]
    exact obeys_pure () s
  refine obeys_bind (obeys_read _) fun s => obeys_ite (fun _ => obeys_pure _) fun _ => obeys_bind ?_ fun _ => ?_
  · exact obeys_bind (obeys_read _) fun s => obeys_ite (fun _ => reports _) fun _ => obeys_pure _
  · refine obeys_bind (obeys_read _) fun elements => ?_
    split
    · exact reports _
    · split
      · exact obeys_pure _
      · exact obeys_ite (fun _ => reports _) fun _ => obeys_pure _
      · exact obeys_ite (fun _ => reports _) fun _ => obeys_pure _
      · exact obeys_ite (fun _ => reports _) fun _ => obeys_pure _

theorem Paired.onValidationStack {s t : ParserState} (paired : setting.Paired s t)
    (update : List ValidationFrame → List ValidationFrame) :
    setting.Paired { s with validationStack := update s.validationStack }
      { t with validationStack := update t.validationStack } :=
  ⟨paired.rest, paired.entityExpansions, paired.elementStack, paired.elementNameStack,
    paired.namespaceScopes, paired.dtd, congrArg update paired.validationStack, paired.trace,
    paired.reported⟩

theorem couples_validationStack (update : List ValidationFrame → List ValidationFrame) :
    CouplesState setting (Comp.modify fun s => { s with validationStack := update s.validationStack })
      (Comp.modify fun s => { s with validationStack := update s.validationStack }) := by
  apply couples_modify
  · exact fun s => ⟨List.prefix_rfl, List.prefix_rfl, id⟩
  · exact fun s t paired => paired.onValidationStack update

namespace Alike

variable {p q : Parser} (alike : setting.Alike p q)

include alike

theorem validateElement (frame : ValidationFrame) {here there : SourceLocation}
    (locations : setting.same here there) :
    CouplesState setting (p.validateElement frame here) (q.validateElement frame there) := by
  cases alike.reports with
  | inl same =>
      obtain ⟨validates, validation, handlers⟩ := same
      have reports : ∀ message, CouplesState setting (p.recoverableValidityError here message)
          (q.recoverableValidityError there message) := by
        intro message
        unfold Parser.recoverableValidityError
        cases handlers with
        | inl absent =>
            rw [absent.1, absent.2]
            exact couples_failAt _ _ locations
        | inr present =>
            obtain ⟨handle, other, first, second, agree⟩ := present
            rw [first, second]
            constructor
            · refine fun _ => obeys_bind (obeys_modify fun s => ?_) fun _ => obeys_bind (obeys_read _) fun response => ?_
              · exact ⟨List.prefix_rfl, List.prefix_append _ _, id⟩
              · cases response with
                | none => exact obeys_pure _
                | some exception => exact obeys_throw trivial
            · intro s t paired
              have reported : setting.Paired { s with reported := s.reported ++ [⟨.validity, here, message⟩] }
                  { t with reported := t.reported ++ [⟨.validity, there, message⟩] } :=
                ⟨paired.rest, paired.entityExpansions, paired.elementStack, paired.elementNameStack,
                  paired.namespaceScopes, paired.dtd, paired.validationStack, paired.trace,
                  fun _ => forall₂_snoc (paired.reported validates) ⟨rfl, rfl, locations⟩⟩
              rw [run_modify_bind, run_modify_bind, run_read_bind, run_read_bind]
              rw [← agree _ _ (reported.reported validates)]
              cases response : handle (s.reported ++ [⟨.validity, here, message⟩]) with
              | none => exact .returned rfl reported
              | some exception =>
                  have called : s.reported ++ [⟨.validity, here, message⟩] ≠ [] := by simp
                  exact .passed ⟨exception, rfl, alike.passes exception _ (.errorHandler first called response)⟩ reported
      unfold Parser.validateElement
      rw [validation]
      refine couples_readState fun s t paired => ?_
      rw [paired.dtd]
      refine couples_ite (fun _ => couples_pure rfl) fun _ => couples_bind_eq ?_ fun _ => ?_
      · unfold Parser.validateRoot
        refine couples_readState fun s t paired => ?_
        rw [paired.dtd, paired.validationStack]
        exact couples_ite (fun _ => reports _) fun _ => couples_pure rfl
      · unfold Parser.validateContent
        refine couples_read_bind_eq (fun s t paired => congrArg DtdState.elements paired.dtd) fun elements => ?_
        split
        · exact reports _
        · split
          · exact couples_pure rfl
          · exact couples_ite (fun _ => reports _) fun _ => couples_pure rfl
          · exact couples_ite (fun _ => reports _) fun _ => couples_pure rfl
          · exact couples_ite (fun _ => reports _) fun _ => couples_pure rfl
  | inr silent =>
      obtain ⟨hidden, _, ignores, handle, handler, returns⟩ := silent
      have obeys := obeys_validateElement handler returns frame here
      have skips : ∀ t, (q.validateElement frame there).run t = (.ok (), t) := by
        intro t
        unfold Parser.validateElement
        have ignored : (q.options.validation != .dtd || !(id t).dtd.hasDoctype) = true := by
          rw [ignores]
          rfl
        rw [run_read_bind, if_pos ignored]
        rfl
      constructor
      · refine fun _ => Obeys.mono obeys (fun s final reports => ?_) fun _ _ => trivial
        obtain ⟨more, rfl⟩ := reports
        exact ⟨List.prefix_rfl, List.prefix_append _ _, id⟩
      · intro s t paired
        rw [skips]
        cases ran : (p.validateElement frame here).run s with
        | mk outcome final =>
            cases outcome with
            | error halt => exact (obeys.of_error ran).elim
            | ok value =>
                obtain ⟨more, rfl⟩ := obeys.of_run ran
                exact .returned rfl ⟨paired.rest, paired.entityExpansions, paired.elementStack,
                  paired.elementNameStack, paired.namespaceScopes, paired.dtd, paired.validationStack,
                  paired.trace, fun validates => absurd validates hidden⟩

theorem finishValidationFrame {here there : SourceLocation}
    (locations : setting.same here there) :
    CouplesState setting (p.finishValidationFrame here) (q.finishValidationFrame there) := by
  refine couples_read_bind_eq (fun _ _ paired => paired.validationStack) fun stack => ?_
  refine couples_bind_eq (couples_topOf stack) fun frame => ?_
  refine couples_bind_eq (couples_validationStack List.tail) fun _ => ?_
  refine couples_bind_eq (alike.validateElement frame locations) fun _ => ?_
  exact couples_validationStack _

/-! ## Content -/

theorem deliverText (text : Bytes) : CouplesState setting (p.deliverText text) (q.deliverText text) := by
  refine couples_ite (fun _ => couples_pure rfl) fun _ => ?_
  refine couples_bind_eq (couples_modify (fun s => ?_) fun s t paired => ?_) fun _ => alike.emit_eq rfl
  · split
    · exact ⟨List.prefix_rfl, List.prefix_rfl, id⟩
    · exact Calls.refl s
  · split
    · exact paired.onValidationStack Parser.recordText
    · exact paired

theorem parseText : CouplesState setting p.parseText q.parseText := by
  refine alike.lookLocation fun here there locations => ?_
  refine couples_bind_eq (couples_loopState_eq (fun text => ?_) []) fun text => alike.deliverText text
  refine couples_look textual_eof fun _ => couples_look textual_peek fun _ => ?_
  refine couples_ite (fun _ => couples_pure (.done rfl)) fun _ => ?_
  refine couples_bind_eq (alike.takePiece text) fun text => ?_
  exact couples_bind_eq (alike.enforceTokenSize _ locations) fun _ => couples_pure (.next rfl)

theorem parseEndTag (openName : Bytes) :
    CouplesState setting (p.parseEndTag openName) (q.parseEndTag openName) := by
  refine alike.lookLocation fun here there locations => ?_
  refine couples_bind_eq (couples_scan (alike.expectSequence _ _)) fun _ => ?_
  refine couples_bind_eq (couples_scan alike.parseName) fun endName => ?_
  refine couples_bind_eq (couples_scan alike.skipWhitespace) fun _ => ?_
  refine couples_bind_eq (couples_scan (alike.expect _ _)) fun _ => ?_
  refine couples_ite (fun _ => couples_failAt _ _ locations) fun _ => ?_
  refine couples_read_bind_eq (fun _ _ paired => paired.elementNameStack) fun stack => ?_
  exact couples_bind_eq (couples_topOf stack) fun top => alike.emit_eq rfl

theorem parseContent {first second : ParserM Unit} (element : CouplesState setting first second)
    (openName : Bytes) :
    CouplesState setting (p.parseContent first openName) (q.parseContent second openName) := by
  refine couples_loopState_eq (fun current => ?_) ()
  refine couples_look textual_eof fun _ => couples_ite (fun _ => alike.failHere _ _) fun _ => ?_
  refine couples_look (textual_startsWith _) fun _ => couples_ite (fun _ => ?_) fun _ => ?_
  · exact couples_bind_eq (alike.parseEndTag openName) fun _ => couples_pure (.done rfl)
  refine couples_look (textual_startsWith _) fun _ => couples_ite (fun _ => ?_) fun _ => ?_
  · exact couples_bind_eq alike.parseComment fun _ => couples_pure (.next rfl)
  refine couples_look (textual_startsWith _) fun _ => couples_ite (fun _ => ?_) fun _ => ?_
  · exact couples_bind_eq alike.parseCdata fun _ => couples_pure (.next rfl)
  refine couples_look (textual_startsWith _) fun _ => couples_ite (fun _ => ?_) fun _ => ?_
  · exact couples_bind_eq alike.parseProcessingInstruction fun _ => couples_pure (.next rfl)
  refine couples_look textual_peek fun _ => couples_ite (fun _ => ?_) fun _ => ?_
  · exact couples_bind_eq element fun _ => couples_pure (.next rfl)
  · exact couples_bind_eq alike.parseText fun _ => couples_pure (.next rfl)

/-! ## Elements -/

theorem parseTagName {here there : SourceLocation} (locations : setting.same here there) :
    CouplesState setting (p.parseTagName here) (q.parseTagName there) := by
  refine couples_bind_eq (couples_scan (alike.expect _ _)) fun _ => ?_
  refine couples_look textual_peek fun next => ?_
  refine couples_ite (fun _ => couples_failAt _ _ locations) fun _ => ?_
  refine couples_bind_eq (couples_scan alike.parseName) fun name => ?_
  refine couples_read_bind_eq (fun _ _ paired => ?_) fun depth => ?_
  · rw [paired.elementStack]
  exact couples_limit alike.maxDepth locations (couples_pure rfl)

theorem openElement (name : Bytes) {here there : SourceLocation}
    (locations : setting.same here there) :
    CouplesState setting (p.openElement name here) (q.openElement name there) := by
  refine couples_bind alike.parseAttributes fun left right same => ?_
  rw [alike.collectNamespaceDeclarations same]
  refine couples_bind_eq (couples_modify ?_ ?_) fun _ => ?_
  · exact fun s => ⟨List.prefix_rfl, List.prefix_rfl, id⟩
  · intro s t paired
    exact ⟨paired.rest, paired.entityExpansions, paired.elementStack, paired.elementNameStack,
      congrArg (List.cons _) paired.namespaceScopes, paired.dtd, paired.validationStack, paired.trace,
      paired.reported⟩
  refine couples_read_bind_eq (fun _ _ paired => paired.namespaceScopes) fun scopes => ?_
  refine couples_bind_eq (alike.resolveName scopes name true locations) fun elementName => ?_
  refine couples_bind (alike.attributeViews scopes same []) fun views others sameViews => ?_
  refine couples_bind_eq (couples_modify ?_ ?_) fun _ => ?_
  · exact fun s => ⟨List.prefix_rfl, List.prefix_rfl, id⟩
  · intro s t paired
    exact ⟨paired.rest, paired.entityExpansions, congrArg (List.cons _) paired.elementStack,
      congrArg (List.cons _) paired.elementNameStack, paired.namespaceScopes, paired.dtd,
      congrArg (List.cons _) paired.validationStack, paired.trace, paired.reported⟩
  refine couples_bind_eq (alike.emit ?_) fun _ => couples_pure rfl
  exact .startElement elementName sameViews

omit alike in
theorem popElement : CouplesState setting popElement popElement := by
  refine couples_readState fun s t paired => ?_
  rw [paired.namespaceScopes, paired.elementNameStack, paired.elementStack]
  refine couples_ite (fun _ => couples_throw sameHalt_undefinedBehavior) fun _ => couples_modify ?_ ?_
  · exact fun s => ⟨List.prefix_rfl, List.prefix_rfl, id⟩
  · intro s t paired
    exact ⟨paired.rest, paired.entityExpansions, congrArg List.tail paired.elementStack,
      congrArg List.tail paired.elementNameStack, congrArg List.tail paired.namespaceScopes, paired.dtd,
      paired.validationStack, paired.trace, paired.reported⟩

theorem parseElement (fuel : Nat) : CouplesState setting (p.parseElement fuel) (q.parseElement fuel) := by
  induction fuel with
  | zero => exact couples_throw sameHalt_outOfFuel
  | succ fuel ih =>
      unfold Parser.parseElement
      refine alike.lookLocation fun here there locations => ?_
      refine couples_bind_eq (alike.parseTagName locations) fun name => ?_
      refine couples_bind_eq (alike.openElement name locations) fun elementName => ?_
      refine couples_bind_eq ?_ fun _ => ?_
      · refine couples_look (textual_startsWith _) fun _ => couples_ite (fun _ => ?_) fun _ => ?_
        · exact couples_bind_eq (couples_scan (alike.expectSequence _ _)) fun _ => alike.emit_eq rfl
        · exact couples_bind_eq (couples_scan (alike.expect _ _)) fun _ => alike.parseContent ih name
      exact couples_bind_eq (alike.finishValidationFrame locations) fun _ => popElement

theorem parse : CouplesState setting p.parse q.parse := by
  refine couples_bind_eq (alike.emit_eq rfl) fun _ => ?_
  refine couples_bind_eq (couples_scan alike.parseXmlDeclarationIfPresent) fun _ => ?_
  refine couples_bind_eq alike.skipMisc fun _ => couples_bind_eq alike.parseDoctypeIfPresent fun _ => ?_
  refine couples_bind_eq alike.skipMisc fun _ => couples_look textual_length fun length => ?_
  refine couples_bind_eq (alike.parseElement _) fun _ => couples_bind_eq alike.skipMisc fun _ => ?_
  refine couples_look textual_eof fun _ => couples_ite (fun _ => alike.failHere _ _) fun _ => ?_
  exact alike.emit_eq rfl

end Alike

end Setting

end XmlParser
