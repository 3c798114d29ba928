import XmlParser.CursorProperties
import XmlParser.EventOrder
import XmlParser.Progress
import XmlParser.Library.Coupling

/-! Two parsers in lockstep: on texts with the same characters they do the same,
up to the locations, until a limit or the handler of the second one stops it.
The first one may validate in silence where the second one does not validate. -/

set_option autoImplicit false

namespace XmlParser

open XmlParser.Computation Comp

/-- An exception of the client's own: the last call of one of the callbacks, on the way to
this state, threw it. -/
inductive ThrownByCallback (handler : SaxHandler) (options : ParserOptions) (exception : Exception)
    (s : ParserState) : Prop where
  | handler (called : s.events ≠ []) (threw : handler.respond s.events = some exception)
  | resolver {resolve : Bytes → Except Exception Bytes} (configured : options.externalDtdResolver = some resolve)
      (validates : options.validation = .dtd) (allowed : options.allowExternalDtd = true)
      (external : s.dtd.hasExternalSubset = true) (threw : resolve s.dtd.externalSystemId = .error exception)
  | errorHandler {handle : List XmlParseException → Option Exception}
      (configured : options.recoverableErrorHandler = some handle) (called : s.reported ≠ [])
      (threw : handle s.reported = some exception)

/-- What of two runs is compared. -/
structure Setting where
  /-- The locations that count as the same. -/
  same : SourceLocation → SourceLocation → Prop
  /-- With what, after which calls, the second run may stop before the first. -/
  stops : Halt → List Event → Prop
  /-- Both validate, or neither does. -/
  validates : Prop
  /-- What the callbacks may throw, in which state. -/
  passes : Exception → ParserState → Prop
  /-- Where a run may go on alone, all locations count as the same as themselves. -/
  refl : ¬ validates ∨ (∃ halt events, stops halt events) → ∀ location, same location location

namespace Setting

section Relations

variable (setting : Setting)

structure SameChar (left right : DecodedChar) : Prop where
  value : left.value = right.value
  location : setting.same left.location right.location

structure SameRaw (left right : RawAttribute) : Prop where
  name : left.name = right.name
  value : left.value = right.value
  location : setting.same left.location right.location

structure SameView (left right : AttributeView) : Prop where
  name : left.name = right.name
  value : left.value = right.value
  location : setting.same left.location right.location

structure SameError (left right : XmlParseException) : Prop where
  kind : left.kind = right.kind
  message : left.message = right.message
  location : setting.same left.location right.location

inductive SameEvent : Event → Event → Prop where
  | startElement (name : QualifiedName) {left right : List AttributeView}
      (views : List.Forall₂ setting.SameView left right) :
      SameEvent (.startElement name left) (.startElement name right)
  | plain (event : Event) (notOpening : event.isOpening = false) : SameEvent event event

structure SameDelivery (left right : Delivery) : Prop where
  event : setting.SameEvent left.event right.event
  elementDepth : left.elementDepth = right.elementDepth
  elementNameDepth : left.elementNameDepth = right.elementNameDepth
  scopeDepth : left.scopeDepth = right.scopeDepth
  validationDepth : left.validationDepth = right.validationDepth
  entityExpansions : left.entityExpansions = right.entityExpansions
  declarationCount : left.declarationCount = right.declarationCount

/-- The parsers throw the same; only a direct reference to an undeclared entity
is told apart by one that does not validate. -/
inductive SameHalt : Halt → Halt → Prop where
  | raised {left right : XmlParseException} (errors : setting.SameError left right) :
      SameHalt (.thrown (.xmlParse left)) (.thrown (.xmlParse right))
  | broken {halt : Halt} (notThrown : ¬ halt.IsThrown) : SameHalt halt halt
  | excused {here there : SourceLocation} (hidden : ¬ setting.validates)
      (locations : setting.same here there) :
      SameHalt (.thrown (.xmlParse ⟨.validity, here, "undeclared entity reference"⟩))
        (.thrown (.xmlParse ⟨.wellFormedness, there, "unknown entity reference"⟩))

/-- Two limits are equal, or the tighter one stops the run. -/
def Limits (tight loose : Nat) : Prop :=
  tight = loose ∨ tight ≤ loose ∧ ∀ location message events,
    setting.stops (.thrown (.xmlParse ⟨.resourceLimit, location, message⟩)) events

/-- The second parser reports as the first one does; or the first one validates,
its error handler returns from every call, and the second one does not validate. -/
def ReportsAlike (first second : ParserOptions) : Prop :=
  (setting.validates ∧ second.validation = first.validation ∧
    ((first.recoverableErrorHandler = none ∧ second.recoverableErrorHandler = none) ∨
      ∃ handle other, first.recoverableErrorHandler = some handle ∧
        second.recoverableErrorHandler = some other ∧
        ∀ left right, List.Forall₂ setting.SameError left right → handle left = other right)) ∨
  (¬ setting.validates ∧ first.validation = .dtd ∧ second.validation = .none ∧
    ∃ handle, first.recoverableErrorHandler = some handle ∧ ∀ reported, handle reported = none)

/-- The second parser is configured as the first one, with limits that may be
tighter and a handler that may stop earlier. -/
structure Alike (p q : Parser) : Prop where
  version : q.options.version = p.options.version
  namespaces : q.options.namespaces = p.options.namespaces
  allowExternalDtd : q.options.allowExternalDtd = p.options.allowExternalDtd
  externalDtdResolver : q.options.externalDtdResolver = p.options.externalDtdResolver
  passes : ∀ exception s, ThrownByCallback p.handler p.options exception s → setting.passes exception s
  maxDepth : setting.Limits q.options.maxDepth p.options.maxDepth
  maxTokenBytes : setting.Limits q.options.maxTokenBytes p.options.maxTokenBytes
  maxAttributesPerElement :
    setting.Limits q.options.maxAttributesPerElement p.options.maxAttributesPerElement
  maxEntityExpansions : setting.Limits q.options.maxEntityExpansions p.options.maxEntityExpansions
  maxDtdDeclarations : setting.Limits q.options.maxDtdDeclarations p.options.maxDtdDeclarations
  maxEntityReplacementBytes :
    setting.Limits q.options.maxEntityReplacementBytes p.options.maxEntityReplacementBytes
  maxExternalSubsetBytes :
    setting.Limits q.options.maxExternalSubsetBytes p.options.maxExternalSubsetBytes
  endLocation : setting.same p.endLocation q.endLocation
  handler : ∀ left right, List.Forall₂ setting.SameEvent left right →
    p.handler.respond left = q.handler.respond right ∨
      p.handler.respond left = none ∧ ∃ exception, q.handler.respond right = some exception ∧
        setting.stops (.thrown exception) right
  reports : setting.ReportsAlike p.options q.options

/-! ## What is compared -/

/-- Positions in texts with the same characters. -/
abbrev SameText : List DecodedChar → List DecodedChar → Prop := List.Forall₂ setting.SameChar

/-- Two parsers at the same point of the same text. -/
structure Paired (s t : ParserState) : Prop where
  rest : setting.SameText s.rest t.rest
  entityExpansions : s.entityExpansions = t.entityExpansions
  elementStack : s.elementStack = t.elementStack
  elementNameStack : s.elementNameStack = t.elementNameStack
  namespaceScopes : s.namespaceScopes = t.namespaceScopes
  dtd : s.dtd = t.dtd
  validationStack : s.validationStack = t.validationStack
  trace : List.Forall₂ setting.SameDelivery s.trace t.trace
  reported : setting.validates → List.Forall₂ setting.SameError s.reported t.reported

/-- The calls made in the second state were made on the way to the first. -/
structure Precedes (t s : ParserState) : Prop where
  trace : ∃ before, before <+: s.trace ∧ List.Forall₂ setting.SameDelivery before t.trace
  reported : setting.validates →
    ∃ before, before <+: s.reported ∧ List.Forall₂ setting.SameError before t.reported

end Relations

/-- What a run adds. -/
structure Calls (s t : ParserState) : Prop where
  trace : s.trace <+: t.trace
  reported : s.reported <+: t.reported
  external : s.dtd.hasExternalSubset = true → t.dtd.hasExternalSubset = true

theorem Calls.refl (s : ParserState) : Calls s s := ⟨List.prefix_rfl, List.prefix_rfl, id⟩

variable {setting : Setting}

theorem Paired.precedes {s t : ParserState} (paired : setting.Paired s t) : setting.Precedes t s :=
  ⟨⟨s.trace, List.prefix_rfl, paired.trace⟩,
    fun validates => ⟨s.reported, List.prefix_rfl, paired.reported validates⟩⟩

theorem Precedes.calls {s final t : ParserState} (precedes : setting.Precedes t s)
    (calls : Calls s final) : setting.Precedes t final := by
  obtain ⟨⟨trace, traced, sameTrace⟩, reports⟩ := precedes
  refine ⟨⟨trace, traced.trans calls.trace, sameTrace⟩, fun validates => ?_⟩
  obtain ⟨reported, wereReported, sameReported⟩ := reports validates
  exact ⟨reported, wereReported.trans calls.reported, sameReported⟩

/-- Whether a run may go on alone. -/
def Lax (setting : Setting) : Prop :=
  ¬ setting.validates ∨ ∃ halt events, setting.stops halt events

/-- A comparison of parts that nothing can be called from. -/
def comparePart {σ : Type} (setting : Setting) (related : σ → σ → Prop) : Comparison σ Halt where
  lax := setting.Lax
  Related := related
  Grows _ _ := True
  SameError := setting.SameHalt
  Stopped halt _ _ := ∀ events, setting.stops halt events
  Parted _ := False
  grows_refl _ := trivial
  grows_trans _ _ := trivial
  stopped_grows stopped _ := stopped
  parted_grows parted _ := parted
  stopped_lax stopped := .inr ⟨_, [], stopped []⟩
  parted_lax := False.elim

def compareText (setting : Setting) : Comparison (List DecodedChar) Halt :=
  comparePart setting setting.SameText

def compareCount (setting : Setting) : Comparison Nat Halt := comparePart setting (· = ·)

def compareStates (setting : Setting) : Comparison ParserState Halt where
  lax := setting.Lax
  Related := setting.Paired
  Grows := Calls
  SameError := setting.SameHalt
  Passed halt s := ∃ exception, halt = .thrown exception ∧ setting.passes exception s
  Stopped halt s t := setting.stops halt t.events ∧ setting.Precedes t s
  Parted s := ¬ setting.validates ∧ s.dtd.hasExternalSubset = true
  grows_refl := Calls.refl
  grows_trans first second :=
    ⟨first.trace.trans second.trace, first.reported.trans second.reported,
      fun external => second.external (first.external external)⟩
  stopped_grows stopped calls := ⟨stopped.1, stopped.2.calls calls⟩
  parted_grows parted calls := ⟨parted.1, calls.external parted.2⟩
  stopped_lax stopped := .inr ⟨_, _, stopped.1⟩
  parted_lax parted := .inl parted.1

/-- Errors are compared up to their locations, and limits may stop. -/
class Measures (setting : outParam Setting) {σ : Type} (comparison : Comparison σ Halt) : Prop where
  lax : comparison.lax → setting.Lax
  sameError : ∀ left right, setting.SameHalt left right → comparison.SameError left right
  stopped : ∀ halt first second, (∀ events, setting.stops halt events) →
    comparison.Related first second → comparison.Stopped halt first second

instance : Measures setting (compareText setting) :=
  ⟨id, fun _ _ => id, fun _ _ _ stopped _ => stopped⟩

instance : Measures setting (compareCount setting) :=
  ⟨id, fun _ _ => id, fun _ _ _ stopped _ => stopped⟩

instance : Measures setting (compareStates setting) :=
  ⟨id, fun _ _ => id, fun _ _ _ stopped paired => ⟨stopped _, paired.precedes⟩⟩

section Covers

variable {σ : Type} (comparison : Comparison σ Halt) [Measures setting comparison]

instance : Covers comparison setting.same := ⟨fun lax => setting.refl (Measures.lax lax)⟩

instance : Covers comparison setting.SameRaw :=
  ⟨fun lax _ => ⟨rfl, rfl, setting.refl (Measures.lax lax) _⟩⟩

instance : Covers comparison setting.SameView :=
  ⟨fun lax _ => ⟨rfl, rfl, setting.refl (Measures.lax lax) _⟩⟩

end Covers

theorem sameHalt_outOfFuel : setting.SameHalt .outOfFuel .outOfFuel :=
  .broken fun thrown => nomatch thrown

theorem sameHalt_undefinedBehavior : setting.SameHalt .undefinedBehavior .undefinedBehavior :=
  .broken fun thrown => nomatch thrown

section Parts

variable {σ : Type} {comparison : Comparison σ Halt} [Measures setting comparison] {α : Type}
  {same : α → α → Prop} {here there : SourceLocation}

theorem couples_failAt (kind : ErrorKind) (message : String) (locations : setting.same here there) :
    Couples comparison same (failAt kind here message) (failAt kind there message) := by
  apply couples_throw
  apply Measures.sameError
  exact .raised ⟨rfl, rfl, locations⟩

/-- A test of a size against a limit, which ends in one of two failures. -/
theorem couples_limit_of {size tight loose : Nat} {message : String}
    {left right source target : Comp σ Halt α} (limits : setting.Limits tight loose)
    (fails : Couples comparison same left right)
    (throws : ∀ state, ∃ location,
      right.run state = (.error (.thrown (.xmlParse ⟨.resourceLimit, location, message⟩)), state))
    (grows : comparison.lax → Obeys comparison.Grows (fun _ => True) source)
    (passes : size ≤ tight → Couples comparison same source target) :
    Couples comparison same (if size > loose then left else source)
      (if size > tight then right else target) := by
  by_cases exceeds : size > loose
  · have exceedsTight : size > tight := by
      cases limits with
      | inl equal => exact equal ▸ exceeds
      | inr tighter => exact Nat.lt_of_le_of_lt tighter.1 exceeds
    rw [if_pos exceeds, if_pos exceedsTight]
    exact fails
  · rw [if_neg exceeds]
    by_cases exceedsTight : size > tight
    · rw [if_pos exceedsTight]
      cases limits with
      | inl equal => exact absurd (equal ▸ exceedsTight) exceeds
      | inr tighter =>
          apply couples_stop grows
          intro first second related
          obtain ⟨location, threw⟩ := throws second
          exact ⟨_, threw, Measures.stopped _ _ _ (tighter.2 location message) related⟩
    · rw [if_neg exceedsTight]
      exact passes (Nat.le_of_not_gt exceedsTight)

theorem couples_limit {size tight loose : Nat} {message : String} {source target : Comp σ Halt α}
    (limits : setting.Limits tight loose) (locations : setting.same here there)
    (passes : Couples comparison same source target) :
    Couples comparison same
      (if size > loose then failAt .resourceLimit here message else source)
      (if size > tight then failAt .resourceLimit there message else target) :=
  couples_limit_of limits (couples_failAt _ _ locations) (fun _ => ⟨there, rfl⟩) passes.grows
    fun _ => passes

end Parts

/-! ## Scanning -/

/-- A view of the characters that does not depend on their locations. -/
def Textual {α : Type} (view : List DecodedChar → α) : Prop :=
  ∀ left right, values left = values right → view left = view right

theorem textual_eof : Textual eof := by
  intro left right same
  cases left with
  | nil =>
      cases right with
      | nil => rfl
      | cons c right => cases same
  | cons c left =>
      cases right with
      | nil => cases same
      | cons d right => rfl

theorem textual_length : Textual List.length := by
  intro left right same
  rw [← values_length left, same, values_length]

theorem textual_peekAt (lookahead : Nat) : Textual (peekAt lookahead) := by
  intro left right same
  unfold peekAt
  rw [← List.getElem?_map, ← List.getElem?_map]
  exact congrArg (fun text : List Nat => text[lookahead]?.getD 0) same

theorem textual_peek : Textual peek := textual_peekAt 0

theorem textual_startsWith (text : List Nat) : Textual (startsWith text) :=
  fun _ _ same => congrArg text.isPrefixOf same

theorem SameText.values {left right : List DecodedChar} (same : setting.SameText left right) :
    values left = values right := by
  induction same with
  | nil => rfl
  | cons first _ ih => rw [values_cons, values_cons, first.value, ih]

theorem SameText.drop {left right : List DecodedChar} (same : setting.SameText left right)
    (count : Nat) : setting.SameText (left.drop count) (right.drop count) :=
  List.forall₂_drop count same

theorem SameText.tail {left right : List DecodedChar} (same : setting.SameText left right) :
    setting.SameText left.tail right.tail := by
  rw [← List.drop_one, ← List.drop_one]
  exact SameText.drop same 1

abbrev CouplesText (setting : Setting) {α : Type} (source target : Cursor α) : Prop :=
  Couples (compareText setting) (· = ·) source target

abbrev CouplesRound (setting : Setting) {β γ : Type} (source target : Cursor (LoopStep β γ)) : Prop :=
  Couples (compareText setting) (LoopStep.Same (· = ·) (· = ·)) source target

theorem couples_test {α β : Type} {same : β → β → Prop} {view : List DecodedChar → α}
    {left right : α → Cursor β} (textual : Textual view)
    (rest : ∀ value, Couples (compareText setting) same (left value) (right value)) :
    Couples (compareText setting) same (Comp.read view >>= left) (Comp.read view >>= right) :=
  couples_read_bind_eq (fun _ _ related => textual _ _ (SameText.values related)) rest

theorem couples_whileText {β : Type} {condition : List DecodedChar → Bool} (textual : Textual condition)
    {body other : β → Cursor β} (round : ∀ current, CouplesText setting (body current) (other current))
    (start : β) :
    CouplesText setting (whileLoop List.length .outOfFuel condition body start)
      (whileLoop List.length .outOfFuel condition other start) :=
  couples_whileLoop (fun _ _ related => textual_length _ _ (SameText.values related))
    (fun _ _ related => textual _ _ (SameText.values related)) (sameHalt_outOfFuel) round start

theorem couples_loopText {β γ : Type} {body other : β → Cursor (LoopStep β γ)}
    (round : ∀ current, CouplesRound setting (body current) (other current)) (start : β) :
    CouplesText setting (loop (fun _ => List.length) .outOfFuel body start)
      (loop (fun _ => List.length) .outOfFuel other start) :=
  couples_loop_eq (fun _ _ _ related => textual_length _ _ (SameText.values related))
    (sameHalt_outOfFuel) round start

theorem textual_whilePeek (condition : Nat → Bool) :
    Textual fun rest => !eof rest && condition (peek rest) := by
  intro left right same
  simp only [textual_eof left right same, textual_peek left right same]

theorem textual_whileNotAt (stop : List Nat) :
    Textual fun rest => !eof rest && !startsWith stop rest := by
  intro left right same
  simp only [textual_eof left right same, textual_startsWith stop left right same]

namespace Alike

variable {p q : Parser} (alike : setting.Alike p q)

include alike

theorem location {left right : List DecodedChar} (same : setting.SameText left right) :
    setting.same (p.location left) (q.location right) := by
  cases same with
  | nil => exact alike.endLocation
  | cons first _ => exact first.location

theorem readLocation {β : Type} {same : β → β → Prop} {left right : SourceLocation → Cursor β}
    (rest : ∀ here there, setting.same here there →
      Couples (compareText setting) same (left here) (right there)) :
    Couples (compareText setting) same (Comp.read p.location >>= left) (Comp.read q.location >>= right) :=
  couples_read_bind (fun _ _ related => alike.location related) rest

theorem fail {α : Type} {same : α → α → Prop} (kind : ErrorKind) (message : String) :
    Couples (compareText setting) same (p.fail kind message) (q.fail kind message) :=
  alike.readLocation fun _ _ locations => couples_failAt kind message locations

theorem advance : CouplesText setting p.advance q.advance := by
  refine couples_test textual_eof fun atEnd => couples_ite (fun _ => alike.fail _ _) fun _ => ?_
  exact couples_modify (fun _ => trivial) fun _ _ related => SameText.tail related

theorem expect (value : Nat) (description : String) :
    CouplesText setting (p.expect value description) (q.expect value description) := by
  refine couples_test textual_peek fun next => ?_
  exact couples_ite (fun _ => alike.fail _ _) fun _ => alike.advance

theorem expectSequence (text : List Nat) (description : String) :
    CouplesText setting (p.expectSequence text description) (q.expectSequence text description) := by
  refine couples_test (textual_startsWith text) fun starts => ?_
  refine couples_ite (fun _ => alike.fail _ _) fun _ => ?_
  exact couples_modify (fun _ => trivial) fun _ _ related => SameText.drop related _

theorem enforceTokenSize {σ : Type} {comparison : Comparison σ Halt} [Measures setting comparison]
    (size : Nat) {here there : SourceLocation} (locations : setting.same here there) :
    Couples comparison (· = ·) (p.enforceTokenSize size here) (q.enforceTokenSize size there) :=
  couples_limit alike.maxTokenBytes locations (couples_pure rfl)

theorem skipWhitespace : CouplesText setting p.skipWhitespace q.skipWhitespace :=
  couples_whileText (textual_whilePeek isSpace) (fun _ => alike.advance) ()

theorem appendPeek {here there : SourceLocation} (locations : setting.same here there)
    (text : Bytes) : CouplesText setting (p.appendPeek here text) (q.appendPeek there text) := by
  refine couples_test textual_peek fun next => ?_
  refine couples_bind_eq (alike.enforceTokenSize _ locations) fun _ => ?_
  exact couples_bind_eq alike.advance fun _ => couples_pure rfl

theorem pushPeek {here there : SourceLocation} (locations : setting.same here there)
    (buffer : List Nat) : CouplesText setting (p.pushPeek here buffer) (q.pushPeek there buffer) := by
  refine couples_test textual_peek fun next => ?_
  refine couples_bind_eq (alike.enforceTokenSize _ locations) fun _ => ?_
  exact couples_bind_eq alike.advance fun _ => couples_pure rfl

theorem takePeek (text : Bytes) : CouplesText setting (p.takePeek text) (q.takePeek text) := by
  refine couples_test textual_peek fun next => ?_
  exact couples_bind_eq alike.advance fun _ => couples_pure rfl

theorem parseName : CouplesText setting p.parseName q.parseName := by
  refine alike.readLocation fun here there locations => couples_test textual_peek fun next => ?_
  refine couples_ite (fun _ => alike.fail _ _) fun _ => ?_
  refine couples_bind_eq ?_ fun buffer => couples_pure rfl
  exact couples_whileText (textual_whilePeek isNameChar) (alike.pushPeek locations) []

theorem parseQuotedLiteral : CouplesText setting p.parseQuotedLiteral q.parseQuotedLiteral := by
  refine couples_test textual_peek fun quote => couples_ite (fun _ => alike.fail _ _) fun _ => ?_
  refine couples_bind_eq alike.advance fun _ => ?_
  refine couples_bind_eq (couples_whileText (textual_whilePeek (· != quote)) alike.takePeek []) fun value => ?_
  exact couples_bind_eq (alike.expect _ _) fun _ => couples_pure rfl

theorem takeUntil {here there : SourceLocation} (locations : setting.same here there)
    (stop : List Nat) :
    CouplesText setting (Parser.whileNotAt stop (p.appendPeek here) [])
      (Parser.whileNotAt stop (q.appendPeek there) []) :=
  couples_whileText (textual_whileNotAt stop) (alike.appendPeek locations) []

theorem parseXmlDeclarationIfPresent :
    CouplesText setting p.parseXmlDeclarationIfPresent q.parseXmlDeclarationIfPresent := by
  refine couples_test (textual_startsWith _) fun starts => couples_test (textual_peekAt 5) fun sixth => ?_
  refine couples_ite (fun _ => couples_pure rfl) fun _ => alike.readLocation fun here there locations => ?_
  refine couples_bind_eq (alike.expectSequence _ _) fun _ => couples_test textual_peek fun next => ?_
  refine couples_ite (fun _ => alike.fail _ _) fun _ => ?_
  refine couples_bind_eq (alike.takeUntil locations _) fun declaration => ?_
  refine couples_bind_eq (alike.expectSequence _ _) fun _ => ?_
  refine couples_ite (fun _ => couples_failAt _ _ locations) fun _ => ?_
  rw [alike.version]
  exact couples_ite (fun _ => couples_failAt _ _ locations) fun _ => couples_pure rfl

theorem commentRound {here there : SourceLocation} (locations : setting.same here there)
    (text : Bytes) : CouplesRound setting (p.commentRound here text) (q.commentRound there text) := by
  refine couples_test textual_eof fun _ => couples_ite (fun _ => couples_failAt _ _ locations) fun _ => ?_
  refine couples_test (textual_startsWith _) fun _ => couples_ite (fun _ => ?_) fun _ => ?_
  · exact couples_bind_eq (alike.expectSequence _ _) fun _ => couples_pure (.done rfl)
  · refine couples_test (textual_startsWith _) fun _ => couples_ite (fun _ => alike.fail _ _) fun _ => ?_
    exact couples_bind_eq (alike.appendPeek locations text) fun _ => couples_pure (.next rfl)

theorem scanComment : CouplesText setting p.scanComment q.scanComment := by
  refine alike.readLocation fun here there locations => ?_
  refine couples_bind_eq (alike.expectSequence _ _) fun _ => ?_
  exact couples_loopText (alike.commentRound locations) []

theorem cdataRound {here there : SourceLocation} (locations : setting.same here there)
    (text : Bytes) : CouplesRound setting (p.cdataRound here text) (q.cdataRound there text) := by
  refine couples_test textual_eof fun _ => couples_ite (fun _ => couples_failAt _ _ locations) fun _ => ?_
  refine couples_test (textual_startsWith _) fun _ => couples_ite (fun _ => ?_) fun _ => ?_
  · exact couples_bind_eq (alike.expectSequence _ _) fun _ => couples_pure (.done rfl)
  · exact couples_bind_eq (alike.appendPeek locations text) fun _ => couples_pure (.next rfl)

theorem scanCdata : CouplesText setting p.scanCdata q.scanCdata := by
  refine alike.readLocation fun here there locations => ?_
  refine couples_bind_eq (alike.expectSequence _ _) fun _ => ?_
  exact couples_loopText (alike.cdataRound locations) []

theorem scanProcessingInstruction :
    CouplesText setting p.scanProcessingInstruction q.scanProcessingInstruction := by
  refine alike.readLocation fun here there locations => ?_
  refine couples_bind_eq (alike.expectSequence _ _) fun _ => ?_
  refine couples_bind_eq alike.parseName fun target => ?_
  refine couples_ite (fun _ => couples_failAt _ _ locations) fun _ => ?_
  refine couples_bind_eq alike.skipWhitespace fun _ => ?_
  refine couples_bind_eq (alike.takeUntil locations _) fun data => ?_
  exact couples_bind_eq (alike.expectSequence _ _) fun _ => couples_pure rfl

end Alike

end Setting

end XmlParser
