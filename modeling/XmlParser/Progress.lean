import XmlParser.CursorProperties
import XmlParser.Elements

/-! Every member moves ahead in the text, and every loop of the parser ends.
Below the elements no member touches the stacks or calls the handler. -/

set_option autoImplicit false

namespace XmlParser

open XmlParser.Computation Comp

def Halt.IsThrown (halt : Halt) : Prop := ∃ exception, halt = .thrown exception

theorem isThrown_thrown (exception : Exception) : (Halt.thrown exception).IsThrown :=
  ⟨exception, rfl⟩

theorem obeys_failAt {σ α : Type} {relation : σ → σ → Prop} [Std.Refl relation]
    (kind : ErrorKind) (location : SourceLocation) (message : String) :
    Obeys relation Halt.IsThrown (failAt kind location message : Comp σ Halt α) :=
  obeys_throw (isThrown_thrown _)

/-! ## Scanning -/

/-- The second position is ahead of the first. -/
def Ahead (before after : List DecodedChar) : Prop := after <:+ before

instance : Std.Refl Ahead := ⟨List.suffix_refl⟩

instance : IsTrans (List DecodedChar) Ahead := ⟨fun _ _ _ first second => second.trans first⟩

/-- A scanning member moves ahead, or throws. -/
abbrev Scans {α : Type} (source : Cursor α) : Prop := Obeys Ahead Halt.IsThrown source

/-- A scanning member that leaves at least one character behind if it returns. -/
abbrev Takes {α : Type} (source : Cursor α) : Prop :=
  Advances List.length Ahead Halt.IsThrown (fun _ => True) source

theorem ahead_bounded (before after : List DecodedChar) (ahead : Ahead before after) :
    after.length ≤ before.length :=
  List.IsSuffix.length_le ahead

theorem obeys_enforceTokenSize {σ : Type} {relation : σ → σ → Prop} [Std.Refl relation]
    (p : Parser) (size : Nat) (start : SourceLocation) :
    Obeys relation Halt.IsThrown (p.enforceTokenSize size start : Comp σ Halt Unit) :=
  obeys_ite (fun _ => obeys_failAt _ _ _) fun _ => obeys_pure _

theorem Buffers.scans_whileLoop {β : Type} {condition : List DecodedChar → Bool}
    {body : β → Cursor β} {push : β → Nat → β} {Fits : β → Prop}
    (buffers : Buffers body push Fits) (stops : condition [] = false)
    (round : ∀ current, Scans (body current)) (start : β) :
    Scans (whileLoop List.length .outOfFuel condition body start) :=
  obeys_whileLoop (buffers.consumes stops) round start

namespace Parser

variable (p : Parser)

theorem scans_fail {α : Type} (kind : ErrorKind) (message : String) :
    Scans (p.fail kind message : Cursor α) :=
  obeys_bind (obeys_read _) fun _ => obeys_failAt _ _ _

theorem scans_advance : Scans p.advance := by
  refine obeys_bind (obeys_read _) fun atEnd => obeys_ite (fun _ => p.scans_fail _ _) fun _ => ?_
  exact obeys_modify List.tail_suffix

theorem scans_expect (value : Nat) (description : String) :
    Scans (p.expect value description) :=
  obeys_bind (obeys_read _) fun _ =>
    obeys_ite (fun _ => p.scans_fail _ _) fun _ => p.scans_advance

theorem scans_drop (count : Nat) : Scans (Comp.modify (List.drop count)) :=
  obeys_modify (List.drop_suffix count)

theorem scans_expectSequence (text : List Nat) (description : String) :
    Scans (p.expectSequence text description) :=
  obeys_bind (obeys_read _) fun _ =>
    obeys_ite (fun _ => p.scans_fail _ _) fun _ => scans_drop _

theorem scans_appendPeek (start : SourceLocation) (text : Bytes) :
    Scans (p.appendPeek start text) :=
  obeys_bind (obeys_read _) fun _ => obeys_bind (obeys_enforceTokenSize _ _ _) fun _ =>
    obeys_bind p.scans_advance fun _ => obeys_pure _

theorem scans_pushPeek (start : SourceLocation) (buffer : List Nat) :
    Scans (p.pushPeek start buffer) :=
  obeys_bind (obeys_read _) fun _ => obeys_bind (obeys_enforceTokenSize _ _ _) fun _ =>
    obeys_bind p.scans_advance fun _ => obeys_pure _

theorem scans_takePeek (text : Bytes) : Scans (p.takePeek text) :=
  obeys_bind (obeys_read _) fun _ => obeys_bind p.scans_advance fun _ => obeys_pure _

theorem scans_skipWhitespace : Scans p.skipWhitespace :=
  p.advance_buffers.scans_whileLoop rfl (fun _ => p.scans_advance) ()

theorem scans_whilePushing (condition : Nat → Bool) (start : SourceLocation) :
    Scans (whilePeek condition (p.pushPeek start) []) :=
  (p.pushPeek_buffers start).scans_whileLoop rfl (p.scans_pushPeek start) []

theorem scans_whileTaking (condition : Nat → Bool) : Scans (whilePeek condition p.takePeek []) :=
  p.takePeek_buffers.scans_whileLoop rfl p.scans_takePeek []

theorem scans_whileNotAt (stop : List Nat) (start : SourceLocation) :
    Scans (whileNotAt stop (p.appendPeek start) []) :=
  (p.appendPeek_buffers start).scans_whileLoop rfl (p.scans_appendPeek start) []

theorem scans_parseName : Scans p.parseName := by
  refine obeys_bind (obeys_read _) fun start => obeys_bind (obeys_read _) fun next => ?_
  refine obeys_ite (fun _ => p.scans_fail _ _) fun _ => ?_
  exact obeys_bind (p.scans_whilePushing _ start) fun _ => obeys_pure _

theorem scans_parseQuotedLiteral : Scans p.parseQuotedLiteral := by
  refine obeys_bind (obeys_read _) fun quote => obeys_ite (fun _ => p.scans_fail _ _) fun _ => ?_
  refine obeys_bind p.scans_advance fun _ => obeys_bind (p.scans_whileTaking _) fun value => ?_
  exact obeys_bind (p.scans_expect _ _) fun _ => obeys_pure _

theorem scans_parseXmlDeclarationIfPresent : Scans p.parseXmlDeclarationIfPresent := by
  refine obeys_bind (obeys_read _) fun _ => obeys_bind (obeys_read _) fun _ => ?_
  refine obeys_ite (fun _ => obeys_pure _) fun _ => obeys_bind (obeys_read _) fun start => ?_
  refine obeys_bind (p.scans_expectSequence _ _) fun _ => obeys_bind (obeys_read _) fun _ => ?_
  refine obeys_ite (fun _ => p.scans_fail _ _) fun _ => ?_
  refine obeys_bind (p.scans_whileNotAt _ start) fun declaration => ?_
  refine obeys_bind (p.scans_expectSequence _ _) fun _ => ?_
  refine obeys_ite (fun _ => obeys_failAt _ _ _) fun _ => ?_
  exact obeys_ite (fun _ => obeys_failAt _ _ _) fun _ => obeys_pure _

theorem scans_commentRound (start : SourceLocation) (text : Bytes) :
    Scans (p.commentRound start text) := by
  refine obeys_bind (obeys_read _) fun _ => obeys_ite (fun _ => obeys_failAt _ _ _) fun _ => ?_
  refine obeys_bind (obeys_read _) fun _ => obeys_ite (fun _ => ?_) fun _ => ?_
  · exact obeys_bind (p.scans_expectSequence _ _) fun _ => obeys_pure _
  · refine obeys_bind (obeys_read _) fun _ => obeys_ite (fun _ => p.scans_fail _ _) fun _ => ?_
    exact obeys_bind (p.scans_appendPeek _ _) fun _ => obeys_pure _

theorem scans_cdataRound (start : SourceLocation) (text : Bytes) :
    Scans (p.cdataRound start text) := by
  refine obeys_bind (obeys_read _) fun _ => obeys_ite (fun _ => obeys_failAt _ _ _) fun _ => ?_
  refine obeys_bind (obeys_read _) fun _ => obeys_ite (fun _ => ?_) fun _ => ?_
  · exact obeys_bind (p.scans_expectSequence _ _) fun _ => obeys_pure _
  · exact obeys_bind (p.scans_appendPeek _ _) fun _ => obeys_pure _

/-! What takes at least one character. -/

theorem takes_advance : Takes p.advance := by
  refine ⟨p.scans_advance, ?_⟩
  intro rest value final returned _
  cases rest with
  | nil => cases returned
  | cons c rest =>
      cases returned
      exact Nat.lt_succ_self _

theorem takes_expect (value : Nat) (description : String) :
    Takes (p.expect value description) := by
  refine ⟨p.scans_expect value description, ?_⟩
  intro rest result final returned _
  obtain ⟨c, _, rfl⟩ := p.expect_eq_ok_iff.mp returned
  exact Nat.lt_succ_self _

theorem takes_expectSequence {text : List Nat} (nonempty : text ≠ []) (description : String) :
    Takes (p.expectSequence text description) := by
  refine ⟨p.scans_expectSequence text description, ?_⟩
  intro rest result final returned _
  obtain ⟨consumed, rfl, rfl⟩ := p.expectSequence_eq_ok_iff.mp returned
  have positive : 0 < consumed.length := List.length_pos_of_ne_nil fun empty => by
    rw [empty] at nonempty
    exact nonempty rfl
  rw [List.length_append]
  omega

theorem takes_parseName : Takes p.parseName := by
  refine ⟨p.scans_parseName, ?_⟩
  intro rest name final returned _
  obtain ⟨consumed, rfl, named, _⟩ := p.parseName_eq_ok_iff.mp returned
  cases consumed with
  | nil => cases named
  | cons c consumed =>
      rw [List.length_append, List.length_cons]
      omega

theorem takes_takePeek (text : Bytes) : Takes (p.takePeek text) :=
  advances_bind_right ahead_bounded (obeys_read _) fun _ =>
    advances_bind ahead_bounded p.takes_advance fun _ => obeys_pure _

theorem takes_scanComment : Takes p.scanComment := by
  refine advances_bind_right ahead_bounded (obeys_read _) fun start => ?_
  refine advances_bind ahead_bounded (p.takes_expectSequence (by decide) _) fun _ => ?_
  exact obeys_loop (p.commentRound_scans start).shrinks (p.scans_commentRound start) []

theorem takes_scanCdata : Takes p.scanCdata := by
  refine advances_bind_right ahead_bounded (obeys_read _) fun start => ?_
  refine advances_bind ahead_bounded (p.takes_expectSequence (by decide) _) fun _ => ?_
  exact obeys_loop (p.cdataRound_scans start).shrinks (p.scans_cdataRound start) []

theorem takes_scanProcessingInstruction : Takes p.scanProcessingInstruction := by
  refine advances_bind_right ahead_bounded (obeys_read _) fun start => ?_
  refine advances_bind ahead_bounded (p.takes_expectSequence (by decide) _) fun _ => ?_
  refine obeys_bind p.scans_parseName fun target => ?_
  refine obeys_ite (fun _ => obeys_failAt _ _ _) fun _ => ?_
  refine obeys_bind p.scans_skipWhitespace fun _ => ?_
  refine obeys_bind (p.scans_whileNotAt _ start) fun data => ?_
  exact obeys_bind (p.scans_expectSequence _ _) fun _ => obeys_pure _

end Parser

/-! ## References and declarations -/

/-- A legal text in the encoding of the strings. -/
def Encoded (version : XmlVersion) (bytes : Bytes) : Prop :=
  ∃ text, bytes = utf8 text ∧ Legal version text

/-- The characters still to be read and the replacement texts are legal. -/
structure Sound (version : XmlVersion) (s : ParserState) : Prop where
  rest : Legal version (values s.rest)
  entities : ∀ entry ∈ s.dtd.entities, Encoded version entry.2

/-- The parser moves ahead; its stacks stay, and nothing is called. -/
structure Still (s t : ParserState) : Prop where
  rest : Ahead s.rest t.rest
  elementStack : t.elementStack = s.elementStack
  elementNameStack : t.elementNameStack = s.elementNameStack
  namespaceScopes : t.namespaceScopes = s.namespaceScopes
  validationStack : t.validationStack = s.validationStack
  trace : t.trace = s.trace
  reported : t.reported = s.reported

theorem Still.refl (s : ParserState) : Still s s :=
  ⟨List.suffix_rfl, rfl, rfl, rfl, rfl, rfl, rfl⟩

theorem Still.trans {r s t : ParserState} (first : Still r s) (second : Still s t) : Still r t where
  rest := second.rest.trans first.rest
  elementStack := second.elementStack.trans first.elementStack
  elementNameStack := second.elementNameStack.trans first.elementNameStack
  namespaceScopes := second.namespaceScopes.trans first.namespaceScopes
  validationStack := second.validationStack.trans first.validationStack
  trace := second.trace.trans first.trace
  reported := second.reported.trans first.reported

/-- The replacement texts stay legal, too. -/
structure Quiet (version : XmlVersion) (s t : ParserState) : Prop extends Still s t where
  sound : Sound version s → Sound version t

instance {version : XmlVersion} : Std.Refl (Quiet version) := ⟨fun s => ⟨Still.refl s, id⟩⟩

instance {version : XmlVersion} : IsTrans ParserState (Quiet version) :=
  ⟨fun _ _ _ first second =>
    ⟨first.toStill.trans second.toStill, fun sound => second.sound (first.sound sound)⟩⟩

/-- At most the entities with one replacement text are entered. -/
structure Entering (replacement : Bytes) (s t : ParserState) : Prop extends Still s t where
  entities : ∀ entry ∈ t.dtd.entities, entry ∈ s.dtd.entities ∨ entry.2 = replacement

instance {replacement : Bytes} : Std.Refl (Entering replacement) :=
  ⟨fun s => ⟨Still.refl s, fun _ => .inl⟩⟩

instance {replacement : Bytes} : IsTrans ParserState (Entering replacement) :=
  ⟨fun _ _ _ first second =>
    ⟨first.toStill.trans second.toStill, fun entry member =>
      (second.entities entry member).elim (first.entities entry) .inr⟩⟩

theorem Sound.ahead {version : XmlVersion} {s t : ParserState} (sound : Sound version s)
    (ahead : Ahead s.rest t.rest) (same : t.dtd.entities = s.dtd.entities) : Sound version t := by
  refine ⟨fun c member => sound.rest c ?_, ?_⟩
  · exact (ahead.map DecodedChar.value).subset member
  · rw [same]
    exact sound.entities

/-- The members that only move ahead and count. -/
abbrev Parser.Quietly (p : Parser) {α : Type} (source : ParserM α) : Prop :=
  Obeys (Quiet p.options.version) Halt.IsThrown source

/-- The same for members that have moved ahead when they return. -/
abbrev Parser.Strictly (p : Parser) {α : Type} (source : ParserM α) : Prop :=
  Advances (fun s : ParserState => s.rest.length) (Quiet p.options.version) Halt.IsThrown
    (fun _ => True) source

/-- The same for rounds that have moved ahead when they ask for another one. -/
abbrev Parser.StrictRound (p : Parser) {β γ : Type} (source : ParserM (LoopStep β γ)) : Prop :=
  Advances (fun s : ParserState => s.rest.length) (Quiet p.options.version) Halt.IsThrown
    LoopStep.Again source

theorem quiet_bounded {version : XmlVersion} (s t : ParserState) (quiet : Quiet version s t) :
    t.rest.length ≤ s.rest.length :=
  ahead_bounded _ _ quiet.rest

namespace Parser

variable (p : Parser)

theorem quietly_scan {α : Type} {source : Cursor α} (scans : Scans source) :
    p.Quietly (scan source) := by
  refine obeys_onPart scans fun s rest ahead => ?_
  exact ⟨⟨ahead, rfl, rfl, rfl, rfl, rfl, rfl⟩, fun sound => sound.ahead ahead rfl⟩

theorem strictly_scan {α : Type} {source : Cursor α} (takes : Takes source) :
    p.Strictly (scan source) := by
  refine ⟨p.quietly_scan takes.obeys, ?_⟩
  intro s value final returned _
  obtain ⟨rest, ran, rfl⟩ := run_onPart_eq_iff.mp returned
  exact takes.progresses s.rest value rest ran trivial

theorem quietly_look {α : Type} (view : List DecodedChar → α) : p.Quietly (look view) :=
  obeys_read _

theorem quietly_failHere {α : Type} (kind : ErrorKind) (message : String) :
    p.Quietly (p.failHere kind message : ParserM α) :=
  obeys_bind (obeys_read _) fun _ => obeys_failAt _ _ _

theorem failHere_strict {β γ : Type} (kind : ErrorKind) (message : String) :
    p.StrictRound (p.failHere kind message : ParserM (LoopStep β γ)) :=
  advances_bind_right quiet_bounded (p.quietly_look _) fun _ => advances_throw (isThrown_thrown _)

/-- Counting and resolving throw nothing but exceptions. -/
abbrev Counts {α : Type} (source : Comp Nat Halt α) : Prop :=
  Obeys (fun before after => before ≤ after) Halt.IsThrown source

theorem quietly_counting {α : Type} {source : Comp Nat Halt α} (counts : Counts source) :
    p.Quietly (counting source) :=
  obeys_onPart counts fun _ _ _ =>
    ⟨⟨List.suffix_rfl, rfl, rfl, rfl, rfl, rfl, rfl⟩, fun sound => sound.ahead List.suffix_rfl rfl⟩

theorem counts_countExpansion (start : SourceLocation) : Counts (p.countExpansion start) := by
  refine obeys_bind (obeys_modify Nat.le_succ) fun _ => obeys_bind (obeys_read _) fun _ => ?_
  exact obeys_ite (fun _ => obeys_failAt _ _ _) fun _ => obeys_pure _

theorem obeys_parseCharacterReference {σ : Type} {relation : σ → σ → Prop} [Std.Refl relation] (text : Bytes)
    (start : SourceLocation) :
    Obeys relation Halt.IsThrown (p.parseCharacterReference text start : Comp σ Halt Bytes) := by
  unfold parseCharacterReference
  refine obeys_ite (fun _ => obeys_failAt _ _ _) fun _ => ?_
  split
  · exact obeys_failAt _ _ _
  · exact obeys_ite (fun _ => obeys_failAt _ _ _) fun _ => obeys_pure _

theorem expandRound_shrinks (entities : List (Bytes × Bytes)) (start : SourceLocation)
    (nested : Bytes → Comp Nat Halt Bytes) :
    Shrinks (fun (current : Bytes × Bytes) (_ : Nat) => current.1.length)
      (p.expandRound entities start nested) := by
  intro current count following next ran
  obtain ⟨text, expanded⟩ := current
  cases text with
  | nil => cases ran
  | cons ch rest =>
      change Comp.run (if _ then _ else _) _ = _ at ran
      split at ran
      · cases ran
        exact Nat.lt_succ_self _
      · split at ran
        · cases ran
        · obtain ⟨_, _, _, ran⟩ := bind_eq_ok.mp ran
          obtain ⟨value, _, _, ran⟩ := bind_eq_ok.mp ran
          dsimp only at ran
          split at ran
          · cases ran
          · cases ran
            simp only [List.length_drop, List.length_cons]
            omega

theorem counts_expandReference (entities : List (Bytes × Bytes)) (start : SourceLocation)
    {nested : Bytes → Comp Nat Halt Bytes} (counts : ∀ text, Counts (nested text))
    (name : Bytes) : Counts (p.expandReference entities start nested name) := by
  unfold expandReference
  split
  · exact obeys_pure _
  · refine obeys_ite (fun _ => p.obeys_parseCharacterReference _ _) fun _ => ?_
    split
    · exact obeys_failAt _ _ _
    · exact counts _

theorem counts_expandRound (entities : List (Bytes × Bytes)) (start : SourceLocation)
    {nested : Bytes → Comp Nat Halt Bytes} (counts : ∀ text, Counts (nested text))
    (current : Bytes × Bytes) : Counts (p.expandRound entities start nested current) := by
  obtain ⟨text, expanded⟩ := current
  cases text with
  | nil => exact obeys_pure _
  | cons ch rest =>
      refine obeys_ite (fun _ => obeys_pure _) fun _ => ?_
      refine obeys_ite (fun _ => obeys_failAt _ _ _) fun _ => ?_
      refine obeys_bind (p.counts_countExpansion start) fun _ => ?_
      refine obeys_bind (p.counts_expandReference entities start counts _) fun value => ?_
      exact obeys_ite (fun _ => obeys_failAt _ _ _) fun _ => obeys_pure _

/-- The bound on the nesting is met before the fuel runs out. -/
theorem counts_expandEntityText (entities : List (Bytes × Bytes)) (start : SourceLocation)
    (fuel depth : Nat) (text : Bytes)
    (enough : p.options.maxEntityExpansions < depth + fuel) :
    Counts (p.expandEntityText entities start (fuel + 1) depth text) := by
  induction fuel generalizing depth text with
  | zero =>
      have deep : depth > p.options.maxEntityExpansions := by omega
      unfold expandEntityText
      rw [if_pos deep]
      exact obeys_failAt _ _ _
  | succ fuel ih =>
      unfold expandEntityText
      refine obeys_ite (fun _ => obeys_failAt _ _ _) fun _ => ?_
      refine obeys_loop (p.expandRound_shrinks entities start _) (fun current => ?_) _
      exact p.counts_expandRound entities start (fun text => ih (depth + 1) text (by omega)) current

theorem counts_resolveReference (entities : List (Bytes × Bytes)) (name : Bytes)
    (start : SourceLocation) : Counts (p.resolveReference entities name start) := by
  unfold resolveReference
  split
  · exact obeys_pure _
  · refine obeys_ite (fun _ => p.obeys_parseCharacterReference _ _) fun _ => ?_
    split
    · exact p.counts_expandEntityText entities start _ 0 _ (by omega)
    · exact obeys_ite (fun _ => obeys_failAt _ _ _) fun _ => obeys_failAt _ _ _

theorem strictly_parseReference : p.Strictly p.parseReference := by
  refine advances_bind_right quiet_bounded (p.quietly_look _) fun start => ?_
  refine advances_bind quiet_bounded (p.strictly_scan (p.takes_expect _ _)) fun _ => ?_
  refine obeys_bind (p.quietly_counting (p.counts_countExpansion start)) fun _ => ?_
  refine obeys_bind (p.quietly_scan (p.scans_whilePushing _ start)) fun name => ?_
  refine obeys_bind (p.quietly_scan (p.scans_expect _ _)) fun _ => ?_
  refine obeys_bind (obeys_read _) fun entities => ?_
  exact p.quietly_counting (p.counts_resolveReference _ _ _)

theorem strictly_takePiece (text : Bytes) : p.Strictly (p.takePiece text) := by
  refine advances_bind_right quiet_bounded (p.quietly_look _) fun next => ?_
  refine advances_ite (fun _ => ?_) fun _ => ?_
  · exact advances_bind quiet_bounded p.strictly_parseReference fun _ => obeys_pure _
  · exact p.strictly_scan (p.takes_takePeek text)

/-! ## The document type declaration -/

theorem quietly_modifyDtd {update : DtdState → DtdState}
    (same : ∀ dtd, (update dtd).entities = dtd.entities) : p.Quietly (modifyDtd update) :=
  obeys_modify fun _ =>
    ⟨⟨List.suffix_rfl, rfl, rfl, rfl, rfl, rfl, rfl⟩,
      fun sound => sound.ahead List.suffix_rfl (same _)⟩

theorem quietly_enforceDtdDeclarationLimit : p.Quietly p.enforceDtdDeclarationLimit := by
  refine obeys_bind (p.quietly_modifyDtd fun _ => rfl) fun _ => obeys_bind (obeys_read _) fun _ => ?_
  exact obeys_ite (fun _ => p.quietly_failHere _ _) fun _ => obeys_pure _

theorem quietly_declareElement (name model : Bytes) (location : SourceLocation) :
    p.Quietly (declareElement name model location) := by
  refine obeys_bind (obeys_read _) fun _ => obeys_ite (fun _ => obeys_failAt _ _ _) fun _ => ?_
  refine obeys_bind ?_ fun _ => p.quietly_modifyDtd fun _ => rfl
  unfold parseElementModel
  refine obeys_ite (fun _ => obeys_pure _) fun _ => obeys_ite (fun _ => obeys_pure _) fun _ => ?_
  refine obeys_ite (fun _ => obeys_pure _) fun _ => ?_
  exact obeys_ite (fun _ => obeys_pure _) fun _ => obeys_failAt _ _ _


theorem strictly_parseElementDeclaration : p.Strictly p.parseElementDeclaration := by
  refine advances_bind_right quiet_bounded (p.quietly_look _) fun start => ?_
  refine advances_bind_right quiet_bounded p.quietly_enforceDtdDeclarationLimit fun _ => ?_
  refine advances_bind quiet_bounded
    (p.strictly_scan (p.takes_expectSequence (by decide) _)) fun _ => ?_
  refine obeys_bind (p.quietly_look _) fun _ => obeys_ite (fun _ => p.quietly_failHere _ _) fun _ => ?_
  refine obeys_bind (p.quietly_scan p.scans_skipWhitespace) fun _ => ?_
  refine obeys_bind (p.quietly_scan p.scans_parseName) fun name => ?_
  refine obeys_bind (p.quietly_scan p.scans_skipWhitespace) fun _ => ?_
  refine obeys_bind (p.quietly_scan (p.scans_whileTaking _)) fun model => ?_
  refine obeys_bind (p.quietly_scan (p.scans_expect _ _)) fun _ => ?_
  exact p.quietly_declareElement _ _ _

/-- A literal of a sound text is a legal text. -/
theorem encoded_parseQuotedLiteral {version : XmlVersion} {rest final : List DecodedChar}
    {value : Bytes} (legal : Legal version (values rest))
    (returned : p.parseQuotedLiteral.run rest = (.ok value, final)) : Encoded version value := by
  obtain ⟨consumed, quote, body, rfl, spelled, _, _, rfl⟩ :=
    p.parseQuotedLiteral_eq_ok_iff.mp returned
  refine ⟨body, rfl, fun c member => legal c ?_⟩
  rw [values_append, spelled]
  simp [member]

theorem enterEntity_obeys (name replacement : Bytes) (start : SourceLocation) :
    Obeys (Entering replacement) Halt.IsThrown (p.enterEntity name replacement start) := by
  have scanned : ∀ {source : Cursor Unit}, Scans source →
      Obeys (Entering replacement) Halt.IsThrown (scan source) := fun scans =>
    obeys_onPart scans fun s rest ahead => ⟨⟨ahead, rfl, rfl, rfl, rfl, rfl, rfl⟩, fun _ => .inl⟩
  refine obeys_ite (fun _ => obeys_failAt _ _ _) fun _ => ?_
  refine obeys_bind (scanned p.scans_skipWhitespace) fun _ => ?_
  refine obeys_bind (scanned (p.scans_expect _ _)) fun _ => ?_
  refine obeys_bind (obeys_read _) fun _ => obeys_ite (fun _ => obeys_failAt _ _ _) fun _ => ?_
  refine obeys_modify fun s => ⟨⟨List.suffix_rfl, rfl, rfl, rfl, rfl, rfl, rfl⟩, fun entry member => ?_⟩
  cases List.mem_append.mp member with
  | inl old => exact .inl old
  | inr new =>
      rw [List.mem_singleton.mp new]
      exact .inr rfl

theorem quietly_readEntity (name : Bytes) (start : SourceLocation) :
    p.Quietly (scan p.parseQuotedLiteral >>= fun replacement => p.enterEntity name replacement start) := by
  refine obeys_bind_of_run (p.quietly_scan p.scans_parseQuotedLiteral) ?_
  intro s replacement next read
  have first := (p.quietly_scan p.scans_parseQuotedLiteral).of_run read
  obtain ⟨entered, thrown⟩ := p.enterEntity_obeys name replacement start next
  refine ⟨⟨first.toStill.trans entered.toStill, fun sound => ⟨fun c member => ?_, ?_⟩⟩, thrown⟩
  · exact sound.rest c (((first.toStill.trans entered.toStill).rest.map _).subset member)
  · intro entry member
    cases entered.entities entry member with
    | inl old => exact (first.sound sound).entities entry old
    | inr same =>
        obtain ⟨rest, ran, _⟩ := run_onPart_eq_iff.mp read
        rw [same]
        exact p.encoded_parseQuotedLiteral sound.rest ran

theorem strictly_parseEntityDeclaration : p.Strictly p.parseEntityDeclaration := by
  refine advances_bind_right quiet_bounded (p.quietly_look _) fun start => ?_
  refine advances_bind_right quiet_bounded p.quietly_enforceDtdDeclarationLimit fun _ => ?_
  refine advances_bind quiet_bounded
    (p.strictly_scan (p.takes_expectSequence (by decide) _)) fun _ => ?_
  refine obeys_bind (p.quietly_look _) fun _ => obeys_ite (fun _ => p.quietly_failHere _ _) fun _ => ?_
  refine obeys_bind (p.quietly_scan p.scans_skipWhitespace) fun _ => ?_
  refine obeys_bind (p.quietly_look _) fun _ => obeys_ite (fun _ => p.quietly_failHere _ _) fun _ => ?_
  refine obeys_bind (p.quietly_scan p.scans_parseName) fun name => ?_
  refine obeys_bind (p.quietly_scan p.scans_skipWhitespace) fun _ => ?_
  exact p.quietly_readEntity name start


theorem internalSubsetRound_strict (current : Unit) :
    p.StrictRound (p.internalSubsetRound current) := by
  have again : ∀ source : ParserM Unit, p.Strictly source →
      p.StrictRound (source >>= fun _ => pure (.next ()) : ParserM (LoopStep Unit Unit)) :=
    fun _ strictly => advances_bind quiet_bounded strictly fun _ => obeys_pure _
  refine advances_bind_right quiet_bounded (p.quietly_look _) fun _ => ?_
  refine advances_ite (fun _ => p.failHere_strict _ _) fun _ => ?_
  refine advances_bind_right quiet_bounded (p.quietly_scan p.scans_skipWhitespace) fun _ => ?_
  refine advances_bind_right quiet_bounded (p.quietly_look _) fun _ => ?_
  refine advances_ite (fun _ => advances_pure (LoopStep.not_again_done ())) fun _ => ?_
  refine advances_bind_right quiet_bounded (p.quietly_look _) fun _ => advances_ite (fun _ => ?_) fun _ => ?_
  · exact advances_bind quiet_bounded (p.strictly_scan p.takes_scanComment) fun _ => obeys_pure _
  refine advances_bind_right quiet_bounded (p.quietly_look _) fun _ => advances_ite (fun _ => ?_) fun _ => ?_
  · exact again _ p.strictly_parseElementDeclaration
  refine advances_bind_right quiet_bounded (p.quietly_look _) fun _ => advances_ite (fun _ => ?_) fun _ => ?_
  · exact again _ p.strictly_parseEntityDeclaration
  · exact p.failHere_strict _ _

theorem quietly_parseInternalSubset : p.Quietly p.parseInternalSubset :=
  obeys_loop_of_advances p.internalSubsetRound_strict ()

theorem quietly_parseExternalElementDeclaration (declaration : Bytes) :
    p.Quietly (p.parseExternalElementDeclaration declaration) := by
  refine obeys_bind p.quietly_enforceDtdDeclarationLimit fun _ => ?_
  refine obeys_ite (fun _ => p.quietly_failHere _ _) fun _ => ?_
  exact obeys_bind (p.quietly_look _) fun _ => p.quietly_declareElement _ _ _

theorem quietly_externalSubsetRound (subset : Bytes) : p.Quietly (p.externalSubsetRound subset) := by
  refine obeys_ite (fun _ => obeys_pure _) fun _ => obeys_ite (fun _ => ?_) fun _ => ?_
  · refine obeys_ite (fun _ => p.quietly_failHere _ _) fun _ => ?_
    exact obeys_bind (p.quietly_parseExternalElementDeclaration _) fun _ => obeys_pure _
  · exact p.quietly_failHere _ _

theorem externalSubsetRound_shrinks :
    Shrinks (fun (rest : Bytes) (_ : ParserState) => rest.length) p.externalSubsetRound := by
  intro subset s following next ran
  have shorter := (List.dropWhile_suffix isAsciiSpace (l := subset)).length_le
  unfold externalSubsetRound at ran
  dsimp only at ran
  split at ran
  · cases ran
  · rename_i nonempty
    split at ran
    · split at ran
      · cases ran
      · obtain ⟨_, _, _, ran⟩ := bind_eq_ok.mp ran
        cases ran
        rw [List.isEmpty_iff] at nonempty
        have positive := List.length_pos_of_ne_nil nonempty
        dsimp only
        rw [List.length_drop]
        omega
    · cases ran

theorem quietly_parseExternalSubsetText (subset : Bytes) :
    p.Quietly (p.parseExternalSubsetText subset) :=
  obeys_loop p.externalSubsetRound_shrinks p.quietly_externalSubsetRound subset

theorem quietly_resolveExternalSubsetIfNeeded : p.Quietly p.resolveExternalSubsetIfNeeded := by
  refine obeys_bind (obeys_read _) fun dtd => obeys_ite (fun _ => obeys_pure _) fun _ => ?_
  split
  · split
    · exact obeys_throw (isThrown_thrown _)
    · refine obeys_ite (fun _ => p.quietly_failHere _ _) fun _ => ?_
      exact p.quietly_parseExternalSubsetText _
  · exact p.quietly_failHere _ _

theorem quietly_parseExternalId : p.Quietly p.parseExternalId := by
  have skip := p.quietly_scan p.scans_skipWhitespace
  have read := p.quietly_scan p.scans_parseQuotedLiteral
  refine obeys_bind (p.quietly_look _) fun _ => obeys_ite (fun _ => ?_) fun _ => ?_
  · refine obeys_bind (p.quietly_scan (scans_drop _)) fun _ => obeys_bind skip fun _ => ?_
    refine obeys_bind read fun _ => obeys_bind (p.quietly_modifyDtd fun _ => rfl) fun _ => skip
  · refine obeys_bind (p.quietly_look _) fun _ => obeys_ite (fun _ => ?_) fun _ => obeys_pure _
    refine obeys_bind (p.quietly_scan (scans_drop _)) fun _ => obeys_bind skip fun _ => ?_
    refine obeys_bind read fun _ => obeys_bind skip fun _ => obeys_bind read fun _ => ?_
    exact obeys_bind (p.quietly_modifyDtd fun _ => rfl) fun _ => skip

theorem quietly_parseBracketedSubset : p.Quietly p.parseBracketedSubset := by
  refine obeys_bind (p.quietly_look _) fun _ => obeys_ite (fun _ => ?_) fun _ => obeys_pure _
  refine obeys_bind (p.quietly_scan p.scans_advance) fun _ => ?_
  refine obeys_bind p.quietly_parseInternalSubset fun _ => ?_
  refine obeys_bind (p.quietly_scan (p.scans_expect _ _)) fun _ => ?_
  exact p.quietly_scan p.scans_skipWhitespace

theorem quietly_parseDoctypeIfPresent : p.Quietly p.parseDoctypeIfPresent := by
  refine obeys_bind (p.quietly_look _) fun _ => obeys_ite (fun _ => obeys_pure _) fun _ => ?_
  refine obeys_bind (p.quietly_modifyDtd fun _ => rfl) fun _ => ?_
  refine obeys_bind (p.quietly_scan (p.scans_expectSequence _ _)) fun _ => ?_
  refine obeys_bind (p.quietly_look _) fun _ => obeys_ite (fun _ => p.quietly_failHere _ _) fun _ => ?_
  refine obeys_bind (p.quietly_scan p.scans_skipWhitespace) fun _ => ?_
  refine obeys_bind (p.quietly_scan p.scans_parseName) fun rootName => ?_
  refine obeys_bind (p.quietly_modifyDtd fun _ => rfl) fun _ => ?_
  refine obeys_bind (p.quietly_scan p.scans_skipWhitespace) fun _ => ?_
  refine obeys_bind p.quietly_parseExternalId fun _ => ?_
  refine obeys_bind p.quietly_parseBracketedSubset fun _ => ?_
  refine obeys_bind (p.quietly_scan (p.scans_expect _ _)) fun _ => ?_
  exact p.quietly_resolveExternalSubsetIfNeeded


/-! ## Attributes -/

theorem attributeValueRound_strict (start : SourceLocation) (quote : Nat) (value : Bytes) :
    p.StrictRound (p.attributeValueRound start quote value) := by
  refine advances_bind_right quiet_bounded (p.quietly_look _) fun _ => ?_
  refine advances_bind_right quiet_bounded (p.quietly_look _) fun _ => advances_ite (fun _ => ?_) fun _ => ?_
  · exact advances_bind_right quiet_bounded (p.quietly_scan (p.scans_expect _ _)) fun _ =>
      advances_pure (LoopStep.not_again_done value)
  refine advances_bind_right quiet_bounded (p.quietly_look _) fun _ => ?_
  refine advances_ite (fun _ => p.failHere_strict _ _) fun _ => ?_
  refine advances_bind quiet_bounded (p.strictly_takePiece value) fun _ => ?_
  exact obeys_bind (obeys_enforceTokenSize _ _ _) fun _ => obeys_pure _

theorem quietly_parseAttributeValue : p.Quietly p.parseAttributeValue := by
  refine obeys_bind (p.quietly_look _) fun start => obeys_bind (p.quietly_look _) fun quote => ?_
  refine obeys_ite (fun _ => p.quietly_failHere _ _) fun _ => ?_
  refine obeys_bind (p.quietly_scan p.scans_advance) fun _ => ?_
  exact obeys_loop_of_advances (p.attributeValueRound_strict start quote) []

theorem attributesRound_strict (attributes : List RawAttribute) :
    p.StrictRound (p.attributesRound attributes) := by
  refine advances_bind_right quiet_bounded (p.quietly_scan p.scans_skipWhitespace) fun _ => ?_
  refine advances_bind_right quiet_bounded (p.quietly_look _) fun _ => ?_
  refine advances_bind_right quiet_bounded (p.quietly_look _) fun _ => ?_
  refine advances_ite (fun _ => advances_pure (LoopStep.not_again_done attributes)) fun _ => ?_
  refine advances_bind_right quiet_bounded (p.quietly_look _) fun location => ?_
  refine advances_bind quiet_bounded (p.strictly_scan p.takes_parseName) fun name => ?_
  refine obeys_ite (fun _ => p.quietly_failHere _ _) fun _ => ?_
  refine obeys_ite (fun _ => p.quietly_failHere _ _) fun _ => ?_
  refine obeys_bind (p.quietly_scan p.scans_skipWhitespace) fun _ => ?_
  refine obeys_bind (p.quietly_scan (p.scans_expect _ _)) fun _ => ?_
  refine obeys_bind (p.quietly_scan p.scans_skipWhitespace) fun _ => ?_
  exact obeys_bind p.quietly_parseAttributeValue fun _ => obeys_pure _

theorem quietly_parseAttributes : p.Quietly p.parseAttributes :=
  obeys_loop_of_advances p.attributesRound_strict []

theorem textRound_strict (start : SourceLocation) (text : Bytes) :
    p.StrictRound (p.textRound start text) := by
  refine advances_bind_right quiet_bounded (p.quietly_look _) fun _ => ?_
  refine advances_bind_right quiet_bounded (p.quietly_look _) fun _ => ?_
  refine advances_ite (fun _ => advances_pure (LoopStep.not_again_done text)) fun _ => ?_
  refine advances_bind quiet_bounded (p.strictly_takePiece text) fun _ => ?_
  exact obeys_bind (obeys_enforceTokenSize _ _ _) fun _ => obeys_pure _

theorem obeys_resolveName {σ : Type} {relation : σ → σ → Prop} [Std.Refl relation]
    (scopes : List NamespaceScope) (qname : Bytes) (isElement : Bool)
    (location : SourceLocation) :
    Obeys relation Halt.IsThrown
      (p.resolveName scopes qname isElement location : Comp σ Halt QualifiedName) := by
  unfold resolveName
  refine obeys_ite (fun _ => obeys_pure _) fun _ => ?_
  split
  · exact obeys_pure _
  · refine obeys_ite (fun _ => obeys_failAt _ _ _) fun _ => ?_
    exact obeys_ite (fun _ => obeys_failAt _ _ _) fun _ => obeys_pure _

variable {p} in
/-- A resolved name is spelled as before. -/
theorem resolveName_qualifiedName {σ : Type} {scopes : List NamespaceScope} {qname : Bytes}
    {isElement : Bool} {location : SourceLocation} {s t : σ} {name : QualifiedName}
    (ran : (p.resolveName scopes qname isElement location).run s = (.ok name, t)) :
    name.qualifiedName = qname := by
  unfold resolveName at ran
  split at ran
  · cases ran
    rfl
  · split at ran
    · cases ran
      rfl
    · dsimp only at ran
      split at ran
      · cases ran
      · split at ran
        · cases ran
        · cases ran
          rfl

theorem obeys_attributeViews {σ : Type} {relation : σ → σ → Prop} [Std.Refl relation]
    [IsTrans σ relation] (scopes : List NamespaceScope) (attributes : List RawAttribute)
    (seen : List (Bytes × Bytes)) :
    Obeys relation Halt.IsThrown
      (p.attributeViews scopes attributes seen : Comp σ Halt (List AttributeView)) := by
  induction attributes generalizing seen with
  | nil => exact obeys_pure _
  | cons raw rest ih =>
      unfold attributeViews
      refine obeys_ite (fun _ => ih seen) fun _ => ?_
      refine obeys_bind (p.obeys_resolveName scopes raw.name false raw.location) fun name => ?_
      refine obeys_ite (fun _ => obeys_failAt _ _ _) fun _ => ?_
      exact obeys_bind (ih _) fun _ => obeys_pure _

end Parser

/-! ## Callbacks and elements -/

/-- The parser moves ahead and may call the handler. -/
structure Moves (version : XmlVersion) (s t : ParserState) : Prop where
  rest : Ahead s.rest t.rest
  trace : s.trace <+: t.trace
  sound : Sound version s → Sound version t

instance {version : XmlVersion} : Std.Refl (Moves version) :=
  ⟨fun _ => ⟨List.suffix_rfl, List.prefix_rfl, id⟩⟩

instance {version : XmlVersion} : IsTrans ParserState (Moves version) :=
  ⟨fun _ _ _ first second =>
    ⟨second.rest.trans first.rest, first.trace.trans second.trace,
      fun sound => second.sound (first.sound sound)⟩⟩

theorem moves_of_quiet {version : XmlVersion} (s t : ParserState) (quiet : Quiet version s t) :
    Moves version s t :=
  ⟨quiet.rest, quiet.trace ▸ List.prefix_rfl, quiet.sound⟩

theorem moves_bounded {version : XmlVersion} (s t : ParserState) (moves : Moves version s t) :
    t.rest.length ≤ s.rest.length :=
  ahead_bounded _ _ moves.rest

namespace Parser

variable (p : Parser)

abbrev Movingly {α : Type} (source : ParserM α) : Prop :=
  Obeys (Moves p.options.version) Halt.IsThrown source

abbrev MovesOn {α : Type} (source : ParserM α) : Prop :=
  Advances (fun s : ParserState => s.rest.length) (Moves p.options.version) Halt.IsThrown
    (fun _ => True) source

variable {p}

theorem Quietly.movingly {α : Type} {source : ParserM α} (quietly : p.Quietly source) :
    p.Movingly source :=
  Obeys.mono quietly moves_of_quiet fun _ => id

theorem Strictly.movesOn {α : Type} {source : ParserM α} (strictly : p.Strictly source) :
    p.MovesOn source :=
  Advances.mono strictly moves_of_quiet fun _ => id

variable (p)

theorem movingly_emit (event : Event) : p.Movingly (p.emit event) := by
  refine obeys_bind (obeys_modify fun s => ?_) fun _ => obeys_bind (obeys_read _) fun response => ?_
  · exact ⟨List.suffix_rfl, List.prefix_append _ _, fun sound => sound.ahead List.suffix_rfl rfl⟩
  · cases response with
    | none => exact obeys_pure _
    | some exception => exact obeys_throw (isThrown_thrown _)

theorem movesOn_parseComment : p.MovesOn p.parseComment :=
  advances_bind moves_bounded (Strictly.movesOn (p.strictly_scan p.takes_scanComment)) fun _ =>
    p.movingly_emit _

theorem movesOn_parseProcessingInstruction : p.MovesOn p.parseProcessingInstruction :=
  advances_bind moves_bounded
    (Strictly.movesOn (p.strictly_scan p.takes_scanProcessingInstruction)) fun _ => p.movingly_emit _

theorem movesOn_parseCdata : p.MovesOn p.parseCdata :=
  advances_bind moves_bounded (Strictly.movesOn (p.strictly_scan p.takes_scanCdata)) fun _ =>
    p.movingly_emit _

theorem skipMiscRound_movesOn (current : Unit) :
    Advances (fun s : ParserState => s.rest.length) (Moves p.options.version) Halt.IsThrown
      LoopStep.Again (p.skipMiscRound current) := by
  have skip := Quietly.movingly (p.quietly_scan p.scans_skipWhitespace)
  have again : ∀ source : ParserM Unit, p.MovesOn source →
      Advances (fun s : ParserState => s.rest.length) (Moves p.options.version) Halt.IsThrown
        LoopStep.Again (source >>= fun _ => pure (.next ()) : ParserM (LoopStep Unit Unit)) :=
    fun _ moves => advances_bind moves_bounded moves fun _ => obeys_pure _
  refine ⟨?_, ?_⟩
  · refine obeys_bind (obeys_read _) fun _ => obeys_bind skip fun _ => obeys_bind (obeys_read _) fun _ => ?_
    refine obeys_bind (obeys_read _) fun _ => obeys_ite (fun _ => (again _ p.movesOn_parseComment).obeys) fun _ => ?_
    refine obeys_bind (obeys_read _) fun _ =>
      obeys_ite (fun _ => (again _ p.movesOn_parseProcessingInstruction).obeys) fun _ => ?_
    exact obeys_ite (fun _ => obeys_pure _) fun _ => obeys_pure _
  · intro s step final returned isAgain
    simp only [skipMiscRound, look, run_read_bind] at returned
    obtain ⟨_, t, skipped, returned⟩ := bind_eq_ok.mp returned
    have before := moves_bounded _ _ (skip.of_run skipped)
    rw [run_read_bind, run_read_bind] at returned
    split at returned
    · have after := (again _ p.movesOn_parseComment).progresses _ _ _ returned isAgain
      exact Nat.lt_of_lt_of_le after before
    · rw [run_read_bind] at returned
      split at returned
      · have after := (again _ p.movesOn_parseProcessingInstruction).progresses _ _ _ returned isAgain
        exact Nat.lt_of_lt_of_le after before
      · split at returned
        · rename_i consumed
          cases returned
          simpa using consumed
        · cases returned
          exact absurd isAgain (LoopStep.not_again_done ())

theorem movingly_deliverText (text : Bytes) : p.Movingly (p.deliverText text) := by
  refine obeys_ite (fun _ => obeys_pure _) fun _ => obeys_bind (obeys_modify fun s => ?_) fun _ => p.movingly_emit _
  split
  · exact ⟨List.suffix_rfl, List.prefix_rfl, fun sound => sound.ahead List.suffix_rfl rfl⟩
  · exact ⟨List.suffix_rfl, List.prefix_rfl, id⟩

theorem movingly_parseText : p.Movingly p.parseText := by
  refine obeys_bind (obeys_read _) fun start => obeys_bind ?_ fun text => p.movingly_deliverText text
  exact Quietly.movingly (obeys_loop_of_advances (p.textRound_strict start) [])


theorem run_textRound_of_text {start : SourceLocation} {text : Bytes} {s : ParserState}
    (more : eof s.rest = false) (notTag : peek s.rest ≠ 0x3C) :
    (p.textRound start text).run s = (do
      let text ← p.takePiece text
      p.enforceTokenSize text.length start
      pure (.next text) : ParserM (LoopStep Bytes Bytes)).run s := by
  have test : (eof s.rest || peek s.rest == 0x3C) = false := by simp [more, notTag]
  simp only [textRound, look, run_read_bind, test, Bool.false_eq_true, if_false]

/-- In front of text, the text is not empty. -/
theorem parseText_progress {s final : ParserState} {result : Unit}
    (returned : p.parseText.run s = (.ok result, final)) (more : eof s.rest = false)
    (notTag : peek s.rest ≠ 0x3C) : final.rest.length < s.rest.length := by
  unfold parseText look at returned
  rw [run_read_bind] at returned
  obtain ⟨text, t, looped, delivered⟩ := bind_eq_ok.mp returned
  have strict := p.textRound_strict (p.location s.rest)
  have after := moves_bounded _ _ ((p.movingly_deliverText text).of_run delivered)
  rw [run_loop (shrinks_of_advances strict), run_textRound_of_text p more notTag] at looped
  cases ran : (do
      let text ← p.takePiece []
      p.enforceTokenSize text.length (p.location s.rest)
      pure (.next text) : ParserM (LoopStep Bytes Bytes)).run s with
  | mk outcome next =>
      rw [ran] at looped
      cases outcome with
      | error error => cases looped
      | ok step =>
          obtain ⟨piece, _, _, rest⟩ := bind_eq_ok.mp ran
          obtain ⟨_, _, _, rest⟩ := bind_eq_ok.mp rest
          cases rest
          rw [← run_textRound_of_text p more notTag] at ran
          have before := (strict []).progresses _ _ _ ran ⟨piece, rfl⟩
          have between := quiet_bounded _ _ ((obeys_loop_of_advances strict piece).of_run looped)
          omega

/-! Of the elements, only the movement: their other errors are excluded later. -/

abbrev Wanders {α : Type} (source : ParserM α) : Prop :=
  Obeys (Moves p.options.version) (fun _ => True) source

abbrev WandersOn {α : Type} (source : ParserM α) : Prop :=
  Advances (fun s : ParserState => s.rest.length) (Moves p.options.version) (fun _ => True)
    (fun _ => True) source

variable {p}

theorem Movingly.wanders {α : Type} {source : ParserM α} (movingly : p.Movingly source) :
    p.Wanders source :=
  Obeys.mono movingly (fun _ _ => id) fun _ _ => trivial

theorem MovesOn.wandersOn {α : Type} {source : ParserM α} (moves : p.MovesOn source) :
    p.WandersOn source :=
  Advances.mono moves (fun _ _ => id) fun _ _ => trivial

theorem Strictly.wandersOn {α : Type} {source : ParserM α} (strictly : p.Strictly source) :
    p.WandersOn source :=
  MovesOn.wandersOn (Strictly.movesOn strictly)

theorem Quietly.wanders {α : Type} {source : ParserM α} (quietly : p.Quietly source) :
    p.Wanders source :=
  Movingly.wanders (Quietly.movingly quietly)

variable (p)

theorem wanders_topOf {α : Type} (stack : List α) : p.Wanders (topOf stack : ParserM α) := by
  cases stack with
  | nil => exact obeys_throw trivial
  | cons top rest => exact obeys_pure _

theorem wandersOn_parseEndTag (openName : Bytes) : p.WandersOn (p.parseEndTag openName) := by
  refine advances_bind_right moves_bounded (obeys_read _) fun endStart => ?_
  refine advances_bind moves_bounded
    (Strictly.wandersOn (p.strictly_scan (p.takes_expectSequence (by decide) _))) fun _ => ?_
  refine obeys_bind (Quietly.wanders (p.quietly_scan p.scans_parseName)) fun endName => ?_
  refine obeys_bind (Quietly.wanders (p.quietly_scan p.scans_skipWhitespace)) fun _ => ?_
  refine obeys_bind (Quietly.wanders (p.quietly_scan (p.scans_expect _ _))) fun _ => ?_
  refine obeys_ite (fun _ => obeys_throw trivial) fun _ => obeys_bind (obeys_read _) fun stack => ?_
  exact obeys_bind (p.wanders_topOf stack) fun top => Movingly.wanders (p.movingly_emit _)

theorem contentRound_wandersOn {element : ParserM Unit} (wanders : p.WandersOn element)
    (openName : Bytes) (current : Unit) :
    Advances (fun s : ParserState => s.rest.length) (Moves p.options.version) (fun _ => True)
      LoopStep.Again (p.contentRound element openName current) := by
  have again : ∀ source : ParserM Unit, p.WandersOn source →
      Advances (fun s : ParserState => s.rest.length) (Moves p.options.version) (fun _ => True)
        LoopStep.Again (source >>= fun _ => pure (.next ()) : ParserM (LoopStep Unit Unit)) :=
    fun _ moves => advances_bind moves_bounded moves fun _ => obeys_pure _
  have ended : ∀ source : ParserM Unit, p.WandersOn source →
      Advances (fun s : ParserState => s.rest.length) (Moves p.options.version) (fun _ => True)
        LoopStep.Again (source >>= fun _ => pure (.done ()) : ParserM (LoopStep Unit Unit)) :=
    fun _ moves => advances_bind moves_bounded moves fun _ => obeys_pure _
  have endTag := ended _ (p.wandersOn_parseEndTag openName)
  have comment := again _ (MovesOn.wandersOn p.movesOn_parseComment)
  have cdata := again _ (MovesOn.wandersOn p.movesOn_parseCdata)
  have instruction := again _ (MovesOn.wandersOn p.movesOn_parseProcessingInstruction)
  have child := again _ wanders
  refine ⟨?_, ?_⟩
  · refine obeys_bind (obeys_read _) fun _ => obeys_ite (fun _ => ?_) fun _ => ?_
    · exact Quietly.wanders (p.quietly_failHere _ _)
    refine obeys_bind (obeys_read _) fun _ => obeys_ite (fun _ => endTag.obeys) fun _ => ?_
    refine obeys_bind (obeys_read _) fun _ => obeys_ite (fun _ => comment.obeys) fun _ => ?_
    refine obeys_bind (obeys_read _) fun _ => obeys_ite (fun _ => cdata.obeys) fun _ => ?_
    refine obeys_bind (obeys_read _) fun _ => obeys_ite (fun _ => instruction.obeys) fun _ => ?_
    refine obeys_bind (obeys_read _) fun _ => obeys_ite (fun _ => child.obeys) fun _ => ?_
    exact obeys_bind (Movingly.wanders p.movingly_parseText) fun _ => obeys_pure _
  · intro s step final returned isAgain
    unfold contentRound look at returned
    rw [run_read_bind] at returned
    split at returned
    · cases returned
    rename_i more
    rw [run_read_bind] at returned
    split at returned
    · exact endTag.progresses s step final returned isAgain
    rw [run_read_bind] at returned
    split at returned
    · exact comment.progresses s step final returned isAgain
    rw [run_read_bind] at returned
    split at returned
    · exact cdata.progresses s step final returned isAgain
    rw [run_read_bind] at returned
    split at returned
    · exact instruction.progresses s step final returned isAgain
    rw [run_read_bind] at returned
    split at returned
    · exact child.progresses s step final returned isAgain
    rename_i notTag
    obtain ⟨_, t, parsed, returned⟩ := bind_eq_ok.mp returned
    cases returned
    exact p.parseText_progress parsed (by simpa using more) (by simpa using notTag)

theorem wanders_parseContent {element : ParserM Unit} (wanders : p.WandersOn element)
    (openName : Bytes) : p.Wanders (p.parseContent element openName) :=
  obeys_loop_of_advances (p.contentRound_wandersOn wanders openName) ()

theorem wanders_modify {update : ParserState → ParserState}
    (rest : ∀ s, (update s).rest = s.rest) (trace : ∀ s, (update s).trace = s.trace)
    (dtd : ∀ s, (update s).dtd = s.dtd) : p.Wanders (Comp.modify update) := by
  refine obeys_modify fun s => ?_
  have ahead : Ahead s.rest (update s).rest := rest s ▸ List.suffix_rfl
  exact ⟨ahead, trace s ▸ List.prefix_rfl, fun sound => sound.ahead ahead (congrArg _ (dtd s))⟩

theorem wanders_recoverableValidityError (location : SourceLocation) (message : String) :
    p.Wanders (p.recoverableValidityError location message) := by
  unfold recoverableValidityError
  split
  · exact obeys_throw trivial
  · refine obeys_bind (p.wanders_modify (fun _ => rfl) (fun _ => rfl) fun _ => rfl) fun _ => ?_
    refine obeys_bind (obeys_read _) fun response => ?_
    cases response with
    | none => exact obeys_pure _
    | some exception => exact obeys_throw trivial

theorem wanders_validateElement (frame : ValidationFrame) (location : SourceLocation) :
    p.Wanders (p.validateElement frame location) := by
  have reports := p.wanders_recoverableValidityError location
  refine obeys_bind (obeys_read _) fun s => obeys_ite (fun _ => obeys_pure _) fun _ => obeys_bind ?_ fun _ => ?_
  · exact obeys_bind (obeys_read _) fun s => obeys_ite (fun _ => reports _) fun _ => obeys_pure _
  · refine obeys_bind (obeys_read _) fun elements => ?_
    split
    · exact reports _
    · split
      · exact obeys_pure _
      · exact obeys_ite (fun _ => reports _) fun _ => obeys_pure _
      · exact obeys_ite (fun _ => reports _) fun _ => obeys_pure _
      · exact obeys_ite (fun _ => reports _) fun _ => obeys_pure _

theorem wanders_finishValidationFrame (location : SourceLocation) :
    p.Wanders (p.finishValidationFrame location) := by
  refine obeys_bind (obeys_read _) fun stack => obeys_bind (p.wanders_topOf stack) fun frame => ?_
  refine obeys_bind (p.wanders_modify (fun _ => rfl) (fun _ => rfl) fun _ => rfl) fun _ => ?_
  refine obeys_bind (p.wanders_validateElement frame location) fun _ => ?_
  exact p.wanders_modify (fun _ => rfl) (fun _ => rfl) fun _ => rfl

theorem wanders_popElement : p.Wanders popElement := by
  refine obeys_bind (obeys_read _) fun s => obeys_ite (fun _ => obeys_throw trivial) fun _ => ?_
  exact p.wanders_modify (fun _ => rfl) (fun _ => rfl) fun _ => rfl

theorem wandersOn_parseTagName (start : SourceLocation) : p.WandersOn (p.parseTagName start) := by
  refine advances_bind moves_bounded
    (Strictly.wandersOn (p.strictly_scan (p.takes_expect _ _))) fun _ => ?_
  refine obeys_bind (obeys_read _) fun next => obeys_ite (fun _ => obeys_throw trivial) fun _ => ?_
  refine obeys_bind (Quietly.wanders (p.quietly_scan p.scans_parseName)) fun name => ?_
  refine obeys_bind (obeys_read _) fun depth => ?_
  exact obeys_ite (fun _ => obeys_throw trivial) fun _ => obeys_pure _

theorem wanders_openElement (name : Bytes) (start : SourceLocation) :
    p.Wanders (p.openElement name start) := by
  refine obeys_bind (Quietly.wanders p.quietly_parseAttributes) fun attributes => ?_
  refine obeys_bind (p.wanders_modify (fun _ => rfl) (fun _ => rfl) fun _ => rfl) fun _ => ?_
  refine obeys_bind (obeys_read _) fun scopes => ?_
  refine obeys_bind (Quietly.wanders (p.obeys_resolveName scopes name true start)) fun elementName => ?_
  refine obeys_bind (Quietly.wanders (p.obeys_attributeViews scopes attributes [])) fun views => ?_
  refine obeys_bind (p.wanders_modify (fun _ => rfl) (fun _ => rfl) fun _ => rfl) fun _ => ?_
  exact obeys_bind (Movingly.wanders (p.movingly_emit _)) fun _ => obeys_pure _

theorem wanders_parseBody {element : ParserM Unit} (wanders : p.WandersOn element)
    (name : Bytes) (elementName : QualifiedName) :
    p.Wanders (p.parseBody element name elementName) := by
  refine obeys_bind (obeys_read _) fun empty => obeys_ite (fun _ => ?_) fun _ => ?_
  · exact obeys_bind (Quietly.wanders (p.quietly_scan (p.scans_expectSequence _ _))) fun _ =>
      Movingly.wanders (p.movingly_emit _)
  · exact obeys_bind (Quietly.wanders (p.quietly_scan (p.scans_expect _ _))) fun _ =>
      p.wanders_parseContent wanders name

theorem wandersOn_parseElement (fuel : Nat) : p.WandersOn (p.parseElement fuel) := by
  induction fuel with
  | zero => exact advances_throw trivial
  | succ fuel ih =>
      unfold parseElement
      refine advances_bind_right moves_bounded (obeys_read _) fun start => ?_
      refine advances_bind moves_bounded (p.wandersOn_parseTagName start) fun name => ?_
      refine obeys_bind (p.wanders_openElement name start) fun elementName => ?_
      refine obeys_bind (p.wanders_parseBody ih name elementName) fun _ => ?_
      exact obeys_bind (p.wanders_finishValidationFrame start) fun _ => p.wanders_popElement

/-- The rounds of the content of an element that parses its children so. -/
theorem contentRound_shrinks (fuel : Nat) (openName : Bytes) :
    Shrinks (fun (_ : Unit) (s : ParserState) => s.rest.length)
      (p.contentRound (p.parseElement fuel) openName) :=
  shrinks_of_advances (p.contentRound_wandersOn (p.wandersOn_parseElement fuel) openName)

end Parser

end XmlParser
