import XmlParser.Reading
import XmlParser.WellNested

/-! Every run ends by a return or by an exception: no recursion bound of the model
is too small, and no element is taken from an empty stack. -/

set_option autoImplicit false

namespace XmlParser

open XmlParser.Computation Comp

/-- The elements of these names are open, the other stacks are as deep as given,
and few enough characters are left. -/
structure Depths (names : List QualifiedName) (scopes frames bound : Nat) (s : ParserState) : Prop where
  elementNames : s.elementNameStack = names
  elements : s.elementStack.length = names.length
  scopes : s.namespaceScopes.length = scopes
  validation : s.validationStack.length = frames
  short : s.rest.length < bound

/-- Between two tags all stacks are equally deep. -/
abbrev Level (names : List QualifiedName) (bound : Nat) : ParserState → Prop :=
  Depths names names.length names.length bound

/-- What ends a run is an exception. -/
def Raised (halt : Halt) (_ : ParserState) : Prop := halt.IsThrown

namespace Parser

variable {p : Parser} {names : List QualifiedName} {bound : Nat}

/-- A member that closes what it opens. -/
abbrev Levels (names : List QualifiedName) (bound : Nat) {α : Type} (source : ParserM α) : Prop :=
  Triple (Level names bound) source (fun _ => Level names bound) Raised

theorem Quietly.levels {α : Type} {source : ParserM α} (quietly : p.Quietly source) :
    Levels names bound source := by
  intro s level
  constructor
  · intro value final ran
    have quiet := quietly.of_run ran
    exact
      { elementNames := quiet.elementNameStack.trans level.elementNames
        elements := (congrArg List.length quiet.elementStack).trans level.elements
        scopes := (congrArg List.length quiet.namespaceScopes).trans level.scopes
        validation := (congrArg List.length quiet.validationStack).trans level.validation
        short := Nat.lt_of_le_of_lt (quiet_bounded _ _ quiet) level.short }
  · intro halt final ran
    exact quietly.of_error ran

/-- A member that only looks at its arguments. -/
theorem levels_of_still {α : Type} {source : ParserM α} {holds : ParserState → Prop}
    (still : Obeys Eq Halt.IsThrown source) : Triple holds source (fun _ => holds) Raised := by
  intro s here
  constructor
  · intro value final ran
    have same : s = final := still.of_run ran
    exact same ▸ here
  · intro halt final ran
    exact still.of_error ran

theorem triple_raised {α : Type} {pre : ParserState → Prop} {post : α → ParserState → Prop}
    (kind : ErrorKind) (location : SourceLocation) (message : String) :
    Triple pre (failAt kind location message) post Raised :=
  triple_throw fun _ _ => isThrown_thrown _

theorem raised_failHere {α : Type} {pre : ParserState → Prop} {post : α → ParserState → Prop}
    (kind : ErrorKind) (message : String) : Triple pre (p.failHere kind message) post Raised :=
  triple_read_bind fun _ => triple_raised _ _ _

theorem levels_emit (event : Event) : Levels names bound (p.emit event) := by
  have called : Levels names bound (Comp.modify (ParserState.deliver event)) := by
    exact triple_modify fun s level =>
      ⟨level.elementNames, level.elements, level.scopes, level.validation, level.short⟩
  refine triple_bind called fun _ => triple_read_bind fun answer => ?_
  cases answer with
  | none => exact triple_pure fun _ level => level
  | some exception => exact triple_throw fun _ _ => isThrown_thrown _

theorem levels_parseComment : Levels names bound p.parseComment :=
  triple_bind (Quietly.levels (p.quietly_scan p.takes_scanComment.obeys)) fun _ => levels_emit _

theorem levels_parseCdata : Levels names bound p.parseCdata :=
  triple_bind (Quietly.levels (p.quietly_scan p.takes_scanCdata.obeys)) fun _ => levels_emit _

theorem levels_parseProcessingInstruction : Levels names bound p.parseProcessingInstruction :=
  triple_bind (Quietly.levels (p.quietly_scan p.takes_scanProcessingInstruction.obeys)) fun _ => levels_emit _

theorem levels_skipMisc : Levels names bound p.skipMisc := by
  have again : ∀ source : ParserM Unit, Levels names bound source →
      Triple (Level names bound) (source >>= fun _ => pure (.next ()) : ParserM (LoopStep Unit Unit))
        (RoundPost (fun _ => Level names bound) fun _ => Level names bound) Raised :=
    fun source levels => triple_bind levels fun _ => triple_pure fun _ level => level
  refine triple_loop_of_shrinks (fun _ => Level names bound) (shrinks_of_advances p.skipMiscRound_movesOn)
    (fun _ => ?_) ()
  refine triple_read_bind fun before => ?_
  refine triple_bind (Quietly.levels (p.quietly_scan p.scans_skipWhitespace)) fun _ => ?_
  refine triple_read_bind fun consumed => triple_read_bind fun comment => ?_
  refine triple_ite (fun _ => again _ levels_parseComment) fun _ => triple_read_bind fun instruction => ?_
  refine triple_ite (fun _ => again _ levels_parseProcessingInstruction) fun _ => ?_
  exact triple_ite (fun _ => triple_pure fun _ level => level) fun _ => triple_pure fun _ level => level

theorem levels_parseText : Levels names bound p.parseText := by
  have looped : ∀ start, p.Quietly
      (loop (fun _ s => s.rest.length) .outOfFuel (p.textRound start) [] : ParserM Bytes) :=
    fun start => obeys_loop_of_advances (p.textRound_strict start) []
  refine triple_read_bind fun start => triple_bind (Quietly.levels (looped start)) fun text => ?_
  refine triple_ite (fun _ => triple_pure fun _ level => level) fun _ => triple_bind ?_ fun _ => levels_emit _
  refine triple_modify fun s level => ?_
  split
  · exact ⟨level.elementNames, level.elements, level.scopes, (recordText_length _).trans level.validation,
      level.short⟩
  · exact level

/-! ## Elements -/

theorem levels_parseEndTag (openName : Bytes) (name : QualifiedName) :
    Levels (name :: names) bound (p.parseEndTag openName) := by
  refine triple_read_bind fun endStart => ?_
  refine triple_bind (Quietly.levels (p.quietly_scan (p.scans_expectSequence _ _))) fun _ => ?_
  refine triple_bind (Quietly.levels (p.quietly_scan p.scans_parseName)) fun endName => ?_
  refine triple_bind (Quietly.levels (p.quietly_scan p.scans_skipWhitespace)) fun _ => ?_
  refine triple_bind (Quietly.levels (p.quietly_scan (p.scans_expect _ _))) fun _ => ?_
  refine triple_ite (fun _ => triple_raised _ _ _) fun _ => ?_
  intro s level
  rw [run_read_bind, level.elementNames]
  exact levels_emit _ s level

theorem levels_parseContent {element : ParserM Unit}
    (levels : ∀ names, Levels names bound element)
    (shrinks : ∀ openName, Shrinks (fun (_ : Unit) (s : ParserState) => s.rest.length)
      (p.contentRound element openName)) (openName : Bytes) (name : QualifiedName) :
    Levels (name :: names) bound (p.parseContent element openName) := by
  have round : ∀ (source : ParserM Unit) (step : LoopStep Unit Unit), Levels (name :: names) bound source →
      Triple (Level (name :: names) bound) (source >>= fun _ => pure step)
        (RoundPost (fun _ => Level (name :: names) bound) fun _ => Level (name :: names) bound) Raised := by
    intro source step levels
    refine triple_bind levels fun _ => triple_pure fun _ level => ?_
    cases step with
    | next following => exact level
    | done result => exact level
  refine triple_loop_of_shrinks (fun _ => Level (name :: names) bound) (shrinks openName) (fun _ => ?_) ()
  refine triple_read_bind fun atEnd => triple_ite (fun _ => raised_failHere _ _) fun _ => ?_
  refine triple_read_bind fun closes => triple_ite (fun _ => round _ _ (levels_parseEndTag _ _)) fun _ => ?_
  refine triple_read_bind fun comment => triple_ite (fun _ => round _ _ levels_parseComment) fun _ => ?_
  refine triple_read_bind fun cdata => triple_ite (fun _ => round _ _ levels_parseCdata) fun _ => ?_
  refine triple_read_bind fun instruction =>
    triple_ite (fun _ => round _ _ levels_parseProcessingInstruction) fun _ => ?_
  refine triple_read_bind fun next => triple_ite (fun _ => round _ _ (levels _)) fun _ => ?_
  exact round _ _ levels_parseText

theorem levels_openElement (name : Bytes) (start : SourceLocation) :
    Triple (Level names bound) (p.openElement name start)
      (fun elementName => Level (elementName :: names) bound) Raised := by
  refine triple_bind (Quietly.levels p.quietly_parseAttributes) fun attributes => ?_
  have scopes : Triple (Level names bound) (pushScope (p.collectNamespaceDeclarations attributes))
      (fun _ => Depths names (names.length + 1) names.length bound) Raised :=
    triple_modify fun s level => ⟨level.elementNames, level.elements, congrArg (· + 1) level.scopes,
      level.validation, level.short⟩
  refine triple_bind scopes fun _ => triple_read_bind fun scopes => ?_
  refine triple_bind (levels_of_still (p.obeys_resolveName scopes name true start)) fun elementName => ?_
  refine triple_bind (levels_of_still (p.obeys_attributeViews scopes attributes [])) fun views => ?_
  have pushed : Triple (Depths names (names.length + 1) names.length bound) (pushElement name elementName)
      (fun _ => Level (elementName :: names) bound) Raised :=
    triple_modify fun s entered => ⟨congrArg (elementName :: ·) entered.elementNames,
      congrArg (· + 1) entered.elements, entered.scopes, congrArg (· + 1) entered.validation, entered.short⟩
  refine triple_bind pushed fun _ => triple_bind (levels_emit _) fun _ => ?_
  exact triple_pure fun _ level => level

theorem levels_validateElement {frames : Nat} (frame : ValidationFrame) (location : SourceLocation) :
    Triple (Depths names names.length frames bound) (p.validateElement frame location)
      (fun _ => Depths names names.length frames bound) Raised := by
  intro s depths
  constructor
  · intro value final ran
    have only : OnlyReports s final := (p.obeys_validateElement frame location).of_run ran
    unfold OnlyReports at only
    rw [only]
    exact ⟨depths.elementNames, depths.elements, depths.scopes, depths.validation, depths.short⟩
  · intro halt final ran
    exact (p.obeys_validateElement frame location).of_error ran

/-- The frame of the element is there to be taken. -/
theorem levels_finishValidationFrame (name : QualifiedName) (location : SourceLocation) :
    Triple (Level (name :: names) bound) (p.finishValidationFrame location)
      (fun _ => Depths (name :: names) (names.length + 1) names.length bound) Raised := by
  refine triple_read_bind_of_eq fun stack => ?_
  cases stack with
  | nil =>
      intro s here
      obtain ⟨level, empty⟩ := here
      have validation := level.validation
      rw [empty] at validation
      cases validation
  | cons frame others =>
      have taken : Triple (fun s => Level (name :: names) bound s ∧ s.validationStack = frame :: others)
          (Comp.modify fun s => { s with validationStack := s.validationStack.tail } : ParserM Unit)
          (fun _ => Depths (name :: names) (name :: names).length names.length bound) Raised := by
        refine triple_modify fun s here => ?_
        obtain ⟨level, _⟩ := here
        refine ⟨level.elementNames, level.elements, level.scopes, ?_, level.short⟩
        rw [List.length_tail, level.validation, List.length_cons, Nat.add_sub_cancel]
      have top : Triple (fun s => Level (name :: names) bound s ∧ s.validationStack = frame :: others)
          (topOf (frame :: others) : ParserM ValidationFrame)
          (fun _ s => Level (name :: names) bound s ∧ s.validationStack = frame :: others) Raised :=
        triple_pure fun _ here => here
      refine triple_bind top fun _ => triple_bind taken fun _ => triple_bind (levels_validateElement _ _) fun _ => ?_
      refine triple_modify fun s depths => ?_
      exact ⟨depths.elementNames, depths.elements, depths.scopes,
        (recordChild_length _ _).trans depths.validation, depths.short⟩

theorem levels_popElement (name : QualifiedName) :
    Triple (Depths (name :: names) (names.length + 1) names.length bound) popElement
      (fun _ => Level names bound) Raised := by
  refine triple_read_bind_of_eq fun state => triple_ite (fun empty => ?_) fun _ => ?_
  · intro s here
    obtain ⟨depths, rfl⟩ := here
    have scopes : s.namespaceScopes ≠ [] := List.ne_nil_of_length_eq_add_one depths.scopes
    have elements : s.elementStack ≠ [] := List.ne_nil_of_length_eq_add_one depths.elements
    simp [depths.elementNames, scopes, elements] at empty
  · refine triple_modify fun s here => ?_
    obtain ⟨depths, _⟩ := here
    refine ⟨?_, ?_, ?_, depths.validation, depths.short⟩
    · rw [depths.elementNames, List.tail_cons]
    · rw [List.length_tail, depths.elements, List.length_cons, Nat.add_sub_cancel]
    · rw [List.length_tail, depths.scopes, Nat.add_sub_cancel]

/-- Every element takes a character before a child of it is parsed. -/
theorem levels_parseElement (fuel : Nat) (names : List QualifiedName) :
    Levels names fuel (p.parseElement fuel) := by
  induction fuel generalizing names with
  | zero =>
      intro s level
      exact absurd level.short (Nat.not_lt_zero _)
  | succ fuel ih =>
      have tagName : ∀ start, Triple (Level names (fuel + 1)) (p.parseTagName start)
          (fun _ => Level names fuel) Raised := by
        intro start s level
        have quiet := Quietly.levels (p.quietly_parseTagName start) s level
        refine ⟨fun name final ran => ?_, quiet.2⟩
        have fewer := (p.wandersOn_parseTagName start).progresses s name final ran trivial
        exact { quiet.1 name final ran with
          short := Nat.lt_of_lt_of_le fewer (Nat.le_of_lt_succ level.short) }
      have close : ∀ name location,
          Triple (Level (name :: names) fuel) (p.finishValidationFrame location >>= fun _ => popElement)
            (fun _ => Level names (fuel + 1)) Raised := by
        intro name location
        have closes : Triple (Level (name :: names) fuel)
            (p.finishValidationFrame location >>= fun _ => popElement) (fun _ => Level names fuel) Raised :=
          triple_bind (levels_finishValidationFrame name location) fun _ => levels_popElement name
        refine closes.imp (fun _ level => level) (fun _ s level => ?_) fun _ _ raised => raised
        exact { level with short := Nat.lt_succ_of_lt level.short }
      refine triple_read_bind fun start => triple_bind (tagName start) fun name => ?_
      refine triple_bind (levels_openElement name start) fun elementName => ?_
      refine triple_bind ?_ fun _ => close elementName start
      refine triple_read_bind fun isEmpty => triple_ite (fun _ => ?_) fun _ => ?_
      · refine triple_bind (Quietly.levels (p.quietly_scan (p.scans_expectSequence _ _))) fun _ => ?_
        exact levels_emit _
      · refine triple_bind (Quietly.levels (p.quietly_scan (p.scans_expect _ _))) fun _ => ?_
        exact levels_parseContent ih (p.contentRound_shrinks fuel) name elementName

/-- The characters left when the document element begins bound its depth. -/
theorem raised_parse : Triple (Level [] bound) p.parse (fun _ _ => True) Raised := by
  have ends : ∀ fuel, Triple (Level [] fuel) (do
      p.skipMisc
      if !(← look eof) then
        p.failHere .wellFormedness "extra content after document element"
      else
        p.emit .endDocument) (fun _ _ => True) Raised := by
    intro fuel
    refine triple_bind levels_skipMisc fun _ => triple_read_bind fun atEnd => ?_
    refine triple_ite (fun _ => raised_failHere _ _) fun _ => ?_
    exact (levels_emit _).imp (fun _ level => level) (fun _ _ _ => trivial) fun _ _ raised => raised
  refine triple_bind (levels_emit _) fun _ => ?_
  refine triple_bind (Quietly.levels (p.quietly_scan p.scans_parseXmlDeclarationIfPresent)) fun _ => ?_
  refine triple_bind levels_skipMisc fun _ => ?_
  refine triple_bind (Quietly.levels p.quietly_parseDoctypeIfPresent) fun _ => ?_
  refine triple_bind levels_skipMisc fun _ => triple_read_bind_of_eq fun size => ?_
  have element : Triple (fun s => Level [] bound s ∧ s.rest.length = size) (p.parseElement (size + 1))
      (fun _ => Level [] (size + 1)) Raised := by
    refine (levels_parseElement (size + 1) []).imp (fun s here => ?_) (fun _ _ level => level)
      fun _ _ raised => raised
    obtain ⟨level, rfl⟩ := here
    exact { level with short := Nat.lt_succ_self _ }
  exact triple_bind element fun _ => ends _

end Parser

theorem isThrown_of_parseXmlDocument {xml : Bytes} {handler : SaxHandler} {options : ParserOptions}
    {halt : Halt} (ended : (parseXmlDocument xml handler options).1 = .error halt) : halt.IsThrown := by
  cases decoded : decodeDocument xml options with
  | error error =>
      rw [parseXmlDocument_of_error decoded handler] at ended
      cases ended
      exact isThrown_thrown _
  | ok document =>
      rw [parseXmlDocument_of_ok decoded handler] at ended
      have level : Level [] (document.chars.length + 1) { rest := document.chars } :=
        ⟨rfl, rfl, rfl, rfl, Nat.lt_succ_self _⟩
      exact (Parser.raised_parse _ level).2 halt _ (Prod.ext ended rfl)

end XmlParser
