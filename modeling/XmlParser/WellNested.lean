import XmlParser.EventOrder
import XmlParser.Library.Triple
import XmlParser.Reading

/-! The calls of the handler are well nested on every run, and the stacks of the
parser are as deep as the nesting at every call. -/

set_option autoImplicit false

namespace XmlParser

open XmlParser.Computation Comp

/-! ## The state between two calls -/

/-- All stacks are of one depth at a call. -/
structure Delivery.AtDepth (delivery : Delivery) (depth : Nat) : Prop where
  elements : delivery.elementDepth = depth
  elementNames : delivery.elementNameDepth = depth
  scopes : delivery.scopeDepth = depth
  validation : delivery.validationDepth = depth

/-- At every call the stacks are as deep as the elements opened up to that call
and not closed before it. -/
def DepthsAgree (trace : List Delivery) : Prop :=
  ∀ before delivery, before ++ [delivery] <+: trace →
    ∃ depth, delivery.AtDepth depth ∧
      depth + (before.map Delivery.event).countP Event.isClosing =
        ((before ++ [delivery]).map Delivery.event).countP Event.isOpening

theorem depthsAgree_snoc {trace : List Delivery} {delivery : Delivery} {depth : Nat}
    (agree : DepthsAgree trace) (atDepth : delivery.AtDepth depth)
    (counted : depth + (trace.map Delivery.event).countP Event.isClosing =
      ((trace ++ [delivery]).map Delivery.event).countP Event.isOpening) :
    DepthsAgree (trace ++ [delivery]) := by
  intro before other isBefore
  cases List.prefix_concat_iff.mp isBefore with
  | inl same =>
      obtain ⟨rfl, last⟩ := List.append_inj' same rfl
      cases last
      exact ⟨depth, atDepth, counted⟩
  | inr earlier => exact agree before other earlier

/-- The calls made so far lead into a phase. -/
structure Tracks (phase : Phase) (s : ParserState) : Prop where
  order : Phase.after s.events = some phase
  depths : DepthsAgree s.trace

/-- The elements of these names are on all stacks. -/
structure Holds (names : List QualifiedName) (s : ParserState) : Prop where
  elementNames : s.elementNameStack = names
  elements : s.elementStack.length = names.length
  scopes : s.namespaceScopes.length = names.length
  validation : s.validationStack.length = names.length

structure At (phase : Phase) (names : List QualifiedName) (s : ParserState) : Prop
    extends Tracks phase s, Holds names s

/-- Nothing is called. -/
def Silent (s t : ParserState) : Prop := t.trace = s.trace

instance : Std.Refl Silent := ⟨fun _ => rfl⟩

instance : IsTrans ParserState Silent := ⟨fun _ _ _ first second => second.trans first⟩

/-- What is left behind by a throw. -/
def Broken (_ : Halt) (s : ParserState) : Prop := ∃ phase, phase ≠ .finished ∧ Tracks phase s

theorem Tracks.broken {phase : Phase} {s : ParserState} (tracks : Tracks phase s)
    (unfinished : phase ≠ .finished) (halt : Halt) : Broken halt s :=
  ⟨phase, unfinished, tracks⟩

theorem Tracks.of_trace {phase : Phase} {s t : ParserState} (tracks : Tracks phase s)
    (same : t.trace = s.trace) : Tracks phase t := by
  constructor
  · unfold ParserState.events
    rw [same]
    exact tracks.order
  · rw [same]
    exact tracks.depths

theorem Holds.of_still {names : List QualifiedName} {s t : ParserState} (holds : Holds names s)
    (still : Still s t) : Holds names t where
  elementNames := still.elementNameStack.trans holds.elementNames
  elements := (congrArg List.length still.elementStack).trans holds.elements
  scopes := (congrArg List.length still.namespaceScopes).trans holds.scopes
  validation := (congrArg List.length still.validationStack).trans holds.validation

theorem At.of_still {phase : Phase} {names : List QualifiedName} {s t : ParserState}
    (here : At phase names s) (still : Still s t) : At phase names t :=
  ⟨here.toTracks.of_trace still.trace, here.toHolds.of_still still⟩

/-- A call from a phase, with the stacks as deep as the call requires. -/
theorem At.deliver {phase following : Phase} {names : List QualifiedName} {s : ParserState}
    {event : Event} (tracks : Tracks phase s) (holds : Holds names s)
    (moves : phase.next event = some following)
    (deep : names.length = phase.opened.length + if event.isOpening then 1 else 0) :
    At following names (s.deliver event) := by
  refine ⟨⟨?_, ?_⟩, ⟨holds.elementNames, holds.elements, holds.scopes, holds.validation⟩⟩
  · unfold ParserState.events ParserState.deliver
    rw [List.map_append]
    have order : Phase.after (s.trace.map Delivery.event) = some phase := tracks.order
    refine (Phase.after_snoc _ event).trans ?_
    rw [order]
    exact moves
  · refine depthsAgree_snoc tracks.depths
      ⟨holds.elements, congrArg List.length holds.elementNames, holds.scopes, holds.validation⟩ ?_
    have counted := Phase.opened_length_after tracks.order
    unfold ParserState.events at counted
    rw [List.map_append, List.countP_append, List.map_singleton, List.countP_singleton, deep,
      ← counted]
    exact Nat.add_right_comm _ _ _

/-! ## Members below the elements -/

namespace Parser

variable {p : Parser}

/-- A member that is quiet stays in its phase. -/
theorem Quietly.triple {α : Type} {source : ParserM α} (quietly : p.Quietly source) {phase : Phase}
    {names : List QualifiedName} (unfinished : phase ≠ .finished) :
    Triple (At phase names) source (fun _ => At phase names) Broken :=
  Obeys.triple quietly (fun _ _ here quiet _ => here.of_still quiet.toStill)
    fun _ _ here quiet halt => (here.of_still quiet.toStill).toTracks.broken unfinished halt

/-- A round takes one attribute of a new name. -/
theorem triple_attributesRound {raws : List RawAttribute} (distinct : (raws.map RawAttribute.name).Nodup) :
    Triple (fun _ => True) (p.attributesRound raws)
      (RoundPost (fun raws _ => (raws.map RawAttribute.name).Nodup) fun raws _ => (raws.map RawAttribute.name).Nodup)
      fun _ _ => True := by
  have ignored : ∀ {α : Type} {source : ParserM α}, Triple (fun _ => True) source (fun _ _ => True) fun _ _ => True :=
    triple_of_returns fun _ _ _ _ _ => trivial
  have fails : ∀ kind message {post : _ → ParserState → Prop}, Triple (fun _ => True)
      (p.failHere kind message : ParserM (LoopStep (List RawAttribute) (List RawAttribute))) post fun _ _ => True :=
    fun kind message => triple_read_bind fun _ => triple_throw fun _ _ => trivial
  refine triple_bind ignored fun _ => triple_read_bind fun _ => triple_read_bind fun _ => ?_
  refine triple_ite (fun _ => triple_pure fun _ _ => distinct) fun _ => triple_read_bind fun location => ?_
  refine triple_bind ignored fun name => triple_ite (fun _ => fails _ _) fun unseen => ?_
  refine triple_ite (fun _ => fails _ _) fun _ => triple_bind ignored fun _ => triple_bind ignored fun _ => ?_
  refine triple_bind ignored fun _ => triple_bind ignored fun value => triple_pure fun _ _ => ?_
  have new : ∀ raw ∈ raws, raw.name ≠ name := by simpa using unseen
  change ((raws ++ [(⟨name, value, location⟩ : RawAttribute)]).map RawAttribute.name).Nodup
  rw [List.map_append, List.nodup_append]
  refine ⟨distinct, List.nodup_singleton _, fun other member last isLast => ?_⟩
  obtain ⟨raw, isRaw, rfl⟩ := List.mem_map.mp member
  rw [List.mem_singleton.mp isLast]
  exact new raw isRaw

/-- No two attributes of a tag have one name. -/
theorem triple_attributeNames : Triple (fun _ => True) p.parseAttributes
    (fun raws _ => (raws.map RawAttribute.name).Nodup) fun _ _ => True := by
  refine (triple_loop (fun raws _ => (raws.map RawAttribute.name).Nodup) (fun raws => ?_) (fun _ _ _ => trivial)
    []).imp (fun _ _ => List.nodup_nil) (fun _ _ => id) fun _ _ => id
  intro s distinct
  exact triple_attributesRound distinct s trivial

variable (p) (nonThrowing : p.handler.NonThrowing)

include nonThrowing

theorem triple_emit {phase following : Phase} {names : List QualifiedName} {event : Event}
    (moves : phase.next event = some following)
    (deep : names.length = phase.opened.length + if event.isOpening then 1 else 0) :
    Triple (At phase names) (p.emit event) (fun _ => At following names) Broken := by
  intro s here
  have runs : (p.emit event).run s = (.ok (), s.deliver event) :=
    p.emit_eq_ok_iff.mpr ⟨rfl, nonThrowing _⟩
  constructor
  · intro value final ran
    rw [runs] at ran
    cases ran
    exact At.deliver here.toTracks here.toHolds moves deep
  · intro error final ran
    rw [runs] at ran
    cases ran

/-- Scanning an item and handing it over. -/
theorem triple_scanItem {α : Type} {source : Cursor α} (scans : Scans source) {event : α → Event}
    {phase following : Phase} (unfinished : phase ≠ .finished)
    (moves : ∀ value, phase.next (event value) = some following)
    (plain : ∀ value, (event value).isOpening = false) :
    Triple (At phase phase.opened) (scan source >>= fun value => p.emit (event value))
      (fun _ => At following phase.opened) Broken := by
  refine triple_bind (Quietly.triple (p.quietly_scan scans) unfinished) fun value => ?_
  refine p.triple_emit nonThrowing (moves value) ?_
  rw [plain value]
  rfl

theorem triple_parseComment {phase following : Phase} (unfinished : phase ≠ .finished)
    (moves : ∀ text, phase.next (.comment text) = some following) :
    Triple (At phase phase.opened) p.parseComment (fun _ => At following phase.opened) Broken :=
  p.triple_scanItem nonThrowing p.takes_scanComment.obeys unfinished moves fun _ => rfl

theorem triple_parseCdata {phase following : Phase} (unfinished : phase ≠ .finished)
    (moves : ∀ text, phase.next (.cdata text) = some following) :
    Triple (At phase phase.opened) p.parseCdata (fun _ => At following phase.opened) Broken :=
  p.triple_scanItem nonThrowing p.takes_scanCdata.obeys unfinished moves fun _ => rfl

theorem triple_parseProcessingInstruction {phase following : Phase} (unfinished : phase ≠ .finished)
    (moves : ∀ target data, phase.next (.processingInstruction target data) = some following) :
    Triple (At phase phase.opened) p.parseProcessingInstruction
      (fun _ => At following phase.opened) Broken :=
  p.triple_scanItem nonThrowing p.takes_scanProcessingInstruction.obeys unfinished
    (fun value => moves value.1 value.2) fun _ => rfl

/-- Between the declarations and around the element nothing but misc items is delivered. -/
theorem triple_skipMisc {phase : Phase} (outside : phase = .prolog ∨ phase = .epilog) :
    Triple (At phase []) p.skipMisc (fun _ => At phase []) Broken := by
  have unfinished : phase ≠ .finished := by
    cases outside with
    | inl same => rw [same]; exact nofun
    | inr same => rw [same]; exact nofun
  have closed : phase.opened = [] := by
    cases outside with
    | inl same => rw [same]; rfl
    | inr same => rw [same]; rfl
  have comments : ∀ text, phase.next (.comment text) = some phase := by
    cases outside with
    | inl same => rw [same]; exact fun _ => rfl
    | inr same => rw [same]; exact fun _ => rfl
  have instructions : ∀ target data, phase.next (.processingInstruction target data) = some phase := by
    cases outside with
    | inl same => rw [same]; exact fun _ _ => rfl
    | inr same => rw [same]; exact fun _ _ => rfl
  have skip : Triple (At phase []) (scan p.skipWhitespace) (fun _ => At phase []) Broken :=
    Quietly.triple (p.quietly_scan p.scans_skipWhitespace) unfinished
  have comment := p.triple_parseComment nonThrowing unfinished comments
  have instruction := p.triple_parseProcessingInstruction nonThrowing unfinished instructions
  rw [closed] at comment instruction
  refine triple_loop (fun _ => At phase []) (fun _ => ?_)
    (fun _ _ here => here.toTracks.broken unfinished _) ()
  refine triple_read_bind fun before => triple_bind skip fun _ => triple_read_bind fun consumed => ?_
  refine triple_read_bind fun isComment => triple_ite (fun _ => ?_) fun _ => ?_
  · exact triple_bind comment fun _ => triple_pure fun _ here => here
  refine triple_read_bind fun isInstruction => triple_ite (fun _ => ?_) fun _ => ?_
  · exact triple_bind instruction fun _ => triple_pure fun _ here => here
  refine triple_ite (fun _ => ?_) fun _ => ?_
  · exact triple_pure fun _ here => here
  · exact triple_pure fun _ here => here

/-! ## Character data -/

omit nonThrowing in
theorem recordText_length (stack : List ValidationFrame) :
    (recordText stack).length = stack.length := by
  cases stack with
  | nil => rfl
  | cons frame rest => rfl

/-- Where a run of text ends. -/
def AtMarkup (s : ParserState) : Prop := (eof s.rest || peek s.rest == 0x3C) = true

/-- Inside an element; behind character data no more of it follows. -/
def Inside (name : QualifiedName) (outer : List QualifiedName) (s : ParserState) : Prop :=
  ∃ afterText, At (.inside name outer afterText) (name :: outer) s ∧ (afterText = true → AtMarkup s)

omit nonThrowing in
theorem Inside.broken {name : QualifiedName} {outer : List QualifiedName} {s : ParserState}
    (inside : Inside name outer s) (halt : Halt) : Broken halt s := by
  obtain ⟨afterText, here, _⟩ := inside
  exact here.toTracks.broken nofun halt

theorem triple_deliverText (text : Bytes) (name : QualifiedName) (outer : List QualifiedName) :
    Triple (fun s => At (.inside name outer false) (name :: outer) s ∧ AtMarkup s)
      (p.deliverText text) (fun _ => Inside name outer) Broken := by
  refine triple_ite (fun _ => triple_pure fun s here => ⟨false, here.1, nofun⟩) fun nonempty => ?_
  have marks : Triple (fun s => At (.inside name outer false) (name :: outer) s ∧ AtMarkup s)
      (Comp.modify fun s =>
        if text.any (fun ch => !isAsciiSpace ch) then
          { s with validationStack := recordText s.validationStack }
        else s)
      (fun _ s => At (.inside name outer false) (name :: outer) s ∧ AtMarkup s) Broken := by
    refine triple_modify fun s here => ?_
    split
    · refine ⟨⟨here.1.toTracks.of_trace rfl, ?_⟩, here.2⟩
      exact ⟨here.1.elementNames, here.1.elements, here.1.scopes,
        (recordText_length _).trans here.1.validation⟩
    · exact here
  refine triple_bind marks fun _ s here => ?_
  have moves : (Phase.inside name outer false).next (.characters text) =
      some (.inside name outer true) := if_neg nonempty
  have emits : Triple (At (.inside name outer false) (name :: outer)) (p.emit (.characters text))
      (fun _ => At (.inside name outer true) (name :: outer)) Broken := p.triple_emit nonThrowing moves rfl
  obtain ⟨returns, throws⟩ := emits s here.1
  refine ⟨fun value final ran => ?_, throws⟩
  obtain ⟨rfl, _⟩ := p.emit_eq_ok_iff.mp ran
  exact ⟨true, returns value _ ran, fun _ => here.2⟩

theorem triple_parseText (name : QualifiedName) (outer : List QualifiedName) :
    Triple (At (.inside name outer false) (name :: outer)) p.parseText
      (fun _ => Inside name outer) Broken := by
  refine triple_read_bind fun start => triple_bind ?_ fun text => p.triple_deliverText nonThrowing text name outer
  refine triple_loop (fun _ => At (.inside name outer false) (name :: outer)) (fun text => ?_)
    (fun _ _ here => here.toTracks.broken nofun _) []
  refine triple_read_bind_of_eq fun ended => triple_read_bind_of_eq fun next => ?_
  refine triple_ite (fun stops => triple_pure fun s here => ?_) fun _ => ?_
  · obtain ⟨⟨here, rfl⟩, rfl⟩ := here
    exact ⟨here, stops⟩
  · refine Triple.imp ?_ (fun s here => here.1.1) (fun _ _ holds => holds) fun _ _ holds => holds
    refine triple_bind (Quietly.triple (p.strictly_takePiece text).obeys nofun) fun text => ?_
    have sized : p.Quietly (p.enforceTokenSize text.length start) := obeys_enforceTokenSize p _ _
    refine triple_bind (Quietly.triple sized nofun) fun _ => ?_
    exact triple_pure fun _ here => here

/-! ## Elements -/

theorem triple_parseEndTag (openName : Bytes) (name : QualifiedName) (outer : List QualifiedName)
    (afterText : Bool) :
    Triple (At (.inside name outer afterText) (name :: outer)) (p.parseEndTag openName)
      (fun _ => At (.behind outer) (name :: outer)) Broken := by
  have quietly : ∀ {α : Type} {source : Cursor α}, Scans source →
      Triple (At (.inside name outer afterText) (name :: outer)) (scan source)
        (fun _ => At (.inside name outer afterText) (name :: outer)) Broken :=
    fun scans => Quietly.triple (p.quietly_scan scans) nofun
  refine triple_read_bind fun endStart => ?_
  refine triple_bind (quietly (p.scans_expectSequence _ _)) fun _ => ?_
  refine triple_bind (quietly p.scans_parseName) fun endName => ?_
  refine triple_bind (quietly p.scans_skipWhitespace) fun _ => ?_
  refine triple_bind (quietly (p.scans_expect _ _)) fun _ => ?_
  refine triple_ite (fun _ => triple_throw fun s here => here.toTracks.broken nofun _) fun _ => ?_
  intro s here
  rw [run_read_bind, here.elementNames]
  have moves : (Phase.inside name outer afterText).next (.endElement name) = some (.behind outer) :=
    if_pos rfl
  exact p.triple_emit nonThrowing moves rfl s here

/-- What is known of the parser for the elements inside. -/
def NestsElement (element : ParserM Unit) : Prop :=
  ∀ name outer afterText, Triple (At (.inside name outer afterText) (name :: outer)) element
    (fun _ => At (.inside name outer false) (name :: outer)) Broken

theorem triple_contentRound {element : ParserM Unit} (nests : NestsElement element)
    (openName : Bytes) (name : QualifiedName) (outer : List QualifiedName) :
    Triple (Inside name outer) (p.contentRound element openName ())
      (RoundPost (fun _ => Inside name outer) fun _ => At (.behind outer) (name :: outer)) Broken := by
  intro s inside
  obtain ⟨afterText, here, stops⟩ := inside
  have unfinished : Phase.inside name outer afterText ≠ .finished := nofun
  -- A round that does not read character data starts anywhere inside the element.
  have again : ∀ {source : ParserM Unit},
      Triple (At (.inside name outer afterText) (name :: outer)) source
        (fun _ => At (.inside name outer false) (name :: outer)) Broken →
      Triple (At (.inside name outer afterText) (name :: outer))
        (source >>= fun _ => pure (.next ()) : ParserM (LoopStep Unit Unit))
        (RoundPost (fun _ => Inside name outer) fun _ => At (.behind outer) (name :: outer)) Broken :=
    fun triple => triple_bind triple fun _ => triple_pure fun _ here => ⟨false, here, nofun⟩
  have ended : Triple (At (.inside name outer afterText) (name :: outer))
      (p.parseEndTag openName >>= fun _ => pure (.done ()) : ParserM (LoopStep Unit Unit))
      (RoundPost (fun _ => Inside name outer) fun _ => At (.behind outer) (name :: outer)) Broken :=
    triple_bind (p.triple_parseEndTag nonThrowing openName name outer afterText) fun _ =>
      triple_pure fun _ here => here
  unfold contentRound
  rw [run_look_bind]
  split
  · exact triple_read_bind (fun _ => triple_throw fun s here => here.toTracks.broken nofun _) s here
  rename_i more
  rw [run_look_bind]
  split
  · exact ended s here
  rw [run_look_bind]
  split
  · exact again (p.triple_parseComment nonThrowing unfinished fun _ => rfl) s here
  rw [run_look_bind]
  split
  · exact again (p.triple_parseCdata nonThrowing unfinished fun _ => rfl) s here
  rw [run_look_bind]
  split
  · exact again (p.triple_parseProcessingInstruction nonThrowing unfinished fun _ _ => rfl) s here
  rw [run_look_bind]
  split
  · exact again (nests name outer afterText) s here
  rename_i notTag
  have noText : afterText = false := by
    cases afterText with
    | false => rfl
    | true =>
        have markup := stops rfl
        unfold AtMarkup at markup
        rw [Bool.or_eq_true] at markup
        exact absurd markup (not_or.mpr ⟨more, notTag⟩)
  subst noText
  have text : Triple (At (.inside name outer false) (name :: outer))
      (p.parseText >>= fun _ => pure (.next ()) : ParserM (LoopStep Unit Unit))
      (RoundPost (fun _ => Inside name outer) fun _ => At (.behind outer) (name :: outer)) Broken :=
    triple_bind (p.triple_parseText nonThrowing name outer) fun _ => triple_pure fun _ inside => inside
  exact text s here

theorem triple_parseContent {element : ParserM Unit} (nests : NestsElement element)
    (openName : Bytes) (name : QualifiedName) (outer : List QualifiedName) :
    Triple (Inside name outer) (p.parseContent element openName)
      (fun _ => At (.behind outer) (name :: outer)) Broken :=
  triple_loop (fun _ => Inside name outer) (fun _ => p.triple_contentRound nonThrowing nests openName name outer)
    (fun _ _ inside => inside.broken _) ()

omit nonThrowing in
/-- A computation that only looks at its arguments keeps every state. -/
theorem triple_of_still {α : Type} {source : ParserM α} {holds : ParserState → Prop}
    (obeys : Obeys Eq Halt.IsThrown source)
    (breaks : ∀ s, holds s → ∀ halt, Broken halt s) :
    Triple holds source (fun _ => holds) Broken :=
  obeys.triple (fun _ _ here same _ => same ▸ here) fun _ _ here same halt => same ▸ breaks _ here halt

/-- The phases in which an element may begin. -/
def BeginsElement (phase : Phase) : Prop := phase = .prolog ∨ ∃ name outer afterText, phase = .inside name outer afterText

omit nonThrowing in
theorem BeginsElement.unfinished {phase : Phase} (begins : BeginsElement phase) : phase ≠ .finished := by
  rcases begins with rfl | ⟨name, outer, afterText, rfl⟩
  · exact nofun
  · exact nofun

omit nonThrowing in
theorem BeginsElement.next {phase : Phase} (begins : BeginsElement phase) (name : QualifiedName)
    (attributes : List AttributeView) :
    phase.next (.startElement name attributes) = some (.inside name phase.opened false) := by
  rcases begins with rfl | ⟨parent, outer, afterText, rfl⟩
  · rfl
  · rfl

/-- The scope of a start tag is pushed first, the other stacks follow. -/
structure Scoping (phase : Phase) (s : ParserState) : Prop extends Tracks phase s where
  elementNames : s.elementNameStack = phase.opened
  elements : s.elementStack.length = phase.opened.length
  scopes : s.namespaceScopes.length = phase.opened.length + 1
  validation : s.validationStack.length = phase.opened.length

theorem triple_openElement {phase : Phase} (begins : BeginsElement phase) (name : Bytes)
    (start : SourceLocation) :
    Triple (At phase phase.opened) (p.openElement name start)
      (fun elementName => At (.inside elementName phase.opened false) (elementName :: phase.opened))
      Broken := by
  refine triple_bind (Quietly.triple p.quietly_parseAttributes begins.unfinished) fun attributes => ?_
  have breaks : ∀ s, Scoping phase s → ∀ halt, Broken halt s :=
    fun s here halt => here.toTracks.broken begins.unfinished halt
  have pushes : Triple (At phase phase.opened) (pushScope (p.collectNamespaceDeclarations attributes))
      (fun _ => Scoping phase) Broken :=
    triple_modify fun s here => ⟨here.toTracks.of_trace rfl, here.elementNames, here.elements,
      congrArg (· + 1) here.scopes, here.validation⟩
  refine triple_bind pushes fun _ => triple_read_bind fun scopes => ?_
  refine triple_bind (triple_of_still (p.obeys_resolveName scopes name true start) breaks)
    fun elementName => ?_
  refine triple_bind (triple_of_still (p.obeys_attributeViews scopes attributes []) breaks)
    fun views => ?_
  have pushed : Triple (Scoping phase) (pushElement name elementName)
      (fun _ => At phase (elementName :: phase.opened)) Broken :=
    triple_modify fun s here => ⟨here.toTracks.of_trace rfl,
      congrArg (elementName :: ·) here.elementNames, congrArg (· + 1) here.elements, here.scopes,
      congrArg (· + 1) here.validation⟩
  refine triple_bind pushed fun _ => ?_
  refine triple_bind (p.triple_emit nonThrowing (begins.next elementName views) rfl) fun _ => ?_
  exact triple_pure fun _ here => here

theorem triple_parseBody {element : ParserM Unit} (nests : NestsElement element)
    (openName : Bytes) (name : QualifiedName) (outer : List QualifiedName) :
    Triple (At (.inside name outer false) (name :: outer)) (p.parseBody element openName name)
      (fun _ => At (.behind outer) (name :: outer)) Broken := by
  refine triple_read_bind fun isEmpty => triple_ite (fun _ => ?_) fun _ => ?_
  · refine triple_bind (Quietly.triple (p.quietly_scan (p.scans_expectSequence _ _)) nofun) fun _ => ?_
    have moves : (Phase.inside name outer false).next (.endElement name) = some (.behind outer) :=
      if_pos rfl
    exact p.triple_emit nonThrowing moves rfl
  · refine triple_bind (Quietly.triple (p.quietly_scan (p.scans_expect _ _)) nofun) fun _ => ?_
    refine Triple.imp (p.triple_parseContent nonThrowing nests openName name outer)
      (fun s here => ⟨false, here, nofun⟩) (fun _ _ holds => holds) fun _ _ holds => holds

omit nonThrowing in
/-- Closing an element calls no handler. -/
theorem obeys_closeElement (location : SourceLocation) :
    Obeys Silent (fun _ => True) (p.finishValidationFrame location >>= fun _ => popElement) := by
  refine obeys_bind ?_ fun _ => ?_
  · refine obeys_bind (obeys_read _) fun stack => obeys_bind ?_ fun frame => ?_
    · cases stack with
      | nil => exact obeys_throw trivial
      | cons frame rest => exact obeys_pure frame
    refine obeys_bind (obeys_modify fun _ => rfl) fun _ => ?_
    refine obeys_bind ?_ fun _ => obeys_modify fun _ => rfl
    refine (p.obeys_validateElement frame location).mono (fun s t only => ?_) fun _ _ => trivial
    unfold OnlyReports at only
    unfold Silent
    rw [only]
  · refine obeys_bind (obeys_read _) fun s => obeys_ite (fun _ => obeys_throw trivial) fun _ => ?_
    exact obeys_modify fun _ => rfl

omit nonThrowing in
theorem triple_closeElement {phase : Phase} {name : QualifiedName} {outer : List QualifiedName}
    (unfinished : phase ≠ .finished) (location : SourceLocation) :
    Triple (At phase (name :: outer)) (p.finishValidationFrame location >>= fun _ => popElement)
      (fun _ => At phase outer) Broken := by
  intro s here
  constructor
  · intro value final ran
    have leaves := p.closeElement_leaves ran
    refine ⟨here.toTracks.of_trace leaves.trace, ?_, ?_, ?_, ?_⟩
    · rw [leaves.elementNameStack, here.elementNames, List.tail_cons]
    · rw [leaves.elementStack, List.length_tail, here.elements, List.length_cons, Nat.add_sub_cancel]
    · rw [leaves.namespaceScopes, List.length_tail, here.scopes, List.length_cons, Nat.add_sub_cancel]
    · have deeper := leaves.validationDepth
      rw [here.validation, List.length_cons] at deeper
      exact Nat.succ.inj deeper
  · intro error final ran
    exact (here.toTracks.of_trace ((p.obeys_closeElement location).of_run ran)).broken unfinished _

omit nonThrowing in
theorem behind_unfinished (outer : List QualifiedName) : Phase.behind outer ≠ .finished := by
  cases outer with
  | nil => exact nofun
  | cons name outer => exact nofun

omit nonThrowing in
theorem quietly_parseTagName (start : SourceLocation) : p.Quietly (p.parseTagName start) := by
  refine obeys_bind (p.quietly_scan (p.scans_expect _ _)) fun _ => obeys_bind (obeys_read _) fun next => ?_
  refine obeys_ite (fun _ => obeys_failAt _ _ _) fun _ => ?_
  refine obeys_bind (p.quietly_scan p.scans_parseName) fun name => obeys_bind (obeys_read _) fun depth => ?_
  exact obeys_ite (fun _ => obeys_failAt _ _ _) fun _ => obeys_pure _

theorem triple_parseElement (fuel : Nat) {phase : Phase} (begins : BeginsElement phase) :
    Triple (At phase phase.opened) (p.parseElement fuel)
      (fun _ => At (.behind phase.opened) phase.opened) Broken := by
  induction fuel generalizing phase with
  | zero => exact triple_throw fun _ here => here.toTracks.broken begins.unfinished _
  | succ fuel ih =>
      have nests : NestsElement (p.parseElement fuel) := by
        intro name outer afterText
        exact ih (.inr ⟨name, outer, afterText, rfl⟩)
      unfold parseElement
      refine triple_read_bind fun start => ?_
      refine triple_bind (Quietly.triple (p.quietly_parseTagName start) begins.unfinished) fun name => ?_
      refine triple_bind (p.triple_openElement nonThrowing begins name start) fun elementName => ?_
      refine triple_bind (p.triple_parseBody nonThrowing nests name elementName phase.opened) fun _ => ?_
      exact p.triple_closeElement (behind_unfinished _) start

/-! ## Documents -/

theorem triple_parse :
    Triple (At .initial []) p.parse (fun _ => At .finished []) Broken := by
  have misc : ∀ phase, phase = .prolog ∨ phase = .epilog →
      Triple (At phase []) p.skipMisc (fun _ => At phase []) Broken :=
    fun _ outside => p.triple_skipMisc nonThrowing outside
  have starts : Triple (At .initial []) (p.emit .startDocument) (fun _ => At .prolog []) Broken :=
    p.triple_emit nonThrowing rfl rfl
  have element : ∀ fuel, Triple (At .prolog []) (p.parseElement fuel) (fun _ => At .epilog []) Broken :=
    fun fuel => p.triple_parseElement nonThrowing fuel (.inl rfl)
  refine triple_bind starts fun _ => ?_
  refine triple_bind (Quietly.triple (p.quietly_scan p.scans_parseXmlDeclarationIfPresent) nofun)
    fun _ => ?_
  refine triple_bind (misc .prolog (.inl rfl)) fun _ => ?_
  refine triple_bind (Quietly.triple p.quietly_parseDoctypeIfPresent nofun) fun _ => ?_
  refine triple_bind (misc .prolog (.inl rfl)) fun _ => triple_read_bind fun fuel => ?_
  refine triple_bind (element (fuel + 1)) fun _ => ?_
  refine triple_bind (misc .epilog (.inr rfl)) fun _ => triple_read_bind fun ended => ?_
  refine triple_ite (fun _ => ?_) fun _ => ?_
  · exact triple_read_bind fun _ => triple_throw fun s here => here.toTracks.broken nofun _
  · exact p.triple_emit nonThrowing rfl rfl

end Parser

/-- The calls of a run that ended in this way. -/
structure WellNested (ran : Outcome) : Prop where
  finished : ran.1 = .ok () → IsDocument ran.2.events
  unfinished : ran.1 ≠ .ok () →
    .endDocument ∉ ran.2.events ∧ ∃ rest, IsDocument (ran.2.events ++ rest)
  text : Phase.TextSeparate ran.2.events
  depths : DepthsAgree ran.2.trace

theorem wellNested_of_tracks {phase : Phase} {ran : Outcome} (tracks : Tracks phase ran.2)
    (ended : ran.1 = .ok () ↔ phase = .finished) : WellNested ran where
  finished returned := by
    have described := Phase.describes_after tracks.order
    rw [ended.mp returned] at described
    exact described
  unfinished threw :=
    ⟨Phase.no_endDocument tracks.order (mt ended.mpr threw),
      Phase.completes (Phase.describes_after tracks.order)⟩
  text := Phase.textSeparate_after tracks.order
  depths := tracks.depths

theorem at_initial (rest : List DecodedChar) : At .initial [] { rest } := by
  refine ⟨⟨rfl, ?_⟩, rfl, rfl, rfl, rfl⟩
  intro before delivery isBefore
  exact absurd (List.prefix_nil.mp isBefore) (List.append_ne_nil_of_right_ne_nil _ nofun)

theorem Parser.parse_wellNested (p : Parser) (nonThrowing : p.handler.NonThrowing)
    (chars : List DecodedChar) : WellNested (p.parse.run { rest := chars }) := by
  obtain ⟨returns, throws⟩ := p.triple_parse nonThrowing { rest := chars } (at_initial chars)
  cases ran : p.parse.run { rest := chars } with
  | mk outcome final =>
      cases outcome with
      | ok value =>
          exact wellNested_of_tracks (returns value final ran).toTracks ⟨fun _ => rfl, fun _ => rfl⟩
      | error halt =>
          obtain ⟨phase, unfinished, tracks⟩ := throws halt final ran
          exact wellNested_of_tracks tracks ⟨nofun, fun same => absurd same unfinished⟩

/-- Whatever the bytes and the options, a handler that returns from its calls is
called in the order of a document; nothing is called if decoding fails. -/
theorem parseXmlDocument_wellNested (xml : Bytes) (handler : SaxHandler) (options : ParserOptions)
    (nonThrowing : handler.NonThrowing) :
    WellNested (parseXmlDocument xml handler options) ∧
      ∀ error, decodeDocument xml options = .error error →
        (parseXmlDocument xml handler options).2.events = [] := by
  unfold parseXmlDocument
  cases decodeDocument xml options with
  | error error =>
      exact ⟨wellNested_of_tracks (at_initial []).toTracks ⟨nofun, nofun⟩, fun _ _ => rfl⟩
  | ok document =>
      exact ⟨Parser.parse_wellNested ⟨handler, options, document.endLocation⟩ nonThrowing _, nofun⟩

theorem parseXmlDocument_wellNested_sample :
    WellNested (parseXmlDocument (ascii "<a><!--c-->t<b/></a>") .recording {}) ∧
      ∀ error, decodeDocument (ascii "<a><!--c-->t<b/></a>") {} = .error error →
        (parseXmlDocument (ascii "<a><!--c-->t<b/></a>") .recording {}).2.events = [] :=
  parseXmlDocument_wellNested _ _ _ SaxHandler.recording_nonThrowing

end XmlParser
