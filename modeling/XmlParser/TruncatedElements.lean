import XmlParser.TruncatedParsing

/-! Elements and whole runs, on a text and on the beginning of it. -/

set_option autoImplicit false

namespace XmlParser

open XmlParser.Computation Comp

namespace Parser

variable {p : Parser} {cut : List DecodedChar}

/-! ## Attributes -/

theorem cuts_attributeValueRound (start : SourceLocation) (quote : Nat) (value : Bytes) :
    p.CutsRun cut Never (p.attributeValueRound start quote value)
      ((p.upTo cut).attributeValueRound start quote value) := by
  have closing : Alone (cutStates p.handler cut) (Facing (· = []))
      (scan ((p.upTo cut).expect quote "attribute quote") >>= fun _ =>
        (pure (.done value) : ParserM (LoopStep Bytes Bytes))) Never :=
    alone_bind_of_never (alone_scan_never (alone_expect _ _ _))
  refine cuts_lookEof (fun atEnd => ?_) ?_
  · refine cuts_lookPeek (fun next => cuts_ite (fun _ => ?_) fun _ => ?_) ?_
    · exact cuts_bind_never (cuts_scan_never (cuts_expect _ _)) fun _ => cuts_pure _
    · refine cuts_lookPeek (fun next => cuts_ite (fun _ => cuts_failHere _ _ _) fun _ => ?_) ?_
      · refine cuts_bind_never (cuts_takePiece value) fun value => ?_
        exact cuts_bind_never (cuts_enforceTokenSize _ _) fun _ => cuts_pure _
      · exact alone_bind_of_never (alone_takePiece _ value)
    · refine triple_ite (fun _ => closing) fun _ => alone_lookPeek ?_
      exact alone_bind_of_never (alone_takePiece _ value)
  · exact triple_read_bind fun next => closing

theorem cuts_parseAttributeValue :
    p.CutsRun cut Never p.parseAttributeValue (p.upTo cut).parseAttributeValue := by
  refine cuts_lookLocation fun start => cuts_lookPeek (fun quote => ?_) (alone_failHere _ _)
  refine cuts_ite (fun _ => cuts_failHere _ _ _) fun _ => ?_
  refine cuts_bind_never (cuts_scan_never cuts_advance) fun _ => ?_
  exact cuts_loop_never (cuts_attributeValueRound start quote) refuses_outOfFuel []

theorem alone_parseAttributeValue (q : Parser) :
    Alone (cutStates p.handler cut) (Facing (· = [])) q.parseAttributeValue Never :=
  triple_read_bind fun _ => alone_lookPeek (alone_failHere _ _)

/-- What is left is neither the end of a tag nor the beginning of a name. -/
theorem alone_unnamed {q : Parser} {α : Type} {rest : Bytes → ParserM α} :
    Alone (cutStates p.handler cut) (Facing (Stub (u32 "/>"))) (scan q.parseName >>= rest) Never := by
  refine alone_bind_of_never (alone_scan_never (alone_nameless q fun front stub => ?_))
  cases stub.peek_emptyTag with
  | inl ended =>
      rw [ended]
      rfl
  | inr slash =>
      rw [slash]
      rfl

theorem stub_emptyTag {s : ParserState} (ended : Facing (· = []) s) : Facing (Stub (u32 "/>")) s := by
  have rest : s.rest = [] := ended
  unfold Facing
  rw [rest]
  exact ⟨List.nil_prefix, by decide⟩

theorem alone_attributesRound (q : Parser) (attributes : List RawAttribute) :
    Alone (cutStates p.handler cut) (Facing (· = [])) (q.attributesRound attributes) Never := by
  have skipped : Alone (cutStates p.handler cut) (Facing (· = [])) (scan q.skipWhitespace)
      fun _ => Facing (· = []) := alone_scan (alone_skipWhitespace _) fun _ _ ended => ended
  refine triple_bind skipped fun _ => alone_lookPeek (alone_lookStarts (by decide) ?_)
  exact triple_read_bind fun location => alone_bind_of_never (alone_scan_never (alone_parseName q))

theorem alone_parseAttributes (q : Parser) :
    Alone (cutStates p.handler cut) (Facing (· = [])) q.parseAttributes Never :=
  triple_loop (fun _ => Facing (· = [])) (fun attributes => alone_of_never (alone_attributesRound q attributes))
    (fun _ _ _ => refuses_outOfFuel) []

theorem cuts_attributesRound (attributes : List RawAttribute) :
    p.CutsRun cut Never (p.attributesRound attributes) ((p.upTo cut).attributesRound attributes) := by
  have named : ∀ (location : SourceLocation) (name : Bytes), Alone (cutStates p.handler cut) (Facing (· = []))
      (if attributes.any (fun existing => existing.name == name) then
        (p.upTo cut).failHere .wellFormedness "duplicate attribute name"
      else if attributes.length + 1 > (p.upTo cut).options.maxAttributesPerElement then
        (p.upTo cut).failHere .resourceLimit "attribute count exceeds max_attributes_per_element"
      else do
        scan (p.upTo cut).skipWhitespace
        scan ((p.upTo cut).expect 0x3D "'=' after attribute name")
        scan (p.upTo cut).skipWhitespace
        let value ← (p.upTo cut).parseAttributeValue
        pure (.next (attributes ++ [⟨name, value, location⟩])) :
          ParserM (LoopStep (List RawAttribute) (List RawAttribute))) Never := by
    intro location name
    refine triple_ite (fun _ => alone_failHere _ _) fun _ => triple_ite (fun _ => ?_) fun _ => ?_
    · exact triple_read_bind fun _ => triple_throw fun _ _ => .failed (.inr rfl)
    · have skipped : Alone (cutStates p.handler cut) (Facing (· = [])) (scan (p.upTo cut).skipWhitespace)
          fun _ => Facing (· = []) := alone_scan (alone_skipWhitespace _) fun _ _ ended => ended
      exact triple_bind skipped fun _ => alone_bind_of_never (alone_scan_never (alone_expect _ _ _))
  have goesOn : ∀ rest, Stub (u32 "/>") rest → (peek rest == 0x3E || startsWith (u32 "/>") rest) = false := by
    intro rest stub
    rw [startsWith_eq_false_of_short stub.short, Bool.or_false, beq_eq_false_iff_ne]
    cases stub.peek_emptyTag with
    | inl ended =>
        rw [ended]
        decide
    | inr slash =>
        rw [slash]
        decide
  refine cuts_bind (cuts_scan cuts_skipWhitespace) (fun _ => ?_) fun _ => ?_
  · change Cuts _ _
      (Comp.read (fun s : ParserState => peek s.rest == 0x3E || startsWith (u32 "/>") s.rest) >>= fun ends =>
        if ends = true then _ else _)
      (Comp.read (fun s : ParserState => peek s.rest == 0x3E || startsWith (u32 "/>") s.rest) >>= fun ends =>
        if ends = true then _ else _)
    refine cuts_read_bind (Facing (Stub (u32 "/>"))) (fun whole front continues => ?_) (fun ends => ?_) fun ends => ?_
    · rw [states_follow whole front continues]
      cases startsWith_or_stub (u32 "/>") front.rest cut with
      | inr isStub => exact .inr isStub
      | inl starts =>
          cases peek_or_end front.rest cut with
          | inl next => exact .inl (by rw [starts, next])
          | inr ended => exact .inr (stub_emptyTag ended)
    · refine cuts_ite (fun _ => cuts_pure _) fun _ => cuts_lookLocation fun location => ?_
      refine cuts_bind (cuts_scan cuts_parseName) (fun name => ?_) (named location)
      refine cuts_ite (fun _ => cuts_failHere _ _ _) fun _ => cuts_ite (fun _ => cuts_failHere _ _ _) fun _ => ?_
      have skipped : Alone (cutStates p.handler cut) (Facing (· = [])) (scan (p.upTo cut).skipWhitespace)
          fun _ => Facing (· = []) := alone_scan (alone_skipWhitespace _) fun _ _ ended => ended
      refine cuts_bind (cuts_scan cuts_skipWhitespace) (fun _ => ?_) fun _ =>
        alone_bind_of_never (alone_scan_never (alone_expect _ _ _))
      refine cuts_bind_never (cuts_scan_never (cuts_expect _ _)) fun _ => ?_
      refine cuts_bind (cuts_scan cuts_skipWhitespace) (fun _ => ?_) fun _ =>
        alone_bind_of_never (alone_parseAttributeValue _)
      exact cuts_bind_never cuts_parseAttributeValue fun value => cuts_pure _
    · rintro s ⟨isStub, same⟩
      rw [← same, goesOn s.rest isStub]
      exact triple_read_bind (fun location => alone_unnamed) s isStub
  · refine alone_lookPeek (alone_lookStarts (by decide) ?_)
    exact triple_read_bind fun location => alone_bind_of_never (alone_scan_never (alone_parseName _))

theorem cuts_parseAttributes : p.CutsRun cut Never p.parseAttributes (p.upTo cut).parseAttributes :=
  cuts_loop_never cuts_attributesRound refuses_outOfFuel []

/-! ## Names -/

theorem cuts_resolveName {starved : QualifiedName → ParserState → Prop} (scopes : List NamespaceScope)
    (qname : Bytes) (isElement : Bool) (location : SourceLocation) :
    p.CutsRun cut starved (p.resolveName scopes qname isElement location)
      ((p.upTo cut).resolveName scopes qname isElement location) := by
  refine cuts_ite (fun _ => cuts_pure _) fun _ => ?_
  cases qname.findIdx? (· == 0x3A) with
  | none => exact cuts_pure _
  | some colon =>
      refine cuts_ite (fun _ => cuts_throw _ _) fun _ => ?_
      exact cuts_ite (fun _ => cuts_throw _ _) fun _ => cuts_pure _

theorem cuts_attributeViews {starved : List AttributeView → ParserState → Prop} (scopes : List NamespaceScope)
    (attributes : List RawAttribute) (seen : List (Bytes × Bytes)) :
    p.CutsRun cut starved (p.attributeViews scopes attributes seen)
      ((p.upTo cut).attributeViews scopes attributes seen) := by
  suffices strict : p.CutsRun cut Never (p.attributeViews scopes attributes seen)
      ((p.upTo cut).attributeViews scopes attributes seen) from strict.of_never
  induction attributes generalizing seen with
  | nil => exact cuts_pure _
  | cons raw attributes ih =>
      unfold attributeViews
      refine cuts_ite (fun _ => ih seen) fun _ => ?_
      refine cuts_bind_never (cuts_resolveName scopes raw.name false raw.location) fun name => ?_
      refine cuts_ite (fun _ => cuts_throw _ _) fun _ => ?_
      exact cuts_bind_never (ih _) fun views => cuts_pure _

theorem cuts_topOf {α : Type} {starved : α → ParserState → Prop} (stack : List α) :
    p.CutsRun cut starved (topOf stack) (topOf stack) := by
  cases stack with
  | nil => exact cuts_throw _ _
  | cons top stack => exact cuts_pure top

theorem cuts_openElement (name : Bytes) (start : SourceLocation) :
    p.CutsRun cut Never (p.openElement name start) ((p.upTo cut).openElement name start) := by
  refine cuts_bind_never cuts_parseAttributes fun attributes => ?_
  refine cuts_bind_never (cuts_update (fun _ _ => rfl) fun _ => rfl) fun _ => ?_
  refine cuts_readRest (fun _ _ => rfl) fun scopes => ?_
  refine cuts_bind_never (cuts_resolveName scopes name true start) fun elementName => ?_
  refine cuts_bind_never (cuts_attributeViews scopes attributes []) fun views => ?_
  refine cuts_bind_never (cuts_update (fun _ _ => rfl) fun _ => rfl) fun _ => ?_
  exact cuts_bind_never (cuts_emit _) fun _ => cuts_pure _

/-! ## Validation -/

theorem cuts_validateElement {starved : Unit → ParserState → Prop} (frame : ValidationFrame)
    (location : SourceLocation) :
    p.CutsRun cut starved (p.validateElement frame location) ((p.upTo cut).validateElement frame location) := by
  have reports : ∀ message, p.CutsRun cut Never (p.recoverableValidityError location message)
      ((p.upTo cut).recoverableValidityError location message) :=
    cuts_recoverableValidityError location
  have root : p.CutsRun cut Never (p.validateRoot frame location) ((p.upTo cut).validateRoot frame location) :=
    cuts_readState fun _ _ => cuts_ite (fun _ => reports _) fun _ => cuts_pure _
  refine cuts_readState fun _ _ => cuts_ite (fun _ => cuts_pure _) fun _ => ?_
  refine cuts_bind_never root fun _ => cuts_readRest (fun _ _ => rfl) fun elements => ?_
  cases lookupKey frame.name elements with
  | none => exact (reports _).of_never
  | some declaration =>
      dsimp only
      cases declaration.kind with
      | any => exact cuts_pure _
      | empty => exact cuts_ite (fun _ => (reports _).of_never) fun _ => cuts_pure _
      | pcdata => exact cuts_ite (fun _ => (reports _).of_never) fun _ => cuts_pure _
      | children => exact cuts_ite (fun _ => (reports _).of_never) fun _ => cuts_pure _

theorem cuts_finishValidationFrame (location : SourceLocation) :
    p.CutsRun cut Never (p.finishValidationFrame location) ((p.upTo cut).finishValidationFrame location) := by
  refine cuts_readRest (fun _ _ => rfl) fun stack => cuts_bind_never (cuts_topOf stack) fun frame => ?_
  refine cuts_bind_never (cuts_update (fun _ _ => rfl) fun _ => rfl) fun _ => ?_
  exact cuts_bind_never (cuts_validateElement frame location) fun _ => cuts_update (fun _ _ => rfl) fun _ => rfl

theorem cuts_popElement : p.CutsRun cut Never popElement popElement :=
  cuts_readState fun _ _ => cuts_ite (fun _ => cuts_throw _ _) fun _ =>
    cuts_update (fun _ _ => rfl) fun _ => rfl

/-! ## Content -/

theorem cuts_textRound (start : SourceLocation) (text : Bytes) :
    p.CutsRun cut (RoundPost Never fun _ => Facing (· = [])) (p.textRound start text)
      ((p.upTo cut).textRound start text) := by
  refine cuts_lookEof (fun atEnd => ?_) ?_
  · refine cuts_lookPeek (fun next => cuts_ite (fun _ => cuts_pure _) fun _ => ?_) ?_
    · refine cuts_bind_never (cuts_takePiece text) fun text => ?_
      exact cuts_bind_never (cuts_enforceTokenSize _ _) fun _ => cuts_pure _
    · refine triple_ite (fun _ => triple_pure fun _ ended => ended) fun _ => ?_
      exact alone_bind_of_never (alone_takePiece _ text)
  · exact triple_read_bind fun next => triple_pure fun _ ended => ended

theorem alone_textRound (q : Parser) (start : SourceLocation) (text : Bytes) :
    Alone (cutStates p.handler cut) (Facing (· = [])) (q.textRound start text)
      (RoundPost (fun _ => Facing (· = [])) fun _ => Facing (· = [])) := by
  refine triple_read_bind fun atEnd => triple_read_bind fun next => ?_
  refine triple_ite (fun _ => triple_pure fun _ ended => ended) fun _ => ?_
  exact alone_bind_of_never (alone_takePiece q text)

/-- Text that reaches the cut is delivered. -/
theorem alone_deliverText (text : Bytes) :
    Alone (cutStates p.handler cut) (Facing (· = [])) (p.deliverText text) fun _ => Facing (· = []) := by
  refine triple_ite (fun _ => triple_pure fun _ ended => ended) fun _ => ?_
  have marked : Alone (cutStates p.handler cut) (Facing (· = []))
      (Comp.modify fun s =>
        if text.any (fun ch => !isAsciiSpace ch) then
          { s with validationStack := recordText s.validationStack }
        else s) fun _ => Facing (· = []) := by
    refine triple_modify fun s ended => ?_
    split
    · exact ended
    · exact ended
  exact triple_bind marked fun _ => alone_emit _ _

theorem cuts_parseText : p.CutsRun cut (fun _ => Facing (· = [])) p.parseText (p.upTo cut).parseText := by
  refine cuts_lookLocation fun start => ?_
  refine cuts_bind (cuts_loop Never (cuts_textRound start) (fun _ _ never => never.elim) refuses_outOfFuel [])
    (fun text => ?_) fun text => (p.upTo cut).alone_deliverText text
  refine cuts_ite (fun _ => cuts_pure _) fun _ => cuts_bind_never (cuts_update (fun s rest => ?_) fun s => ?_)
    fun _ => cuts_emit _
  · by_cases dark : (text.any fun ch => !isAsciiSpace ch) = true
    · rw [if_pos dark, if_pos dark]
      rfl
    · rw [if_neg dark, if_neg dark]
  · split
    · rfl
    · rfl

theorem alone_parseText (q : Parser) (same : q.handler = p.handler) :
    Alone (cutStates p.handler cut) (Facing (· = [])) q.parseText fun _ => Facing (· = []) := by
  rw [← same]
  refine triple_read_bind fun start => triple_bind ?_ q.alone_deliverText
  exact triple_loop (fun _ => Facing (· = [])) (alone_textRound q start) (fun _ _ _ => refuses_outOfFuel) []

theorem cuts_parseEndTag (openName : Bytes) :
    p.CutsRun cut Never (p.parseEndTag openName) ((p.upTo cut).parseEndTag openName) := by
  have skipped : Alone (cutStates p.handler cut) (Facing (· = [])) (scan (p.upTo cut).skipWhitespace)
      fun _ => Facing (· = []) := alone_scan (alone_skipWhitespace _) fun _ _ ended => ended
  refine cuts_lookLocation fun endStart => cuts_bind_never (cuts_scan_never (cuts_expectSequence _ _)) fun _ => ?_
  refine cuts_bind (cuts_scan cuts_parseName) (fun endName => ?_) fun endName =>
    triple_bind skipped fun _ => alone_bind_of_never (alone_scan_never (alone_expect _ _ _))
  refine cuts_bind (cuts_scan cuts_skipWhitespace) (fun _ => ?_) fun _ =>
    alone_bind_of_never (alone_scan_never (alone_expect _ _ _))
  refine cuts_bind_never (cuts_scan_never (cuts_expect _ _)) fun _ => cuts_ite (fun _ => cuts_throw _ _) fun _ => ?_
  refine cuts_readRest (fun _ _ => rfl) fun stack => ?_
  exact cuts_bind_never (cuts_topOf stack) fun name => cuts_emit _

theorem alone_contentText :
    Alone (cutStates p.handler cut) (Facing (· = []))
      ((p.upTo cut).parseText >>= fun _ => (pure (.next ()) : ParserM (LoopStep Unit Unit)))
      (RoundPost (fun _ => Facing (· = [])) Never) :=
  triple_bind (alone_parseText (p.upTo cut) rfl) fun _ => triple_pure fun _ ended => ended

/-- Where no piece of content begins, a child is tried in vain. -/
theorem alone_content {element : ParserM Unit}
    (fails : Alone (cutStates p.handler cut) (Facing NoTag) element Never) {text : List Nat}
    (member : text ∈ [u32 "</", u32 "<!--", u32 "<![CDATA[", u32 "<?"]) :
    Alone (cutStates p.handler cut) (Facing (Stub text))
      (look peek >>= fun next =>
        if next == 0x3C then element >>= fun _ => (pure (.next ()) : ParserM (LoopStep Unit Unit))
        else (p.upTo cut).parseText >>= fun _ => pure (.next ()))
      (RoundPost (fun _ => Facing (· = [])) Never) := by
  refine triple_read_bind_of_eq fun next => triple_ite (fun _ => ?_) fun isText => ?_
  · refine (alone_bind_of_never fails).imp (fun s holds => ?_) (fun _ _ post => post) fun _ _ refuses => refuses
    exact (Stub.unopened holds.1 member).noTag
  · refine alone_contentText.imp (fun s holds => ?_) (fun _ _ post => post) fun _ _ refuses => refuses
    cases (Stub.unopened holds.1 member).ended with
    | inl ended => exact ended
    | inr bracket =>
        have same : next = 0x3C := holds.2.symm.trans bracket
        rw [same] at isText
        exact absurd rfl isText

theorem cuts_contentRound {element other : ParserM Unit} (cuts : p.CutsRun cut Never element other)
    (fails : Alone (cutStates p.handler cut) (Facing NoTag) other Never) (openName : Bytes) (current : Unit) :
    p.CutsRun cut (RoundPost (fun _ => Facing (· = [])) Never) (p.contentRound element openName current)
      ((p.upTo cut).contentRound other openName current) := by
  refine cuts_lookEof (fun atEnd => cuts_ite (fun _ => cuts_failHere _ _ _) fun _ => ?_) (alone_failHere _ _)
  refine cuts_lookStarts _ (fun closes => cuts_ite (fun _ => ?_) fun _ => ?_) ?_
  · exact cuts_bind_never (cuts_parseEndTag openName) fun _ => cuts_pure _
  · refine cuts_lookStarts _ (fun comment => cuts_ite (fun _ => ?_) fun _ => ?_) ?_
    · exact cuts_bind_never cuts_parseComment fun _ => cuts_pure _
    · refine cuts_lookStarts _ (fun cdata => cuts_ite (fun _ => ?_) fun _ => ?_) ?_
      · exact cuts_bind_never cuts_parseCdata fun _ => cuts_pure _
      · refine cuts_lookStarts _ (fun instruction => cuts_ite (fun _ => ?_) fun _ => ?_) ?_
        · exact cuts_bind_never cuts_parseProcessingInstruction fun _ => cuts_pure _
        · refine cuts_lookPeek (fun next => cuts_ite (fun _ => ?_) fun _ => ?_) alone_contentText
          · exact cuts_bind_never cuts fun _ => cuts_pure _
          · exact cuts_bind cuts_parseText (fun _ => cuts_pure _) fun _ => triple_pure fun _ ended => ended
        · exact alone_content fails (by decide)
      · exact alone_lookElse (fun _ stub => (stub.unopened (by decide)).instruction)
          (alone_content fails (by decide))
    · refine alone_lookElse (fun _ stub => (stub.unopened (by decide)).cdata) ?_
      exact alone_lookElse (fun _ stub => (stub.unopened (by decide)).instruction)
        (alone_content fails (by decide))
  · refine alone_lookElse (fun _ stub => (stub.unopened (by decide)).comment) ?_
    refine alone_lookElse (fun _ stub => (stub.unopened (by decide)).cdata) ?_
    exact alone_lookElse (fun _ stub => (stub.unopened (by decide)).instruction)
      (alone_content fails (by decide))

theorem alone_contentRound (q : Parser) (element : ParserM Unit) (openName : Bytes) (current : Unit) :
    Alone (cutStates p.handler cut) (Facing (· = [])) (q.contentRound element openName current)
      (RoundPost (fun _ => Facing (· = [])) Never) := by
  intro s ended
  have rest : s.rest = [] := ended
  unfold contentRound look
  rw [run_read_bind, rest]
  exact alone_failHere q _ s ended

theorem cuts_parseContent {element other : ParserM Unit} (cuts : p.CutsRun cut Never element other)
    (fails : Alone (cutStates p.handler cut) (Facing NoTag) other Never) (openName : Bytes) :
    p.CutsRun cut Never (p.parseContent element openName) ((p.upTo cut).parseContent other openName) :=
  cuts_loop (fun _ => Facing (· = [])) (cuts_contentRound cuts fails openName)
    (alone_contentRound _ other openName) refuses_outOfFuel ()

/-! ## Elements -/

theorem cuts_parseTagName (start : SourceLocation) :
    p.CutsRun cut (fun _ => Facing (· = [])) (p.parseTagName start) ((p.upTo cut).parseTagName start) := by
  refine cuts_bind_never (cuts_scan_never (cuts_expect _ _)) fun _ => cuts_lookPeek (fun next => ?_) ?_
  · refine cuts_ite (fun _ => cuts_throw _ _) fun _ => ?_
    refine cuts_bind (cuts_scan cuts_parseName) (fun name => ?_) fun name => ?_
    · refine cuts_readRest (fun _ _ => rfl) fun depth => ?_
      exact cuts_ite (fun _ => cuts_throw _ _) fun _ => cuts_pure _
    · refine triple_read_bind fun depth => triple_ite (fun _ => ?_) fun _ => triple_pure fun _ ended => ended
      exact triple_throw fun _ _ => .failed (.inr rfl)
  · exact alone_bind_of_never (alone_scan_never (alone_parseName _))

theorem alone_parseTagName (q : Parser) (start : SourceLocation) :
    Alone (cutStates p.handler cut) (Facing NoTag) (q.parseTagName start) Never := by
  have opened : Alone (cutText p.handler cut) NoTag (q.expect 0x3C "'<'")
      fun _ rest => peek rest = 0 ∨ peek rest = 0x21 := by
    refine triple_read_bind_of_eq fun next => triple_ite (fun _ => alone_fail _ _) fun bracket => ?_
    refine triple_read_bind fun atEnd => triple_ite (fun _ => alone_fail _ _) fun _ => triple_modify ?_
    rintro rest ⟨noTag, same⟩
    have next' : peek rest = 0x3C := same.trans (by simpa using bracket)
    cases rest with
    | nil => cases next'
    | cons c rest => exact noTag next'
  refine triple_bind (alone_scan opened fun _ _ holds => holds) fun _ => ?_
  refine triple_read_bind_of_eq fun next => triple_ite (fun _ => triple_throw fun _ _ => .failed (.inl rfl))
    fun notMark => ?_
  refine alone_bind_of_never ?_
  intro s holds
  have ended : peek s.rest = 0 := by
    refine holds.1.resolve_right fun mark => notMark ?_
    have same : next = 0x21 := holds.2.symm.trans mark
    rw [same]
    rfl
  have nameless : Alone (cutStates p.handler cut) (Facing fun rest => peek rest = 0) (scan q.parseName) Never :=
    alone_scan_never (alone_nameless q fun rest ended => (congrArg isNameStart ended).trans rfl)
  exact nameless s ended

theorem alone_parseElement (q : Parser) (fuel : Nat) :
    Alone (cutStates p.handler cut) (Facing NoTag) (q.parseElement fuel) Never := by
  cases fuel with
  | zero => exact triple_throw fun _ _ => refuses_outOfFuel
  | succ fuel => exact triple_read_bind fun start => alone_bind_of_never (alone_parseTagName q start)

theorem cuts_parseBody {element other : ParserM Unit} (cuts : p.CutsRun cut Never element other)
    (fails : Alone (cutStates p.handler cut) (Facing NoTag) other Never) (name : Bytes)
    (elementName : QualifiedName) :
    p.CutsRun cut Never (p.parseBody element name elementName)
      ((p.upTo cut).parseBody other name elementName) := by
  refine cuts_lookStarts _ (fun closes => cuts_ite (fun _ => ?_) fun _ => ?_) ?_
  · exact cuts_bind_never (cuts_scan_never (cuts_expectSequence _ _)) fun _ => cuts_emit _
  · exact cuts_bind_never (cuts_scan_never (cuts_expect _ _)) fun _ => cuts_parseContent cuts fails name
  · refine alone_bind_of_never (alone_scan_never ?_)
    refine alone_expectOther _ (fun rest stub => ?_) _
    cases stub.peek_emptyTag with
    | inl ended =>
        rw [ended]
        decide
    | inr slash =>
        rw [slash]
        decide

/-- The bounds for the depth need not agree. -/
theorem cuts_parseElement (fuel bound : Nat) :
    p.CutsRun cut Never (p.parseElement fuel) ((p.upTo cut).parseElement bound) := by
  induction bound generalizing fuel with
  | zero =>
      intro whole front value final continues returned
      exact .refused refuses_outOfFuel
  | succ bound ih =>
      cases fuel with
      | zero => exact cuts_throw _ _
      | succ fuel =>
          refine cuts_lookLocation fun start => cuts_bind (cuts_parseTagName start) (fun name => ?_) fun name => ?_
          · refine cuts_bind_never (cuts_openElement name start) fun elementName => ?_
            refine cuts_bind_never (cuts_parseBody (ih fuel) (alone_parseElement _ bound) name elementName) fun _ => ?_
            exact cuts_bind_never (cuts_finishValidationFrame start) fun _ => cuts_popElement
          · exact alone_bind_of_never (alone_bind_of_never (alone_parseAttributes _))

/-! ## Documents -/

/-- What `parse` does up to the end of the document element. -/
def parseThroughElement (p : Parser) : ParserM Unit := do
  p.parseProlog
  p.parseElement ((← look List.length) + 1)

theorem alone_dangling (q : Parser) :
    Alone (cutStates p.handler cut) (Facing Dangling)
      (look List.length >>= fun size => q.parseElement (size + 1)) Never := by
  refine triple_read_bind fun size => (alone_parseElement q (size + 1)).imp (fun s dangles => ?_)
    (fun _ _ never => never) fun _ _ refuses => refuses
  exact Dangling.noTag dangles

theorem cuts_parseThroughElement :
    p.CutsRun cut Never p.parseThroughElement (p.upTo cut).parseThroughElement := by
  have skipped : Alone (cutStates p.handler cut) (Facing Dangling) (p.upTo cut).skipMisc
      fun _ => Facing Dangling :=
    (alone_skipMisc _).imp (fun _ dangles => .inr dangles) (fun _ _ dangles => dangles) fun _ _ refuses => refuses
  have prolog : p.CutsRun cut (fun _ => Facing Dangling) p.parseProlog (p.upTo cut).parseProlog := by
    refine cuts_bind_never (cuts_emit _) fun _ => ?_
    refine cuts_bind (cuts_scan cuts_parseXmlDeclarationIfPresent) (fun _ => ?_) fun _ => ?_
    · refine cuts_bind cuts_skipMisc (fun _ => ?_) fun _ => ?_
      · exact cuts_bind cuts_parseDoctypeIfPresent (fun _ => cuts_skipMisc) fun _ => skipped
      · exact triple_bind (alone_parseDoctypeIfPresent _) fun _ => skipped
    · refine triple_bind ((alone_skipMisc _).imp (fun _ begins => .inl begins) (fun _ _ dangles => dangles)
        fun _ _ refuses => refuses) fun _ => ?_
      exact triple_bind (alone_parseDoctypeIfPresent _) fun _ => skipped
  refine cuts_bind prolog (fun _ => ?_) fun _ => alone_dangling _
  exact cuts_read_bind_any fun size bound => cuts_parseElement _ _

end Parser

end XmlParser
