import XmlParser.IndexedDtd
import XmlParser.Endings

/-! Elements and the whole document with the positions of the source, and with
every use of the last element of a stack. -/

set_option autoImplicit false

namespace XmlParser

open XmlParser.Computation Comp

namespace Indexed

/-- `text.substr(position)` -/
def suffix {σ : Type} (text : Bytes) (position : Nat) : Comp σ Halt Bytes :=
  substr text position text.length

/-- Change `validation_stack_.back()`. -/
def changeBack (change : ValidationFrame → ValidationFrame) : XmlParser.ParserM Unit := do
  let frame ← topOf (← Comp.read XmlParser.ParserState.validationStack)
  Comp.modify fun s => { s with validationStack := change frame :: s.validationStack.tail }

/-- `if (!validation_stack_.empty()) { change(validation_stack_.back()); }` -/
def changeBackIfAny (change : ValidationFrame → ValidationFrame) : XmlParser.ParserM Unit := do
  if ← Comp.read fun s => s.validationStack.isEmpty then
    pure ()
  else
    changeBack change

/-- The loop of `collect_namespace_declarations`. -/
def collectDeclarations {σ : Type} : List RawAttribute → NamespaceScope → Comp σ Halt NamespaceScope
  | [], declarations => pure declarations
  | raw :: rest, declarations => do
      if raw.name == ascii "xmlns" then
        collectDeclarations rest (assignKey [] raw.value declarations)
      else if (ascii "xmlns:").isPrefixOf raw.name then
        let pfx ← suffix raw.name 6
        collectDeclarations rest (assignKey pfx raw.value declarations)
      else
        collectDeclarations rest declarations

namespace Parser

variable (p : Parser)

/-! ## Attributes and namespaces -/

def attributeValueRound (start : SourceLocation) (quote : Nat) (value : Bytes) :
    ParserM (LoopStep Bytes Bytes) := do
  if (← scan p.eof) || (← scan p.peek) == quote then
    scan (p.expect quote "attribute quote")
    pure (.done value)
  else if (← scan p.peek) == 0x3C then
    p.failHere .wellFormedness "'<' is not allowed in attribute values"
  else
    let value ← p.takePiece value
    p.enforceTokenSize value.length start
    pure (.next value)

def parseAttributeValue : ParserM Bytes := do
  let start ← scan p.location
  let quote ← scan p.peek
  if quote != 0x27 && quote != 0x22 then
    p.failHere .wellFormedness "expected quoted attribute value"
  else
    scan p.advance
    p.loop (p.attributeValueRound start quote) []

def attributesRound (attributes : List RawAttribute) :
    ParserM (LoopStep (List RawAttribute) (List RawAttribute)) := do
  scan p.skipWhitespace
  if (← scan p.peek) == 0x3E || (← scan (p.startsWith (u32 "/>"))) then
    pure (.done attributes)
  else
    let location ← scan p.location
    let name ← scan p.parseName
    if attributes.any (fun existing => existing.name == name) then
      p.failHere .wellFormedness "duplicate attribute name"
    else if attributes.length + 1 > p.options.maxAttributesPerElement then
      p.failHere .resourceLimit "attribute count exceeds max_attributes_per_element"
    else
      scan p.skipWhitespace
      scan (p.expect 0x3D "'=' after attribute name")
      scan p.skipWhitespace
      let value ← p.parseAttributeValue
      pure (.next (attributes ++ [⟨name, value, location⟩]))

def parseAttributes : ParserM (List RawAttribute) := p.loop p.attributesRound []

def isNamespaceDeclaration (name : Bytes) : Bool := p.listed.isNamespaceDeclaration name

def collectNamespaceDeclarations {σ : Type} (attributes : List RawAttribute) : Comp σ Halt NamespaceScope :=
  if p.options.namespaces = .disabled then pure [] else collectDeclarations attributes []

def resolveName {σ : Type} (scopes : List NamespaceScope) (qname : Bytes) (isElement : Bool)
    (location : SourceLocation) : Comp σ Halt QualifiedName := do
  if p.options.namespaces = .disabled then
    pure ⟨[], qname, qname⟩
  else
    match Comp.find qname 0x3A 0 with
    | none => pure ⟨if isElement then XmlParser.Parser.lookupNamespace scopes [] else [], qname, qname⟩
    | some colon =>
        if colon = 0 || colon + 1 ≥ qname.length || (Comp.find qname 0x3A (colon + 1)).isSome then
          failAt .wellFormedness location "invalid namespace-qualified name"
        else
          let pfx ← substr qname 0 colon
          let localName ← suffix qname (colon + 1)
          let uri := XmlParser.Parser.lookupNamespace scopes pfx
          if uri.isEmpty && pfx != ascii "xml" then
            failAt .wellFormedness location "undeclared namespace prefix"
          else
            pure ⟨uri, localName, qname⟩

/-- `attribute_value_storage` once it is filled. -/
def attributeValueStorage (attributes : List RawAttribute) : List Bytes :=
  (attributes.filter fun raw => !p.isNamespaceDeclaration raw.name).map RawAttribute.value

/-- The loop that builds the attribute views, with `emitted_attribute_index`. -/
def attributeViews {σ : Type} (scopes : List NamespaceScope) (storage : List Bytes) :
    List RawAttribute → List (Bytes × Bytes) → Nat → Comp σ Halt (List AttributeView)
  | [], _, _ => pure []
  | raw :: rest, seen, emitted => do
      if p.isNamespaceDeclaration raw.name then
        attributeViews scopes storage rest seen emitted
      else
        let name ← p.resolveName scopes raw.name false raw.location
        if seen.contains (name.uri, name.localName) then
          failAt .wellFormedness raw.location "duplicate expanded attribute name"
        else
          let value ← subscript storage emitted
          let views ← attributeViews scopes storage rest ((name.uri, name.localName) :: seen) (emitted + 1)
          pure (⟨name, value, raw.location⟩ :: views)

/-! ## Content -/

def finishValidationFrame (location : SourceLocation) : ParserM Unit := beside do
  let frame ← topOf (← Comp.read XmlParser.ParserState.validationStack)
  Comp.modify fun s => { s with validationStack := s.validationStack.tail }
  p.listed.validateElement frame location
  changeBackIfAny fun parent => { parent with childElements := parent.childElements ++ [frame.name] }

def textRound (start : SourceLocation) (text : Bytes) : ParserM (LoopStep Bytes Bytes) := do
  if (← scan p.eof) || (← scan p.peek) == 0x3C then
    pure (.done text)
  else
    let text ← p.takePiece text
    p.enforceTokenSize text.length start
    pure (.next text)

/-- Mark the last frame where the text is not only white space. -/
def markText (text : Bytes) : ParserM Unit :=
  if text.any fun ch => !isAsciiSpace ch then
    beside (changeBackIfAny fun frame => { frame with hasNonWhitespaceText := true })
  else
    pure ()

def deliverText (text : Bytes) : ParserM Unit := do
  if text.isEmpty then
    pure ()
  else
    markText text
    p.emit (.characters text)

def parseText : ParserM Unit := do
  let start ← scan p.location
  let text ← p.loop (p.textRound start) []
  p.deliverText text

def parseEndTag (openName : Bytes) : ParserM Unit := do
  let endStart ← scan p.location
  scan (p.expectSequence (u32 "</") "end tag")
  let endName ← scan p.parseName
  scan p.skipWhitespace
  scan (p.expect 0x3E "'>'")
  if endName != openName then
    failAt .wellFormedness endStart "mismatched end tag"
  else
    p.emit (.endElement (← topOf (← Comp.read fun s => s.members.elementNameStack)))

def contentRound (element : ParserM Unit) (openName : Bytes) (_ : Unit) :
    ParserM (LoopStep Unit Unit) := do
  if ← scan p.eof then
    p.failHere .wellFormedness "truncated XML element content"
  else if ← scan (p.startsWith (u32 "</")) then
    p.parseEndTag openName
    pure (.done ())
  else if ← scan (p.startsWith (u32 "<!--")) then
    p.parseComment
    pure (.next ())
  else if ← scan (p.startsWith (u32 "<![CDATA[")) then
    p.parseCdata
    pure (.next ())
  else if ← scan (p.startsWith (u32 "<?")) then
    p.parseProcessingInstruction
    pure (.next ())
  else if (← scan p.peek) == 0x3C then
    element
    pure (.next ())
  else
    p.parseText
    pure (.next ())

def parseContent (element : ParserM Unit) (openName : Bytes) : ParserM Unit :=
  p.loop (p.contentRound element openName) ()

/-! ## Elements -/

def parseTagName (start : SourceLocation) : ParserM Bytes := do
  scan (p.expect 0x3C "'<'")
  let next ← scan p.peek
  if next == 0x2F || next == 0x21 || next == 0x3F then
    failAt .wellFormedness start "expected element start tag"
  else
    let name ← scan p.parseName
    if (← Comp.read fun s => s.members.elementStack.length + 1) > p.options.maxDepth then
      failAt .resourceLimit start "XML element depth limit exceeded"
    else
      pure name

def openElement (name : Bytes) (start : SourceLocation) : ParserM QualifiedName := do
  let attributes ← p.parseAttributes
  let declarations ← p.collectNamespaceDeclarations attributes
  beside (XmlParser.Parser.pushScope declarations)
  let scopes ← Comp.read fun s => s.members.namespaceScopes
  let elementName ← p.resolveName scopes name true start
  let views ← p.attributeViews scopes (p.attributeValueStorage attributes) attributes [] 0
  beside (XmlParser.Parser.pushElement name elementName)
  p.emit (.startElement elementName views)
  pure elementName

def parseBody (element : ParserM Unit) (name : Bytes) (elementName : QualifiedName) :
    ParserM Unit := do
  if ← scan (p.startsWith (u32 "/>")) then
    scan (p.expectSequence (u32 "/>") "empty element close")
    p.emit (.endElement elementName)
  else
    scan (p.expect 0x3E "'>'")
    p.parseContent element name

def popElement : ParserM Unit := beside XmlParser.Parser.popElement

def parseElement : Nat → ParserM Unit
  | 0 => Comp.throw .outOfFuel
  | fuel + 1 => do
      let start ← scan p.location
      let name ← p.parseTagName start
      let elementName ← p.openElement name start
      p.parseBody (parseElement fuel) name elementName
      p.finishValidationFrame start
      popElement

def parse : ParserM Unit := do
  p.emit .startDocument
  scan p.parseXmlDeclarationIfPresent
  p.skipMisc
  p.parseDoctypeIfPresent
  p.skipMisc
  p.parseElement ((← Comp.read fun s => p.remaining s.index) + 1)
  p.skipMisc
  if !(← scan p.eof) then
    p.failHere .wellFormedness "extra content after document element"
  else
    p.emit .endDocument

end Parser

/-- `parse_xml_document` with all its positions. -/
def parseXmlDocument (xml : Bytes) (handler : SaxHandler) (options : ParserOptions) :
    Except Halt Unit × ParserState :=
  match (decodeDocument xml options : Comp Unit Halt DecodedDocument).run () with
  | (.error halt, _) => (.error halt, {})
  | (.ok document, _) => (Parser.mk document handler options).parse.run {}

/-! ## Strings in range -/

theorem suffix_of_le {σ : Type} {text : Bytes} {position : Nat} (inside : position ≤ text.length) :
    (suffix text position : Comp σ Halt Bytes) = pure (text.drop position) := by
  have whole : (text.drop position).take text.length = text.drop position :=
    List.take_of_length_le (List.drop_suffix position text).length_le
  rw [suffix, substr, slice_of_le inside, whole]

theorem collectDeclarations_eq {σ : Type} (attributes : List RawAttribute) (declarations : NamespaceScope) :
    (collectDeclarations attributes declarations : Comp σ Halt NamespaceScope) =
      pure (XmlParser.Parser.collectDeclarations attributes declarations) := by
  induction attributes generalizing declarations with
  | nil => rfl
  | cons raw rest ih =>
      unfold collectDeclarations XmlParser.Parser.collectDeclarations
      by_cases isDefault : (raw.name == ascii "xmlns") = true
      · rw [if_pos isDefault, if_pos isDefault, ih]
      by_cases isPrefixed : (ascii "xmlns:").isPrefixOf raw.name = true
      · have long : 6 ≤ raw.name.length := (List.isPrefixOf_iff_prefix.mp isPrefixed).length_le
        rw [if_neg isDefault, if_neg isDefault, if_pos isPrefixed, if_pos isPrefixed, suffix_of_le long, pure_bind, ih]
      · rw [if_neg isDefault, if_neg isDefault, if_neg isPrefixed, if_neg isPrefixed, ih]

/-! ## Stacks in range -/

/-- The last frame is looked at only where there is one. -/
theorem changeBackIfAny_eq (change : ValidationFrame → ValidationFrame) :
    changeBackIfAny change = Comp.modify fun s =>
      { s with validationStack := s.validationStack.modifyHead change } := by
  refine eq_of_run fun s => ?_
  unfold changeBackIfAny
  rw [run_read_bind, run_modify]
  cases stack : s.validationStack with
  | nil =>
      rw [if_pos List.isEmpty_nil, run_pure, List.modifyHead_nil, ← stack]
  | cons frame rest =>
      unfold changeBack
      rw [List.isEmpty_cons, if_neg Bool.false_ne_true, run_read_bind, stack, topOf]
      change _ = (_, { s with validationStack := change frame :: rest })
      rw [pure_bind, run_modify, stack, List.tail_cons]

namespace Parser

variable (p : Parser)

theorem leavesCursor_recoverableValidityError (location : SourceLocation) (message : String) :
    LeavesCursor (p.listed.recoverableValidityError location message) := by
  intro rest
  unfold XmlParser.Parser.recoverableValidityError
  cases p.listed.options.recoverableErrorHandler with
  | none => exact simulates_throw _
  | some handle =>
      refine simulates_bind (simulates_modify fun _ => rfl) fun _ => ?_
      refine simulates_read_bind (fun _ => rfl) fun answer => ?_
      cases answer with
      | none => exact simulates_pure ()
      | some exception => exact simulates_throw _

theorem leavesCursor_validateElement (frame : ValidationFrame) (location : SourceLocation) :
    LeavesCursor (p.listed.validateElement frame location) := by
  intro rest
  have report := fun message => p.leavesCursor_recoverableValidityError location message rest
  have root : Simulates (XmlParser.ParserState.withRest rest) (p.listed.validateRoot frame location)
      (p.listed.validateRoot frame location) :=
    simulates_read_bind_of fun _ => simulates_ite (fun _ => report _) fun _ => simulates_pure _
  have content : Simulates (XmlParser.ParserState.withRest rest) (p.listed.validateContent frame location)
      (p.listed.validateContent frame location) := by
    refine simulates_read_bind (fun _ => rfl) fun declared => ?_
    cases lookupKey frame.name declared with
    | none => exact report _
    | some declaration =>
        dsimp only
        cases declaration.kind with
        | any => exact simulates_pure _
        | empty => exact simulates_ite (fun _ => report _) fun _ => simulates_pure _
        | pcdata => exact simulates_ite (fun _ => report _) fun _ => simulates_pure _
        | children => exact simulates_ite (fun _ => report _) fun _ => simulates_pure _
  refine simulates_read_bind_of fun _ => simulates_ite (fun _ => simulates_pure _) fun _ => ?_
  exact simulates_bind root fun _ => content

theorem simulates_topOf {σ τ α : Type} {view : σ → τ} (stack : List α) :
    Simulates view (topOf stack) (topOf stack) := by
  cases stack with
  | nil => exact simulates_throw _
  | cons top rest => exact simulates_pure top

theorem leavesCursor_popElement : LeavesCursor XmlParser.Parser.popElement := by
  intro rest
  refine simulates_read_bind_of fun _ => simulates_ite (fun _ => simulates_throw _) fun _ => ?_
  exact simulates_modify fun _ => rfl

theorem recordChild_eq (name : Bytes) (stack : List ValidationFrame) :
    XmlParser.Parser.recordChild name stack = stack.modifyHead fun parent =>
      { parent with childElements := parent.childElements ++ [name] } := by
  cases stack <;> rfl

theorem recordText_eq (stack : List ValidationFrame) :
    XmlParser.Parser.recordText stack = stack.modifyHead fun frame => { frame with hasNonWhitespaceText := true } := by
  cases stack <;> rfl

theorem mirrors_finishValidationFrame (location : SourceLocation) :
    p.Mirrors (p.finishValidationFrame location) (p.listed.finishValidationFrame location) := by
  have records : ∀ name, (changeBackIfAny fun parent =>
      { parent with childElements := parent.childElements ++ [name] }) =
        Comp.modify fun s => { s with validationStack := XmlParser.Parser.recordChild name s.validationStack } := by
    intro name
    simp only [recordChild_eq]
    exact changeBackIfAny_eq _
  unfold finishValidationFrame
  simp only [records]
  refine p.mirrors_beside fun rest => simulates_read_bind (fun _ => rfl) fun stack => ?_
  refine simulates_bind (simulates_topOf stack) fun frame => ?_
  refine simulates_bind (simulates_modify fun _ => rfl) fun _ => ?_
  exact simulates_bind (p.leavesCursor_validateElement frame location rest) fun _ => simulates_modify fun _ => rfl

theorem mirrors_deliverText (text : Bytes) : p.Mirrors (p.deliverText text) (p.listed.deliverText text) := by
  refine simulates_ite (fun _ => simulates_pure _) fun _ => simulates_bind ?_ fun _ => p.mirrors_emit _
  unfold markText
  rw [changeBackIfAny_eq]
  simp only [recordText_eq]
  cases text.any fun ch => !isAsciiSpace ch with
  | false => exact fun _ => rfl
  | true => exact p.mirrors_beside fun _ => simulates_modify fun _ => rfl

/-! ## Attributes in range -/

theorem mirrors_parseAttributeValue : p.Mirrors p.parseAttributeValue p.listed.parseAttributeValue := by
  refine simulates_bind (p.mirrors_scan p.follows_location) fun start => ?_
  refine simulates_bind (p.mirrors_scan p.follows_peek) fun quote => ?_
  refine simulates_ite (fun _ => p.mirrors_failHere _ _) fun _ => ?_
  refine simulates_bind (p.mirrors_scan p.follows_advance) fun _ => p.mirrors_loop (fun value => ?_) []
  refine simulates_bind (p.mirrors_scan p.follows_eof) fun atEnd => ?_
  refine simulates_bind (p.mirrors_scan p.follows_peek) fun next => simulates_ite (fun _ => ?_) fun _ => ?_
  · exact simulates_bind (p.mirrors_scan (p.follows_expect _ _)) fun _ => simulates_pure _
  refine simulates_bind (p.mirrors_scan p.follows_peek) fun opens => ?_
  refine simulates_ite (fun _ => p.mirrors_failHere _ _) fun _ => ?_
  refine simulates_bind (p.mirrors_takePiece value) fun longer => ?_
  exact simulates_bind (p.simulates_enforceTokenSize _ _) fun _ => simulates_pure _

theorem mirrors_parseAttributes : p.Mirrors p.parseAttributes p.listed.parseAttributes := by
  refine p.mirrors_loop (fun attributes => ?_) []
  refine simulates_bind (p.mirrors_scan p.follows_skipWhitespace) fun _ => ?_
  refine simulates_bind (p.mirrors_scan p.follows_peek) fun next => ?_
  refine simulates_bind (p.mirrors_scan (p.follows_startsWith (by decide))) fun closes => ?_
  refine simulates_ite (fun _ => simulates_pure _) fun _ => ?_
  refine simulates_bind (p.mirrors_scan p.follows_location) fun location => ?_
  refine simulates_bind (p.mirrors_scan p.follows_parseName) fun name => ?_
  refine simulates_ite (fun _ => p.mirrors_failHere _ _) fun _ => ?_
  refine simulates_ite (fun _ => p.mirrors_failHere _ _) fun _ => ?_
  refine simulates_bind (p.mirrors_scan p.follows_skipWhitespace) fun _ => ?_
  refine simulates_bind (p.mirrors_scan (p.follows_expect _ _)) fun _ => ?_
  refine simulates_bind (p.mirrors_scan p.follows_skipWhitespace) fun _ => ?_
  exact simulates_bind p.mirrors_parseAttributeValue fun _ => simulates_pure _

theorem collectNamespaceDeclarations_eq {σ : Type} (attributes : List RawAttribute) :
    (p.collectNamespaceDeclarations attributes : Comp σ Halt NamespaceScope) =
      pure (p.listed.collectNamespaceDeclarations attributes) := by
  unfold collectNamespaceDeclarations
  rw [collectDeclarations_eq, ← apply_ite pure]
  rfl

theorem simulates_resolveName {σ τ : Type} {view : σ → τ} (scopes : List NamespaceScope) (qname : Bytes)
    (isElement : Bool) (location : SourceLocation) :
    Simulates view (p.resolveName scopes qname isElement location)
      (p.listed.resolveName scopes qname isElement location) := by
  refine simulates_ite (fun _ => simulates_pure _) fun _ => ?_
  have found : Comp.find qname 0x3A 0 = qname.findIdx? (· == 0x3A) := by
    unfold Comp.find
    rw [List.drop_zero]
    simp
  rw [found]
  cases qname.findIdx? (· == 0x3A) with
  | none => exact simulates_pure _
  | some colon =>
      have again : (Comp.find qname 0x3A (colon + 1)).isSome = (qname.drop (colon + 1)).contains 0x3A := by
        rw [find_eq]
        cases (qname.drop (colon + 1)).contains 0x3A <;> rfl
      dsimp only
      rw [again]
      refine simulates_ite (fun _ => simulates_throw _) fun proper => ?_
      have inside : colon + 1 ≤ qname.length := by
        by_contra outside
        exact proper (by simp [Nat.le_of_not_le outside])
      rw [substr, slice_of_le (Nat.zero_le _), pure_bind, suffix_of_le inside, pure_bind, List.drop_zero]
      exact simulates_ite (fun _ => simulates_throw _) fun _ => simulates_pure _

/-- As many values lie in front of the index as attributes have been emitted, and
those behind it belong to the attributes left. -/
theorem simulates_attributeViews {σ τ : Type} {view : σ → τ} (scopes : List NamespaceScope)
    {storage before : List Bytes} {attributes : List RawAttribute}
    (stored : storage = before ++ p.attributeValueStorage attributes) (seen : List (Bytes × Bytes)) :
    Simulates view (p.attributeViews scopes storage attributes seen before.length)
      (p.listed.attributeViews scopes attributes seen) := by
  induction attributes generalizing before seen with
  | nil => exact simulates_pure _
  | cons raw rest ih =>
      unfold attributeViews XmlParser.Parser.attributeViews
      unfold attributeValueStorage at stored
      cases declares : p.isNamespaceDeclaration raw.name with
      | true =>
          have also : p.listed.isNamespaceDeclaration raw.name = true := declares
          rw [List.filter_cons_of_neg (by rw [declares]; decide)] at stored
          rw [if_pos rfl, if_pos also]
          exact ih stored seen
      | false =>
          have also : p.listed.isNamespaceDeclaration raw.name = false := declares
          rw [List.filter_cons_of_pos (by rw [declares]; rfl), List.map_cons] at stored
          have isValue : storage.drop before.length = raw.value :: p.attributeValueStorage rest := by
            rw [stored, List.drop_left]
            rfl
          have others : storage = before ++ [raw.value] ++ p.attributeValueStorage rest := by
            rw [stored, List.append_assoc]
            rfl
          have counted : before.length + 1 = (before ++ [raw.value]).length := by
            rw [List.length_append, List.length_singleton]
          rw [also, if_neg Bool.false_ne_true, if_neg Bool.false_ne_true]
          refine simulates_bind (p.simulates_resolveName scopes raw.name false raw.location) fun name => ?_
          refine simulates_ite (fun _ => simulates_throw _) fun _ => ?_
          rw [subscript, get_of_drop isValue, pure_bind, counted]
          exact simulates_bind (ih others _) fun views => simulates_pure _

/-! ## Elements in range -/

theorem mirrors_parseText : p.Mirrors p.parseText p.listed.parseText := by
  refine simulates_bind (p.mirrors_scan p.follows_location) fun start => ?_
  refine simulates_bind (p.mirrors_loop (fun text => ?_) []) fun text => p.mirrors_deliverText text
  refine simulates_bind (p.mirrors_scan p.follows_eof) fun atEnd => ?_
  refine simulates_bind (p.mirrors_scan p.follows_peek) fun next => ?_
  refine simulates_ite (fun _ => simulates_pure _) fun _ => ?_
  refine simulates_bind (p.mirrors_takePiece text) fun longer => ?_
  exact simulates_bind (p.simulates_enforceTokenSize _ _) fun _ => simulates_pure _

theorem mirrors_parseEndTag (openName : Bytes) :
    p.Mirrors (p.parseEndTag openName) (p.listed.parseEndTag openName) := by
  refine simulates_bind (p.mirrors_scan p.follows_location) fun endStart => ?_
  refine simulates_bind (p.mirrors_scan (p.follows_expectSequence (by decide) _)) fun _ => ?_
  refine simulates_bind (p.mirrors_scan p.follows_parseName) fun endName => ?_
  refine simulates_bind (p.mirrors_scan p.follows_skipWhitespace) fun _ => ?_
  refine simulates_bind (p.mirrors_scan (p.follows_expect _ _)) fun _ => ?_
  refine simulates_ite (fun _ => simulates_throw _) fun _ => ?_
  refine simulates_bind (p.mirrors_members fun _ _ => rfl) fun stack => ?_
  exact simulates_bind (simulates_topOf stack) fun name => p.mirrors_emit _

theorem mirrors_parseContent {element : ParserM Unit} {other : XmlParser.ParserM Unit}
    (mirrors : p.Mirrors element other) (openName : Bytes) :
    p.Mirrors (p.parseContent element openName) (p.listed.parseContent other openName) := by
  have round : ∀ {source : ParserM Unit} {target : XmlParser.ParserM Unit} (step : LoopStep Unit Unit),
      p.Mirrors source target → p.Mirrors (source >>= fun _ => pure step) (target >>= fun _ => pure step) :=
    fun step same => simulates_bind same fun _ => simulates_pure step
  refine p.mirrors_loop (fun _ => ?_) ()
  refine simulates_bind (p.mirrors_scan p.follows_eof) fun atEnd => ?_
  refine simulates_ite (fun _ => p.mirrors_failHere _ _) fun _ => ?_
  refine simulates_bind (p.mirrors_scan (p.follows_startsWith (by decide))) fun closes => ?_
  refine simulates_ite (fun _ => round _ (p.mirrors_parseEndTag openName)) fun _ => ?_
  refine simulates_bind (p.mirrors_scan (p.follows_startsWith (by decide))) fun comment => ?_
  refine simulates_ite (fun _ => round _ p.mirrors_parseComment) fun _ => ?_
  refine simulates_bind (p.mirrors_scan (p.follows_startsWith (by decide))) fun cdata => ?_
  refine simulates_ite (fun _ => round _ p.mirrors_parseCdata) fun _ => ?_
  refine simulates_bind (p.mirrors_scan (p.follows_startsWith (by decide))) fun instruction => ?_
  refine simulates_ite (fun _ => round _ p.mirrors_parseProcessingInstruction) fun _ => ?_
  refine simulates_bind (p.mirrors_scan p.follows_peek) fun next => ?_
  exact simulates_ite (fun _ => round _ mirrors) fun _ => round _ p.mirrors_parseText

theorem mirrors_parseTagName (start : SourceLocation) :
    p.Mirrors (p.parseTagName start) (p.listed.parseTagName start) := by
  refine simulates_bind (p.mirrors_scan (p.follows_expect _ _)) fun _ => ?_
  refine simulates_bind (p.mirrors_scan p.follows_peek) fun next => ?_
  refine simulates_ite (fun _ => simulates_throw _) fun _ => ?_
  refine simulates_bind (p.mirrors_scan p.follows_parseName) fun name => ?_
  refine simulates_bind (p.mirrors_members fun _ _ => rfl) fun depth => ?_
  exact simulates_ite (fun _ => simulates_throw _) fun _ => simulates_pure _

theorem mirrors_openElement (name : Bytes) (start : SourceLocation) :
    p.Mirrors (p.openElement name start) (p.listed.openElement name start) := by
  refine simulates_bind p.mirrors_parseAttributes fun attributes => ?_
  rw [collectNamespaceDeclarations_eq, pure_bind]
  refine simulates_bind (p.mirrors_beside fun _ => simulates_modify fun _ => rfl) fun _ => ?_
  refine simulates_bind (p.mirrors_members fun _ _ => rfl) fun scopes => ?_
  refine simulates_bind (p.simulates_resolveName scopes name true start) fun elementName => ?_
  refine simulates_bind (p.simulates_attributeViews scopes (List.nil_append _).symm []) fun views => ?_
  refine simulates_bind (p.mirrors_beside fun _ => simulates_modify fun _ => rfl) fun _ => ?_
  exact simulates_bind (p.mirrors_emit _) fun _ => simulates_pure _

theorem mirrors_parseElement (fuel : Nat) : p.Mirrors (p.parseElement fuel) (p.listed.parseElement fuel) := by
  induction fuel with
  | zero => exact simulates_throw _
  | succ fuel ih =>
      refine simulates_bind (p.mirrors_scan p.follows_location) fun start => ?_
      refine simulates_bind (p.mirrors_parseTagName start) fun name => ?_
      refine simulates_bind (p.mirrors_openElement name start) fun elementName => ?_
      refine simulates_bind ?_ fun _ => simulates_bind (p.mirrors_finishValidationFrame start) fun _ =>
        p.mirrors_beside leavesCursor_popElement
      refine simulates_bind (p.mirrors_scan (p.follows_startsWith (by decide))) fun closes => ?_
      refine simulates_ite (fun _ => ?_) fun _ => ?_
      · refine simulates_bind (p.mirrors_scan (p.follows_expectSequence (by decide) _)) fun _ => ?_
        exact p.mirrors_emit _
      · refine simulates_bind (p.mirrors_scan (p.follows_expect _ _)) fun _ => ?_
        exact p.mirrors_parseContent ih name

theorem mirrors_parse : p.Mirrors p.parse p.listed.parse := by
  refine simulates_bind (p.mirrors_emit _) fun _ => ?_
  refine simulates_bind (p.mirrors_scan p.follows_parseXmlDeclarationIfPresent) fun _ => ?_
  refine simulates_bind p.mirrors_skipMisc fun _ => ?_
  refine simulates_bind p.mirrors_parseDoctypeIfPresent fun _ => ?_
  refine simulates_bind p.mirrors_skipMisc fun _ => ?_
  refine simulates_read_bind (fun s => (p.remaining_eq s.index).symm) fun length => ?_
  refine simulates_bind (p.mirrors_parseElement _) fun _ => ?_
  refine simulates_bind p.mirrors_skipMisc fun _ => ?_
  refine simulates_bind (p.mirrors_scan p.follows_eof) fun atEnd => ?_
  exact simulates_ite (fun _ => p.mirrors_failHere _ _) fun _ => p.mirrors_emit _

end Parser

/-! ## The whole document -/

/-- What a run with positions does is what the run on the characters left does. -/
theorem parseXmlDocument_eq (xml : Bytes) (handler : SaxHandler) (options : ParserOptions) :
    ∃ chars : List DecodedChar, XmlParser.parseXmlDocument xml handler options =
      ((parseXmlDocument xml handler options).1,
        (parseXmlDocument xml handler options).2.members.withRest
          (chars.drop (parseXmlDocument xml handler options).2.index)) := by
  unfold parseXmlDocument
  rw [decodeDocument_eq]
  cases decoded : XmlParser.decodeDocument xml options with
  | error error =>
      refine ⟨[], ?_⟩
      rw [parseXmlDocument_of_error decoded]
      rfl
  | ok document =>
      refine ⟨document.chars, ?_⟩
      rw [parseXmlDocument_of_ok decoded]
      exact (Parser.mk document handler options).mirrors_parse {}

/-- The run has made no access out of range, and no bound of the model has cut it
short before one. -/
structure InRange (outcome : Except Halt Unit) : Prop where
  defined : outcome ≠ .error .undefinedBehavior
  complete : outcome ≠ .error .outOfFuel

/-- An access out of range ends a run, and no run ends so. -/
theorem parseXmlDocument_inRange (xml : Bytes) (handler : SaxHandler) (options : ParserOptions) :
    InRange (parseXmlDocument xml handler options).1 := by
  obtain ⟨chars, same⟩ := parseXmlDocument_eq xml handler options
  have thrown : ∀ halt, (parseXmlDocument xml handler options).1 = .error halt → halt.IsThrown := by
    intro halt ended
    exact isThrown_of_parseXmlDocument ((congrArg Prod.fst same).trans ended)
  constructor
  · intro fault
    obtain ⟨exception, isThrown⟩ := thrown _ fault
    cases isThrown
  · intro cut
    obtain ⟨exception, isThrown⟩ := thrown _ cut
    cases isThrown

end Indexed

end XmlParser
