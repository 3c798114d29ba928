import XmlParser.Dtd

/-! Elements, attributes, namespaces and validation, and the whole document. -/

set_option autoImplicit false

namespace XmlParser

open XmlParser.Computation

structure RawAttribute where
  name : Bytes
  value : Bytes
  location : SourceLocation
  deriving DecidableEq, Repr

/-- `last` of a stack that the source takes `back()` of. -/
def topOf {σ α : Type} (stack : List α) : Comp σ Halt α :=
  match stack with
  | [] => Comp.throw .undefinedBehavior
  | top :: _ => pure top

namespace Parser

variable (p : Parser)

/-! ## Attributes and namespaces -/

def attributeValueRound (start : SourceLocation) (quote : Nat) (value : Bytes) :
    ParserM (LoopStep Bytes Bytes) := do
  if (← look eof) || (← look peek) == quote then
    scan (p.expect quote "attribute quote")
    pure (.done value)
  else if (← look peek) == 0x3C then
    p.failHere .wellFormedness "'<' is not allowed in attribute values"
  else
    let value ← p.takePiece value
    p.enforceTokenSize value.length start
    pure (.next value)

def parseAttributeValue : ParserM Bytes := do
  let start ← look p.location
  let quote ← look peek
  if quote != 0x27 && quote != 0x22 then
    p.failHere .wellFormedness "expected quoted attribute value"
  else
    scan p.advance
    Comp.loop (fun _ s => s.rest.length) .outOfFuel (p.attributeValueRound start quote) []

def attributesRound (attributes : List RawAttribute) :
    ParserM (LoopStep (List RawAttribute) (List RawAttribute)) := do
  scan p.skipWhitespace
  if (← look peek) == 0x3E || (← look (startsWith (u32 "/>"))) then
    pure (.done attributes)
  else
    let location ← look p.location
    let name ← scan p.parseName
    if attributes.any (fun existing => existing.name == name) then
      p.failHere .wellFormedness "duplicate attribute name"
    else if attributes.length + 1 > p.options.maxAttributesPerElement then
      p.failHere .resourceLimit "attribute count exceeds max_attributes_per_element"
    else
      scan p.skipWhitespace
      scan (p.expect 0x3D "'=' after attribute name")
      scan p.skipWhitespace
      let value ← p.parseAttributeValue
      pure (.next (attributes ++ [⟨name, value, location⟩]))

def parseAttributes : ParserM (List RawAttribute) :=
  Comp.loop (fun _ s => s.rest.length) .outOfFuel p.attributesRound []

def isNamespaceDeclaration (name : Bytes) : Bool :=
  p.options.namespaces = .enabled &&
    (name == ascii "xmlns" || (ascii "xmlns:").isPrefixOf name)

/-- The loop of `collect_namespace_declarations`; a later declaration of a
prefix replaces an earlier one. -/
def collectDeclarations : List RawAttribute → NamespaceScope → NamespaceScope
  | [], declarations => declarations
  | raw :: rest, declarations =>
      if raw.name == ascii "xmlns" then
        collectDeclarations rest (assignKey [] raw.value declarations)
      else if (ascii "xmlns:").isPrefixOf raw.name then
        collectDeclarations rest (assignKey (raw.name.drop 6) raw.value declarations)
      else collectDeclarations rest declarations

def collectNamespaceDeclarations (attributes : List RawAttribute) : NamespaceScope :=
  if p.options.namespaces = .disabled then [] else collectDeclarations attributes []

def lookupNamespace (scopes : List NamespaceScope) (pfx : Bytes) : Bytes :=
  if pfx == ascii "xml" then
    ascii "http://www.w3.org/XML/1998/namespace"
  else
    (scopes.findSome? (lookupKey pfx)).getD []

def resolveName {σ : Type} (scopes : List NamespaceScope) (qname : Bytes) (isElement : Bool)
    (location : SourceLocation) : Comp σ Halt QualifiedName :=
  if p.options.namespaces = .disabled then
    pure ⟨[], qname, qname⟩
  else
    match qname.findIdx? (· == 0x3A) with
    | none => pure ⟨if isElement then lookupNamespace scopes [] else [], qname, qname⟩
    | some colon =>
        let pfx := qname.take colon
        let localName := qname.drop (colon + 1)
        if colon = 0 || colon + 1 ≥ qname.length || localName.contains 0x3A then
          failAt .wellFormedness location "invalid namespace-qualified name"
        else
          let uri := lookupNamespace scopes pfx
          if uri.isEmpty && pfx != ascii "xml" then
            failAt .wellFormedness location "undeclared namespace prefix"
          else
            pure ⟨uri, localName, qname⟩

/-- The loop that builds the attribute views of a start tag, with the expanded
names seen so far. -/
def attributeViews {σ : Type} (scopes : List NamespaceScope) :
    List RawAttribute → List (Bytes × Bytes) → Comp σ Halt (List AttributeView)
  | [], _ => pure []
  | raw :: rest, seen =>
      if p.isNamespaceDeclaration raw.name then
        attributeViews scopes rest seen
      else do
        let name ← p.resolveName scopes raw.name false raw.location
        if seen.contains (name.uri, name.localName) then
          failAt .wellFormedness raw.location "duplicate expanded attribute name"
        else
          let views ← attributeViews scopes rest ((name.uri, name.localName) :: seen)
          pure (⟨name, raw.value, raw.location⟩ :: views)

/-! ## Validation -/

/-- The name test of `validate_element`, made for the document element only. -/
def validateRoot (frame : ValidationFrame) (location : SourceLocation) : ParserM Unit := do
  let s ← Comp.read id
  if s.validationStack.isEmpty && frame.name != s.dtd.rootName then
    p.recoverableValidityError location "document element does not match DOCTYPE"
  else
    pure ()

/-- The content test of `validate_element`. -/
def validateContent (frame : ValidationFrame) (location : SourceLocation) : ParserM Unit := do
  match lookupKey frame.name (← Comp.read fun s => s.dtd.elements) with
  | none => p.recoverableValidityError location "element has no DTD declaration"
  | some declaration =>
      match declaration.kind with
      | .any => pure ()
      | .empty =>
          if !frame.childElements.isEmpty || frame.hasNonWhitespaceText then
            p.recoverableValidityError location "EMPTY element has content"
          else pure ()
      | .pcdata =>
          if !frame.childElements.isEmpty then
            p.recoverableValidityError location "PCDATA element has child elements"
          else pure ()
      | .children =>
          if frame.childElements != declaration.children || frame.hasNonWhitespaceText then
            p.recoverableValidityError location "element children do not match DTD model"
          else pure ()

def validateElement (frame : ValidationFrame) (location : SourceLocation) :
    ParserM Unit := do
  let s ← Comp.read id
  if p.options.validation != .dtd || !s.dtd.hasDoctype then
    pure ()
  else
    p.validateRoot frame location
    p.validateContent frame location

/-- Add the name of a finished child to the frame on top, if there is one. -/
def recordChild (name : Bytes) : List ValidationFrame → List ValidationFrame
  | [] => []
  | frame :: rest =>
      { frame with childElements := frame.childElements ++ [name] } :: rest

def finishValidationFrame (location : SourceLocation) : ParserM Unit := do
  let frame ← topOf (← Comp.read ParserState.validationStack)
  Comp.modify fun s => { s with validationStack := s.validationStack.tail }
  p.validateElement frame location
  Comp.modify fun s => { s with validationStack := recordChild frame.name s.validationStack }

/-! ## Content -/

def textRound (start : SourceLocation) (text : Bytes) : ParserM (LoopStep Bytes Bytes) := do
  if (← look eof) || (← look peek) == 0x3C then
    pure (.done text)
  else
    let text ← p.takePiece text
    p.enforceTokenSize text.length start
    pure (.next text)

/-- Mark the frame on top, if there is one. -/
def recordText : List ValidationFrame → List ValidationFrame
  | [] => []
  | frame :: rest => { frame with hasNonWhitespaceText := true } :: rest

/-- `parse_text` once the run of text has ended. -/
def deliverText (text : Bytes) : ParserM Unit := do
  if text.isEmpty then
    pure ()
  else
    Comp.modify fun s =>
      if text.any (fun ch => !isAsciiSpace ch) then
        { s with validationStack := recordText s.validationStack }
      else s
    p.emit (.characters text)

def parseText : ParserM Unit := do
  let start ← look p.location
  let text ← Comp.loop (fun _ s => s.rest.length) .outOfFuel (p.textRound start) []
  p.deliverText text

def parseEndTag (openName : Bytes) : ParserM Unit := do
  let endStart ← look p.location
  scan (p.expectSequence (u32 "</") "end tag")
  let endName ← scan p.parseName
  scan p.skipWhitespace
  scan (p.expect 0x3E "'>'")
  if endName != openName then
    failAt .wellFormedness endStart "mismatched end tag"
  else
    p.emit (.endElement (← topOf (← Comp.read ParserState.elementNameStack)))

/-- One round of the loop of `parse_content`; `element` parses a child. -/
def contentRound (element : ParserM Unit) (openName : Bytes) (_ : Unit) :
    ParserM (LoopStep Unit Unit) := do
  if ← look eof then
    p.failHere .wellFormedness "truncated XML element content"
  else if ← look (startsWith (u32 "</")) then
    p.parseEndTag openName
    pure (.done ())
  else if ← look (startsWith (u32 "<!--")) then
    p.parseComment
    pure (.next ())
  else if ← look (startsWith (u32 "<![CDATA[")) then
    p.parseCdata
    pure (.next ())
  else if ← look (startsWith (u32 "<?")) then
    p.parseProcessingInstruction
    pure (.next ())
  else if (← look peek) == 0x3C then
    element
    pure (.next ())
  else
    p.parseText
    pure (.next ())

def parseContent (element : ParserM Unit) (openName : Bytes) : ParserM Unit :=
  Comp.loop (fun _ s => s.rest.length) .outOfFuel (p.contentRound element openName) ()

/-! ## Elements -/

def pushScope (scope : NamespaceScope) : ParserM Unit :=
  Comp.modify fun s => { s with namespaceScopes := scope :: s.namespaceScopes }

def pushElement (name : Bytes) (elementName : QualifiedName) : ParserM Unit :=
  Comp.modify fun s =>
    { s with
      elementStack := name :: s.elementStack
      elementNameStack := elementName :: s.elementNameStack
      validationStack := { name } :: s.validationStack }

/-- The three `pop_back` calls at both exits of `parse_element`. -/
def popElement : ParserM Unit := do
  let s ← Comp.read id
  if s.namespaceScopes.isEmpty || s.elementNameStack.isEmpty || s.elementStack.isEmpty then
    Comp.throw .undefinedBehavior
  else
    Comp.modify fun s =>
      { s with
        namespaceScopes := s.namespaceScopes.tail
        elementNameStack := s.elementNameStack.tail
        elementStack := s.elementStack.tail }

/-- `parse_element` up to the name of the tag. -/
def parseTagName (start : SourceLocation) : ParserM Bytes := do
  scan (p.expect 0x3C "'<'")
  let next ← look peek
  if next == 0x2F || next == 0x21 || next == 0x3F then
    failAt .wellFormedness start "expected element start tag"
  else
    let name ← scan p.parseName
    if (← Comp.read fun s => s.elementStack.length + 1) > p.options.maxDepth then
      failAt .resourceLimit start "XML element depth limit exceeded"
    else
      pure name

/-- The start tag up to its closing bracket, with the `start_element` callback. -/
def openElement (name : Bytes) (start : SourceLocation) : ParserM QualifiedName := do
  let attributes ← p.parseAttributes
  pushScope (p.collectNamespaceDeclarations attributes)
  let scopes ← Comp.read ParserState.namespaceScopes
  let elementName ← p.resolveName scopes name true start
  let views ← p.attributeViews scopes attributes []
  pushElement name elementName
  p.emit (.startElement elementName views)
  pure elementName

/-- The two exits of `parse_element`, up to the end of their validation;
`element` parses a child. -/
def parseBody (element : ParserM Unit) (name : Bytes) (elementName : QualifiedName) :
    ParserM Unit := do
  if ← look (startsWith (u32 "/>")) then
    scan (p.expectSequence (u32 "/>") "empty element close")
    p.emit (.endElement elementName)
  else
    scan (p.expect 0x3E "'>'")
    p.parseContent element name

/-- The recursion is on a bound for the depth of the element. -/
def parseElement : Nat → ParserM Unit
  | 0 => Comp.throw .outOfFuel
  | fuel + 1 => do
      let start ← look p.location
      let name ← p.parseTagName start
      let elementName ← p.openElement name start
      p.parseBody (parseElement fuel) name elementName
      p.finishValidationFrame start
      popElement

/-- `Parser::parse`. The characters left bound the depth of the element. -/
def parse : ParserM Unit := do
  p.emit .startDocument
  scan p.parseXmlDeclarationIfPresent
  p.skipMisc
  p.parseDoctypeIfPresent
  p.skipMisc
  p.parseElement ((← look List.length) + 1)
  p.skipMisc
  if !(← look eof) then
    p.failHere .wellFormedness "extra content after document element"
  else
    p.emit .endDocument

end Parser

/-- How a call of `parse_xml_document` ends, and the parser it leaves behind. -/
abbrev Outcome := Except Halt Unit × ParserState

def parseXmlDocument (xml : Bytes) (handler : SaxHandler) (options : ParserOptions) : Outcome :=
  match decodeDocument xml options with
  | .error error => (.error (.thrown (.xmlParse error)), { rest := [] })
  | .ok document =>
      let p : Parser := { handler, options, endLocation := document.endLocation }
      p.parse.run { rest := document.chars }

section Decoded

variable {xml : Bytes} {options : ParserOptions}

theorem parseXmlDocument_of_error {error : XmlParseException} (decoded : decodeDocument xml options = .error error)
    (handler : SaxHandler) :
    parseXmlDocument xml handler options = (.error (.thrown (.xmlParse error)), { rest := [] }) := by
  unfold parseXmlDocument
  rw [decoded]

theorem parseXmlDocument_of_ok {document : DecodedDocument} (decoded : decodeDocument xml options = .ok document)
    (handler : SaxHandler) :
    parseXmlDocument xml handler options =
      (Parser.mk handler options document.endLocation).parse.run { rest := document.chars } := by
  unfold parseXmlDocument
  rw [decoded]

end Decoded

end XmlParser
