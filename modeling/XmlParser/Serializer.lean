import XmlParser.DomTree

/-! Serializing a document, and its nodes in document order. -/

set_option autoImplicit false

namespace XmlParser.Dom

open XmlParser.Computation Comp

/-! ## Escaping -/

def escapeText : Bytes → Bytes
  | [] => []
  | ch :: rest =>
      (if ch == 0x26 then ascii "&amp;"
      else if ch == 0x3C then ascii "&lt;"
      else if ch == 0x3E then ascii "&gt;"
      else [ch]) ++ escapeText rest

def escapeAttribute : Bytes → Bytes
  | [] => []
  | ch :: rest =>
      (if ch == 0x26 then ascii "&amp;"
      else if ch == 0x3C then ascii "&lt;"
      else if ch == 0x22 then ascii "&quot;"
      else [ch]) ++ escapeAttribute rest

def prefixOf (qname : Bytes) : Bytes :=
  match qname.findIdx? (· == 0x3A) with
  | none => []
  | some colon => qname.take colon

/-! ## Tags -/

/-- The declaration of the element's own namespace, and the prefixes it declares. -/
def elementDeclaration (qualifiedName namespaceUri : Bytes) : Bytes × List Bytes :=
  if namespaceUri.isEmpty then
    ([], [])
  else if (prefixOf qualifiedName).isEmpty then
    (ascii " xmlns=\"" ++ escapeAttribute namespaceUri ++ ascii "\"", [prefixOf qualifiedName])
  else
    (ascii " xmlns:" ++ prefixOf qualifiedName ++ ascii "=\"" ++ escapeAttribute namespaceUri ++
      ascii "\"", [prefixOf qualifiedName])

/-- The first loop over the attributes, with the prefixes declared so far. -/
def attributeDeclarations : List Attribute → List Bytes → Bytes
  | [], _ => []
  | stored :: rest, declared =>
      if !stored.namespaceUri.isEmpty && !declared.contains (prefixOf stored.qualifiedName) then
        ascii " xmlns:" ++ prefixOf stored.qualifiedName ++ ascii "=\"" ++
          escapeAttribute stored.namespaceUri ++ ascii "\"" ++
          attributeDeclarations rest (prefixOf stored.qualifiedName :: declared)
      else attributeDeclarations rest declared

/-- The second loop over the attributes. -/
def attributeTexts : List Attribute → Bytes
  | [] => []
  | stored :: rest =>
      [0x20] ++ stored.qualifiedName ++ ascii "=\"" ++ escapeAttribute stored.value ++
        ascii "\"" ++ attributeTexts rest

/-- A start tag without its end. -/
def tagText (qualifiedName namespaceUri : Bytes) (attributes : List Attribute) : Bytes :=
  let (declaration, declared) := elementDeclaration qualifiedName namespaceUri
  [0x3C] ++ qualifiedName ++ declaration ++ attributeDeclarations attributes declared ++
    attributeTexts attributes

/-! ## Nodes -/

/-- What happens while a document is serialized: `serialize_node` is applied to
a node, or bytes are put into the stream. -/
inductive Written where
  | call (reference : NodeRef)
  | bytes (text : Bytes)
  deriving DecidableEq, Repr

def writtenText (written : List Written) : Bytes :=
  written.flatMap fun
    | .call _ => []
    | .bytes text => text

/-- The nodes `serialize_node` is applied to. -/
def nodesWritten (written : List Written) : List NodeRef :=
  written.filterMap fun
    | .call reference => some reference
    | .bytes _ => none

/-- `child` serializes a child. -/
def serializeElement (child : NodeRef → DomM (List Written)) (qualifiedName namespaceUri : Bytes)
    (attributes : List Attribute) (children : List NodeRef) : DomM (List Written) := do
  if children.isEmpty then
    pure [.bytes (tagText qualifiedName namespaceUri attributes ++ ascii "/>")]
  else
    let inside ← collectEach child children
    pure ([.bytes (tagText qualifiedName namespaceUri attributes ++ ascii ">")] ++ inside ++
      [.bytes (ascii "</" ++ qualifiedName ++ ascii ">")])

/-- The recursion is on a bound for the height of the node. -/
def serializeNode : Nat → NodeRef → DomM (List Written)
  | 0, _ => Comp.throw .outOfFuel
  | fuel + 1, reference => do
      let node ← deref reference
      let written ←
        match node.payload with
        | .document _ => collectEach (serializeNode fuel) node.children
        | .element qualifiedName namespaceUri _ attributes =>
            serializeElement (serializeNode fuel) qualifiedName namespaceUri attributes node.children
        | .text text => pure [.bytes (escapeText text)]
        | .comment text => pure [.bytes (ascii "<!--" ++ text ++ ascii "-->")]
        | .processingInstruction target data =>
            if data.isEmpty then
              pure [.bytes (ascii "<?" ++ target ++ ascii "?>")]
            else
              pure [.bytes (ascii "<?" ++ target ++ [0x20] ++ data ++ ascii "?>")]
        | .cdataSection text => pure [.bytes (ascii "<![CDATA[" ++ text ++ ascii "]]>")]
      pure (.call reference :: written)

/-- `serialize` to a string; a string stream stays good. -/
def serialize (document : NodeRef) : DomM (List Written) := do
  let bound ← Comp.read Heap.nextRef
  serializeNode (bound + 1) document

/-! ## Document order -/

def collectDepthFirst : Nat → NodeRef → DomM (List NodeRef)
  | 0, _ => Comp.throw .outOfFuel
  | fuel + 1, reference => do
      let node ← deref reference
      collectEach (fun child => do
        let below ← collectDepthFirst fuel child
        pure (child :: below)) node.children

def depthFirst (document : NodeRef) : DomM (List NodeRef) := do
  let bound ← Comp.read Heap.nextRef
  collectDepthFirst (bound + 1) document

end XmlParser.Dom
