import XmlParser.Basic
import Mathlib.Logic.Function.Basic

/-! Nodes and documents of the DOM: pointers are references into a heap. -/

set_option autoImplicit false

namespace XmlParser.Dom

open XmlParser.Computation

/-- A pointer to a node that is not null. -/
abbrev NodeRef := Nat

structure Attribute where
  namespaceUri : Bytes
  localName : Bytes
  qualifiedName : Bytes
  value : Bytes
  deriving DecidableEq, Repr

/-- What the classes derived from `Node` add to it. -/
inductive Payload where
  | document (storage : List NodeRef)
  | element (qualifiedName namespaceUri localName : Bytes) (attributes : List Attribute)
  | text (text : Bytes)
  | comment (text : Bytes)
  | processingInstruction (target data : Bytes)
  | cdataSection (text : Bytes)
  deriving DecidableEq, Repr

namespace Payload

def isDocument : Payload → Bool
  | .document _ => true
  | _ => false

def isElement : Payload → Bool
  | .element _ _ _ _ => true
  | _ => false

/-- The nodes whose `unique_ptr` a document holds. -/
def storage : Payload → List NodeRef
  | .document storage => storage
  | _ => []

end Payload

structure Node where
  owner : Option NodeRef
  parent : Option NodeRef := none
  children : List NodeRef := []
  payload : Payload
  deriving DecidableEq, Repr

/-- The live nodes, and the address of the next one to be made. -/
structure Heap where
  nodes : NodeRef → Option Node := fun _ => none
  nextRef : NodeRef := 0

abbrev DomM (α : Type) := Comp Heap Halt α

namespace Heap

/-- Write to the fields of a live node. -/
def update (reference : NodeRef) (change : Node → Node) (heap : Heap) : Heap :=
  { heap with nodes := Function.update heap.nodes reference ((heap.nodes reference).map change) }

def insert (node : Node) (heap : Heap) : Heap :=
  ⟨Function.update heap.nodes heap.nextRef (some node), heap.nextRef + 1⟩

/-- `delete` of the nodes of a storage. -/
def destroy (references : List NodeRef) (heap : Heap) : Heap :=
  { heap with nodes := fun reference => if references.contains reference then none else heap.nodes reference }

def payloadIs (test : Payload → Bool) (reference : NodeRef) (heap : Heap) : Bool :=
  ((heap.nodes reference).map fun node => test node.payload).getD false

end Heap

namespace Node

def setOwnerDocument (owner : Option NodeRef) (node : Node) : Node := { node with owner }

def setParent (parent : Option NodeRef) (node : Node) : Node := { node with parent }

def setChildren (children : List NodeRef) (node : Node) : Node := { node with children }

def setPayload (payload : Payload) (node : Node) : Node := { node with payload }

end Node

/-- The use of a node through a reference to it. -/
def deref (reference : NodeRef) : DomM Node := do
  match ← Comp.read fun heap => heap.nodes reference with
  | some node => pure node
  | none => Comp.throw .undefinedBehavior

def domError {α : Type} (message : String) : DomM α :=
  failAt .wellFormedness {} message

/-! ## Nodes -/

/-- The loop of `is_ancestor_of`. -/
def isAncestorLoop (possibleAncestor : NodeRef) : Nat → Option NodeRef → DomM Bool
  | _, none => pure false
  | 0, some _ => Comp.throw .outOfFuel
  | fuel + 1, some cursor =>
      if cursor == possibleAncestor then
        pure true
      else do
        let node ← deref cursor
        isAncestorLoop possibleAncestor fuel node.parent

/-- The addresses in use bound the loop. -/
def isAncestorOf (possibleAncestor reference : NodeRef) : DomM Bool := do
  let node ← deref reference
  isAncestorLoop possibleAncestor ((← Comp.read Heap.nextRef) + 1) node.parent

def removeChild (this child : NodeRef) : DomM Unit := do
  let node ← deref this
  if !node.children.contains child then
    domError "Node is not a child of this parent"
  else
    Comp.modify (Heap.update this (Node.setChildren (node.children.erase child)))
    Comp.modify (Heap.update child (Node.setParent none))

/-- The end of `append_child`, once nothing forbids the insertion. -/
def linkChild (this child : NodeRef) : DomM Unit := do
  match (← deref child).parent with
  | some parent => removeChild parent child
  | none => pure ()
  Comp.modify (Heap.update this fun node => node.setChildren (node.children ++ [child]))
  Comp.modify (Heap.update child (Node.setParent (some this)))

def appendChild (this child : NodeRef) : DomM Unit := do
  let node ← deref this
  let childNode ← deref child
  if childNode.payload.isDocument then
    domError "Document nodes cannot be inserted as children"
  else if node.owner.isNone || childNode.owner != node.owner then
    domError "Cannot insert a node owned by another document"
  else if child == this then
    domError "Cannot create a DOM cycle"
  else if ← isAncestorOf child this then
    domError "Cannot create a DOM cycle"
  else
    let heap ← Comp.read id
    if node.payload.isDocument && childNode.payload.isElement &&
        node.children.any (fun existing =>
          existing != child && heap.payloadIs Payload.isElement existing) then
      domError "Document already has a document element"
    else
      linkChild this child

/-- The loop of `set_attribute_ns`. -/
def storeAttribute (stored : Attribute) : List Attribute → List Attribute
  | [] => [stored]
  | existing :: rest =>
      if existing.namespaceUri == stored.namespaceUri &&
          existing.localName == stored.localName then
        { existing with qualifiedName := stored.qualifiedName, value := stored.value } :: rest
      else existing :: storeAttribute stored rest

def setAttributeNs (this : NodeRef) (namespaceUri localName qualifiedName value : Bytes) :
    DomM Unit := do
  match (← deref this).payload with
  | .element name uri localPart attributes =>
      Comp.modify (Heap.update this (Node.setPayload (.element name uri localPart
        (storeAttribute { namespaceUri, localName, qualifiedName, value } attributes))))
  | _ => Comp.throw .undefinedBehavior

def setAttribute (this : NodeRef) (name value : Bytes) : DomM Unit :=
  setAttributeNs this [] name name value

/-- `Text::set_text`. -/
def setText (this : NodeRef) (text : Bytes) : DomM Unit := do
  match (← deref this).payload with
  | .text _ => Comp.modify (Heap.update this (Node.setPayload (.text text)))
  | _ => Comp.throw .undefinedBehavior

/-! ## Documents -/

/-- A document, with its storage. -/
def derefDocument (reference : NodeRef) : DomM (Node × List NodeRef) := do
  let node ← deref reference
  match node.payload with
  | .document storage => pure (node, storage)
  | _ => Comp.throw .undefinedBehavior

/-- `Document::Document()`. -/
def newDocument : DomM NodeRef := do
  let this ← Comp.read Heap.nextRef
  Comp.modify (Heap.insert { owner := some this, payload := .document [] })
  pure this

def makeNode (this : NodeRef) (payload : Payload) : DomM NodeRef := do
  let (_, storage) ← derefDocument this
  let reference ← Comp.read Heap.nextRef
  Comp.modify (Heap.insert { owner := some this, payload })
  Comp.modify (Heap.update this (Node.setPayload (.document (storage ++ [reference]))))
  pure reference

/-- The local name that the constructor of `Element` stores. -/
def elementLocalName (qualifiedName localName : Bytes) : Bytes :=
  if localName.isEmpty then
    match qualifiedName.findIdx? (· == 0x3A) with
    | none => qualifiedName
    | some colon => qualifiedName.drop (colon + 1)
  else localName

def createElement (this : NodeRef) (qualifiedName namespaceUri localName : Bytes) : DomM NodeRef :=
  makeNode this
    (.element qualifiedName namespaceUri (elementLocalName qualifiedName localName) [])

def createText (this : NodeRef) (text : Bytes) : DomM NodeRef :=
  makeNode this (.text text)

def createComment (this : NodeRef) (text : Bytes) : DomM NodeRef :=
  makeNode this (.comment text)

def createProcessingInstruction (this : NodeRef) (target data : Bytes) : DomM NodeRef :=
  makeNode this (.processingInstruction target data)

def createCdataSection (this : NodeRef) (text : Bytes) : DomM NodeRef :=
  makeNode this (.cdataSection text)

/-- `for (...) body(item)`. -/
def forEach {α : Type} (body : α → DomM Unit) : List α → DomM Unit
  | [] => pure ()
  | item :: rest => do
      body item
      forEach body rest

def updateOwner (owner : NodeRef) : Nat → NodeRef → DomM Unit
  | 0, _ => Comp.throw .outOfFuel
  | fuel + 1, reference => do
      Comp.modify (Heap.update reference (Node.setOwnerDocument (some owner)))
      let node ← deref reference
      forEach (updateOwner owner fuel) node.children

/-- What the move constructor and the move assignment of `Document` share. The
storage that is replaced is destroyed, and the moved-from vectors are empty. -/
def takeContents (this other : NodeRef) : DomM Unit := do
  let (_, replaced) ← derefDocument this
  let (otherNode, storage) ← derefDocument other
  Comp.modify (Heap.update other fun node => (node.setPayload (.document [])).setChildren [])
  Comp.modify (Heap.destroy replaced)
  Comp.modify (Heap.update this fun node =>
    (node.setPayload (.document storage)).setChildren otherNode.children)
  forEach (fun child => Comp.modify (Heap.update child (Node.setParent (some this)))) otherNode.children
  let bound ← Comp.read Heap.nextRef
  forEach (updateOwner this (bound + 1)) storage

/-- `Document::Document(Document&& other)`. -/
def moveConstruct (other : NodeRef) : DomM NodeRef := do
  -- The argument is there before the new document is.
  let _ ← derefDocument other
  let this ← newDocument
  takeContents this other
  pure this

/-- `Document::operator=(Document&& other)`. -/
def moveAssign (this other : NodeRef) : DomM Unit :=
  if this == other then pure () else takeContents this other

/-! ## Runs -/

/-- A call of the client. -/
inductive Operation where
  | newDocument
  | createElement (this : NodeRef) (qualifiedName namespaceUri localName : Bytes)
  | createText (this : NodeRef) (text : Bytes)
  | createComment (this : NodeRef) (text : Bytes)
  | createProcessingInstruction (this : NodeRef) (target data : Bytes)
  | createCdataSection (this : NodeRef) (text : Bytes)
  | appendChild (this child : NodeRef)
  | removeChild (this child : NodeRef)
  | setText (this : NodeRef) (text : Bytes)
  | setAttribute (this : NodeRef) (name value : Bytes)
  | setAttributeNs (this : NodeRef) (namespaceUri localName qualifiedName value : Bytes)
  | moveConstruct (other : NodeRef)
  | moveAssign (this other : NodeRef)

namespace Operation

def perform : Operation → DomM Unit
  | newDocument => do
      let _ ← Dom.newDocument
  | createElement this qualifiedName namespaceUri localName => do
      let _ ← Dom.createElement this qualifiedName namespaceUri localName
  | createText this text => do
      let _ ← Dom.createText this text
  | createComment this text => do
      let _ ← Dom.createComment this text
  | createProcessingInstruction this target data => do
      let _ ← Dom.createProcessingInstruction this target data
  | createCdataSection this text => do
      let _ ← Dom.createCdataSection this text
  | appendChild this child => Dom.appendChild this child
  | removeChild this child => Dom.removeChild this child
  | setText this text => Dom.setText this text
  | setAttribute this name value => Dom.setAttribute this name value
  | setAttributeNs this namespaceUri localName qualifiedName value =>
      Dom.setAttributeNs this namespaceUri localName qualifiedName value
  | moveConstruct other => do
      let _ ← Dom.moveConstruct other
  | moveAssign this other => Dom.moveAssign this other

/-- The state after an operation, whether it returns or throws. -/
def after (heap : Heap) (operation : Operation) : Heap := (operation.perform.run heap).2

end Operation

/-- The state after a sequence of calls. A call through a reference to no live
node of the right class, which the client has no means to make, changes nothing. -/
def reached (operations : List Operation) : Heap := operations.foldl Operation.after {}

end XmlParser.Dom
