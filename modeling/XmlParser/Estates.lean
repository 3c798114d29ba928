import XmlParser.SerializedNodes

/-! Documents without pointers: what each of them owns is a row of trees, and a
call of the client cuts and grafts them. -/

set_option autoImplicit false

namespace XmlParser.Dom

open XmlParser.Computation Comp

/-! ## Cutting and grafting -/

namespace Nodes

/-- The references of the siblings themselves. -/
def tops : Nodes → List NodeRef
  | nil => []
  | cons reference _ _ rest => reference :: rest.tops

/-- The siblings that are elements. -/
def elements : Nodes → List NodeRef
  | nil => []
  | cons reference payload _ rest => if payload.isElement then reference :: rest.elements else rest.elements

/-- The nodes without a node and what is below it. -/
def without (child : NodeRef) : Nodes → Nodes
  | nil => nil
  | cons reference payload below rest =>
      if reference = child then rest.without child
      else cons reference payload (below.without child) (rest.without child)

/-- A node's payload and the nodes below it. -/
def find? (wanted : NodeRef) : Nodes → Option (Payload × Nodes)
  | nil => none
  | cons reference payload below rest =>
      if reference = wanted then some (payload, below) else (below.find? wanted).or (rest.find? wanted)

/-- The nodes with a tree behind the children of one of them. -/
def graft (this : NodeRef) : Nodes → Nodes → Nodes
  | nil, _ => nil
  | cons reference payload below rest, tree =>
      cons reference payload
        (if reference = this then (below.graft this tree).append tree else below.graft this tree)
        (rest.graft this tree)

/-- The nodes with another payload at one of them. -/
def repaint (this : NodeRef) (repainted : Payload) : Nodes → Nodes
  | nil => nil
  | cons reference payload below rest =>
      cons reference (if reference = this then repainted else payload) (below.repaint this repainted)
        (rest.repaint this repainted)

/-- The nodes with the first one under another reference. -/
def headed (this : NodeRef) : Nodes → Nodes
  | nil => nil
  | cons _ payload below rest => cons this payload below rest

theorem find?_isSome (wanted : NodeRef) (nodes : Nodes) :
    (nodes.find? wanted).isSome = true ↔ wanted ∈ nodes.references := by
  induction nodes with
  | nil => simp [find?, references]
  | cons reference payload below rest ihBelow ihRest =>
      unfold find? references
      by_cases same : reference = wanted
      · simp [same]
      · rw [if_neg same, Option.isSome_or, Bool.or_eq_true, ihBelow, ihRest, List.mem_cons, List.mem_append]
        simp [Ne.symm same]

end Nodes

/-! ## Estates -/

/-- What the documents own. A document's row of trees starts with its own one;
behind it come the trees that hang on nothing, in the order they came loose. -/
structure Estate where
  owned : NodeRef → Nodes := fun _ => .nil
  nextRef : NodeRef := 0

/-- Where a node is: the document that owns it, its payload, and what is below it. -/
structure Site where
  owner : NodeRef
  payload : Payload
  below : Nodes

namespace Estate

def siteIn (reference : NodeRef) (estate : Estate) (document : NodeRef) : Option Site :=
  ((estate.owned document).find? reference).map fun found => ⟨document, found.1, found.2⟩

def site? (reference : NodeRef) (estate : Estate) : Option Site :=
  (List.range estate.nextRef).findSome? (estate.siteIn reference)

/-- The nodes that a document owns are replaced. -/
def grant (document : NodeRef) (nodes : Nodes) (estate : Estate) : Estate :=
  { estate with owned := Function.update estate.owned document nodes }

def refuse (message : String) : Except Halt Estate :=
  .error (.thrown (.xmlParse ⟨.wellFormedness, {}, message⟩))

/-- No node is there, or one of another class. -/
def misused : Except Halt Estate := .error .undefinedBehavior

def newDocument (estate : Estate) : Estate :=
  ⟨Function.update estate.owned estate.nextRef (.cons estate.nextRef (.document []) .nil .nil),
    estate.nextRef + 1⟩

/-- A tree of one node, which hangs on nothing. -/
def create (this : NodeRef) (payload : Payload) (estate : Estate) : Except Halt Estate :=
  match estate.owned this with
  | .nil => misused
  | nodes => .ok ⟨Function.update estate.owned this
      (nodes.append (.cons estate.nextRef payload .nil .nil)), estate.nextRef + 1⟩

/-- Between two nodes of one document: the child with all that is below it goes
from where it is to the end of the children. -/
def appendChild (this child : NodeRef) (estate : Estate) : Except Halt Estate :=
  match estate.site? this, estate.site? child with
  | some parent, some site =>
      let tree := Nodes.cons child site.payload site.below .nil
      if site.payload.isDocument then refuse "Document nodes cannot be inserted as children"
      else if site.owner ≠ parent.owner then refuse "Cannot insert a node owned by another document"
      else if this ∈ tree.references then refuse "Cannot create a DOM cycle"
      else if parent.payload.isDocument ∧ site.payload.isElement ∧
          ∃ existing ∈ parent.below.elements, existing ≠ child then
        refuse "Document already has a document element"
      else
        .ok (estate.grant parent.owner (((estate.owned parent.owner).without child).graft this tree))
  | _, _ => misused

/-- The child with all that is below it comes loose. -/
def removeChild (this child : NodeRef) (estate : Estate) : Except Halt Estate :=
  match estate.site? this with
  | none => misused
  | some parent =>
      if child ∉ parent.below.tops then refuse "Node is not a child of this parent"
      else
        match estate.site? child with
        | none => misused
        | some site => .ok (estate.grant parent.owner
            (((estate.owned parent.owner).without child).append (.cons child site.payload site.below .nil)))

/-- Other contents for a node, where its class has them. -/
def repaint (this : NodeRef) (change : Payload → Option Payload) (estate : Estate) : Except Halt Estate :=
  match estate.site? this with
  | none => misused
  | some site =>
      match change site.payload with
      | none => misused
      | some payload => .ok (estate.grant site.owner ((estate.owned site.owner).repaint this payload))

/-- All that `other` owns goes to `this`, whose own nodes are gone. -/
def takeContents (this other : NodeRef) (estate : Estate) : Except Halt Estate :=
  match estate.owned this, estate.owned other with
  | .nil, _ => misused
  | _, .nil => misused
  | _, nodes => .ok ((estate.grant this (nodes.headed this)).grant other (.cons other (.document []) .nil .nil))

def moveConstruct (other : NodeRef) (estate : Estate) : Except Halt Estate :=
  match estate.owned other with
  | .nil => misused
  | _ => estate.newDocument.takeContents estate.nextRef other

def moveAssign (this other : NodeRef) (estate : Estate) : Except Halt Estate :=
  if this = other then .ok estate else estate.takeContents this other

/-- `set_text`. -/
def texted (contents : Bytes) : Payload → Option Payload
  | .text _ => some (.text contents)
  | _ => none

/-- `set_attribute_ns`. -/
def attributed (stored : Attribute) : Payload → Option Payload
  | .element name uri localPart attributes =>
      some (.element name uri localPart (storeAttribute stored attributes))
  | _ => none

/-- The document's own tree, without the document. -/
def tree (document : NodeRef) (estate : Estate) : Nodes :=
  match estate.owned document with
  | .nil => .nil
  | .cons _ _ below _ => below

/-- What a call of the client does to the trees. -/
def perform (estate : Estate) : Operation → Except Halt Estate
  | .newDocument => .ok estate.newDocument
  | .createElement this qualifiedName namespaceUri localName =>
      estate.create this (.element qualifiedName namespaceUri (elementLocalName qualifiedName localName) [])
  | .createText this text => estate.create this (.text text)
  | .createComment this text => estate.create this (.comment text)
  | .createProcessingInstruction this target data => estate.create this (.processingInstruction target data)
  | .createCdataSection this text => estate.create this (.cdataSection text)
  | .appendChild this child => estate.appendChild this child
  | .removeChild this child => estate.removeChild this child
  | .setText this text => estate.repaint this (texted text)
  | .setAttribute this name value => estate.repaint this (attributed ⟨[], name, name, value⟩)
  | .setAttributeNs this namespaceUri localName qualifiedName value =>
      estate.repaint this (attributed ⟨namespaceUri, localName, qualifiedName, value⟩)
  | .moveConstruct other => estate.moveConstruct other
  | .moveAssign this other => estate.moveAssign this other

/-- How a call ended, and what it left. -/
def step (estate : Estate) (operation : Operation) : Except Halt Unit × Estate :=
  match estate.perform operation with
  | .ok after => (.ok (), after)
  | .error halt => (.error halt, estate)

/-- How the calls of a client ended, one by one, and what they left. -/
def run (estate : Estate) : List Operation → List (Except Halt Unit) × Estate
  | [] => ([], estate)
  | operation :: rest =>
      let (outcome, after) := estate.step operation
      let (outcomes, final) := after.run rest
      (outcome :: outcomes, final)

end Estate

/-- How the calls of a client end on a heap, one by one, and what they leave. -/
def runAll (heap : Heap) : List Operation → List (Except Halt Unit) × Heap
  | [] => ([], heap)
  | operation :: rest =>
      let (outcome, after) := operation.perform.run heap
      let (outcomes, final) := runAll after rest
      (outcome :: outcomes, final)

end XmlParser.Dom
