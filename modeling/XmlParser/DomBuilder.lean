import XmlParser.Dom
import XmlParser.Elements

/-! `DomBuilder` and the `parse` that returns a document. -/

set_option autoImplicit false

namespace XmlParser

open XmlParser.Computation

/-- The members of `DomBuilder`, with the heap they work on. The element stack
has its last element in front. -/
structure DomBuilder where
  heap : Dom.Heap
  document : Dom.NodeRef
  nodeCount : Nat := 0
  elementStack : List Dom.NodeRef := []

abbrev BuilderM (α : Type) := Comp DomBuilder Halt α

namespace DomBuilder

/-- Run a member of the DOM. -/
def onHeap {α : Type} (source : Dom.DomM α) : BuilderM α :=
  Comp.onPart heap (fun heap builder => { builder with heap }) source

def ensureNodeAvailable (options : ParserOptions) : BuilderM Unit := do
  if (← Comp.read nodeCount) + 1 > options.maxDomNodes then
    failAt .resourceLimit {} "DOM node count exceeds max_dom_nodes"
  else
    Comp.modify fun builder => { builder with nodeCount := builder.nodeCount + 1 }

def appendToCurrentParent (node : Dom.NodeRef) : BuilderM Unit := do
  match ← Comp.read elementStack with
  | [] => onHeap (Dom.appendChild (← Comp.read document) node)
  | parent :: _ => onHeap (Dom.appendChild parent node)

/-- What the callbacks for the leaves share; `create` makes the node. -/
def addLeaf (options : ParserOptions) (create : Dom.NodeRef → Dom.DomM Dom.NodeRef) : BuilderM Unit := do
  ensureNodeAvailable options
  let node ← onHeap (create (← Comp.read document))
  appendToCurrentParent node

def startElement (options : ParserOptions) (name : QualifiedName) (attributes : List AttributeView) :
    BuilderM Unit := do
  ensureNodeAvailable options
  let element ← onHeap
    (Dom.createElement (← Comp.read document) name.qualifiedName name.uri name.localName)
  onHeap (Dom.forEach (fun (view : AttributeView) =>
    Dom.setAttributeNs element view.name.uri view.name.localName
      view.name.qualifiedName view.value) attributes)
  appendToCurrentParent element
  Comp.modify fun builder => { builder with elementStack := element :: builder.elementStack }

/-- The callbacks of `DomBuilder`. -/
def handle (options : ParserOptions) : Event → BuilderM Unit
  | .startDocument => pure ()
  | .endDocument => pure ()
  | .startElement name attributes => startElement options name attributes
  | .endElement _ =>
      -- `pop_back`, unless the stack is empty.
      Comp.modify fun builder => { builder with elementStack := builder.elementStack.tail }
  | .characters text => addLeaf options fun document => Dom.createText document text
  | .processingInstruction target data =>
      addLeaf options fun document => Dom.createProcessingInstruction document target data
  | .comment text => addLeaf options fun document => Dom.createComment document text
  | .cdata text => addLeaf options fun document => Dom.createCdataSection document text

/-- The callbacks of a sequence of events, up to the first one that throws. -/
def handleAll (options : ParserOptions) : List Event → BuilderM Unit
  | [] => pure ()
  | event :: rest => do
      handle options event
      handleAll options rest

/-- A new builder: its document is the only node there is. -/
def initial : DomBuilder :=
  { heap := (Dom.newDocument.run {}).2, document := 0 }

/-- The builder after a sequence of calls, with how the last one of them ended. -/
def after (options : ParserOptions) (events : List Event) : Except Halt Unit × DomBuilder :=
  (handleAll options events).run initial

/-- The builder as a handler: what it throws is determined by the calls so far. -/
def handler (options : ParserOptions) : SaxHandler where
  respond history :=
    match (after options history).1 with
    | .error (.thrown exception) => some exception
    | _ => none

end DomBuilder

/-- `parse(xml, options)`: the document returned, or what stops the call first,
the builder or the parser. -/
def parseDocument (xml : Bytes) (options : ParserOptions) : Except Halt Dom.NodeRef × Dom.Heap :=
  let outcome := parseXmlDocument xml (DomBuilder.handler options) options
  match DomBuilder.after options outcome.2.events with
  | (.error halt, builder) => (.error halt, builder.heap)
  | (.ok (), builder) =>
      match outcome.1 with
      | .error halt => (.error halt, builder.heap)
      | .ok () => (Dom.moveConstruct builder.document).run builder.heap

end XmlParser
