import XmlParser.DomForest

/-! The nodes below a document as a tree, and the events it stands for. -/

set_option autoImplicit false

namespace XmlParser.Dom

open XmlParser.Computation Comp

/-- Sibling nodes in document order, each with the nodes below it. -/
inductive Nodes where
  | nil
  | cons (reference : NodeRef) (payload : Payload) (below rest : Nodes)

/-- What a client sees of a payload. -/
def Payload.visible : Payload → Payload
  | .document _ => .document []
  | payload => payload

def Attribute.view (stored : Attribute) : AttributeView :=
  ⟨⟨stored.namespaceUri, stored.localName, stored.qualifiedName⟩, stored.value, {}⟩

namespace Payload

/-- The events in front of the children of a node. -/
def opening : Payload → List Event
  | .document _ => []
  | .element qualifiedName namespaceUri localName attributes =>
      [.startElement ⟨namespaceUri, localName, qualifiedName⟩ (attributes.map Attribute.view)]
  | .text contents => [.characters contents]
  | .comment contents => [.comment contents]
  | .processingInstruction target data => [.processingInstruction target data]
  | .cdataSection contents => [.cdata contents]

/-- The events behind the children of a node. -/
def closing : Payload → List Event
  | .element qualifiedName namespaceUri localName _ =>
      [.endElement ⟨namespaceUri, localName, qualifiedName⟩]
  | _ => []

@[simp] theorem opening_visible (payload : Payload) : payload.visible.opening = payload.opening := by
  cases payload <;> rfl

@[simp] theorem closing_visible (payload : Payload) : payload.visible.closing = payload.closing := by
  cases payload <;> rfl

end Payload

/-! ## Flattening -/

/-- What a loop over the children of a node collects. -/
def collectEach {α : Type} (body : NodeRef → DomM (List α)) : List NodeRef → DomM (List α)
  | [] => pure []
  | child :: rest => do
      let first ← body child
      let others ← collectEach body rest
      pure (first ++ others)

/-- The events of a node; the recursion is on a bound for its height. -/
def flattenNode : Nat → NodeRef → DomM (List Event)
  | 0, _ => Comp.throw .outOfFuel
  | fuel + 1, reference => do
      let node ← deref reference
      let inside ← collectEach (flattenNode fuel) node.children
      pure (node.payload.opening ++ inside ++ node.payload.closing)

/-- A document in document order: the names and attributes of its elements, the
contents of the other nodes, and where elements end. -/
def flatten (document : NodeRef) : DomM (List Event) := do
  let bound ← Comp.read Heap.nextRef
  flattenNode (bound + 1) document

/-! ## Trees -/

/-- References of nodes that exist are fewer than the addresses in use. -/
theorem length_le_of_nodup {references : List NodeRef} {bound : Nat} (distinct : references.Nodup)
    (below : ∀ reference ∈ references, reference < bound) : references.length ≤ bound := by
  have bounded := (distinct.subperm fun reference member => List.mem_range.mpr (below reference member)).length_le
  rwa [List.length_range] at bounded

namespace Nodes

def append : Nodes → Nodes → Nodes
  | nil, others => others
  | cons reference payload below rest, others => cons reference payload below (rest.append others)

/-- The references in document order. -/
def references : Nodes → List NodeRef
  | nil => []
  | cons reference _ below rest => reference :: (below.references ++ rest.references)

def events : Nodes → List Event
  | nil => []
  | cons _ payload below rest => payload.opening ++ below.events ++ payload.closing ++ rest.events

def height : Nodes → Nat
  | nil => 0
  | cons _ _ below rest => max (below.height + 1) rest.height

/-- Only elements have nodes below them, and no node is a document. -/
def Built : Nodes → Prop
  | nil => True
  | cons _ payload below rest =>
      payload.isDocument = false ∧ (payload.isElement = false → below = nil) ∧ below.Built ∧ rest.Built

@[simp] theorem references_append (first second : Nodes) :
    (first.append second).references = first.references ++ second.references := by
  induction first with
  | nil => rfl
  | cons reference payload below rest _ ih => simp [append, references, ih]

@[simp] theorem events_append (first second : Nodes) :
    (first.append second).events = first.events ++ second.events := by
  induction first with
  | nil => rfl
  | cons reference payload below rest _ ih => simp [append, events, ih]

theorem Built.append {first second : Nodes} (built : first.Built) (after : second.Built) :
    (first.append second).Built := by
  induction first with
  | nil => exact after
  | cons reference payload below rest _ ih =>
      obtain ⟨inner, bare, inside, others⟩ := built
      exact ⟨inner, bare, inside, ih others⟩

theorem height_le (nodes : Nodes) : nodes.height ≤ nodes.references.length := by
  induction nodes with
  | nil => exact Nat.le_refl 0
  | cons reference payload below rest ihBelow ihRest =>
      simp only [height, references, List.length_cons, List.length_append]
      omega

end Nodes

/-- What a heap says about a node below a document. -/
def Heap.content (heap : Heap) (reference : NodeRef) : Option (List NodeRef × Payload) :=
  (heap.nodes reference).map fun node => (node.children, node.payload.visible)

theorem Heap.content_of_nodes {heap : Heap} {reference : NodeRef} {node : Node}
    (found : heap.nodes reference = some node) :
    heap.content reference = some (node.children, node.payload.visible) := by
  unfold Heap.content
  rw [found]
  rfl

/-- The heap holds the tree below these references. -/
inductive Shows (heap : Heap) : List NodeRef → Nodes → Prop where
  | nil : Shows heap [] .nil
  | cons {reference : NodeRef} {children refs : List NodeRef} {payload : Payload} {below rest : Nodes}
      (found : heap.content reference = some (children, payload)) (inside : Shows heap children below)
      (after : Shows heap refs rest) : Shows heap (reference :: refs) (.cons reference payload below rest)

namespace Shows

variable {heap : Heap}

theorem append {first second : List NodeRef} {nodes others : Nodes} (shows : Shows heap first nodes)
    (after : Shows heap second others) : Shows heap (first ++ second) (nodes.append others) := by
  induction shows with
  | nil => exact after
  | cons found inside _ _ ih => exact .cons found inside ih

/-- What is not below does not matter. -/
theorem frame {other : Heap} {refs : List NodeRef} {nodes : Nodes} (shows : Shows heap refs nodes)
    (same : ∀ reference ∈ nodes.references, other.content reference = heap.content reference) :
    Shows other refs nodes := by
  induction shows with
  | nil => exact .nil
  | cons found _ _ ihInside ihAfter =>
      refine .cons ?_ (ihInside fun reference member => ?_) (ihAfter fun reference member => ?_)
      · rw [same _ List.mem_cons_self]
        exact found
      · exact same _ (List.mem_cons_of_mem _ (List.mem_append_left _ member))
      · exact same _ (List.mem_cons_of_mem _ (List.mem_append_right _ member))

theorem run_flatten {refs : List NodeRef} {nodes : Nodes} (shows : Shows heap refs nodes) {fuel : Nat}
    (high : nodes.height ≤ fuel) :
    (collectEach (flattenNode fuel) refs).run heap = (.ok nodes.events, heap) := by
  induction shows generalizing fuel with
  | nil => rfl
  | @cons reference children refs payload below rest found inside after ihInside ihAfter =>
      obtain ⟨inner, outer⟩ := Nat.max_le.mp high
      cases fuel with
      | zero => cases inner
      | succ fuel =>
          obtain ⟨node, isNode, same⟩ := Option.map_eq_some_iff.mp found
          obtain ⟨rfl, rfl⟩ := Prod.mk.inj same
          have first : (flattenNode (fuel + 1) reference).run heap =
              (.ok (node.payload.opening ++ below.events ++ node.payload.closing), heap) := by
            unfold flattenNode
            rw [run_bind_of_ok (run_deref isNode), run_bind_of_ok (ihInside (Nat.le_of_succ_le_succ inner))]
            rfl
          unfold collectEach
          rw [run_bind_of_ok first, run_bind_of_ok (ihAfter outer), run_pure]
          simp [Nodes.events]

end Shows

/-- A document whose tree is known is flattened to the events of the tree. -/
theorem run_flatten {heap : Heap} {document : NodeRef} {children : List NodeRef} {payload : Payload}
    {nodes : Nodes} (found : heap.content document = some (children, payload))
    (shows : Shows heap children nodes) (low : nodes.references.length ≤ heap.nextRef) :
    (flatten document).run heap =
      (.ok (payload.opening ++ nodes.events ++ payload.closing), heap) := by
  have whole : Shows heap [document] (.cons document payload nodes .nil) := .cons found shows .nil
  obtain ⟨node, isNode, same⟩ := Option.map_eq_some_iff.mp found
  obtain ⟨rfl, rfl⟩ := Prod.mk.inj same
  unfold flatten
  rw [run_read_bind]
  unfold flattenNode
  rw [run_bind_of_ok (run_deref isNode), run_bind_of_ok (shows.run_flatten (nodes.height_le.trans low)), run_pure,
    Payload.opening_visible, Payload.closing_visible]

end XmlParser.Dom
