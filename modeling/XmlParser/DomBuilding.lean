import XmlParser.DomBuilder
import XmlParser.DomTree
import XmlParser.EventOrder
import XmlParser.Naming

/-! What `DomBuilder` has built after every sequence of calls that a parser may make. -/

set_option autoImplicit false

namespace XmlParser

open XmlParser.Computation Comp

namespace Dom

theorem live_of_owner {heap : Heap} {reference owner : NodeRef} (owns : heap.ownerOf reference = some owner) :
    heap.live reference := by
  unfold Heap.live
  cases found : heap.nodes reference with
  | none =>
      unfold Heap.ownerOf at owns
      rw [found] at owns
      cases owns
  | some node => rfl

/-! ## What one operation does to the contents -/

theorem content_update (heap : Heap) (reference other : NodeRef) (change : Node → Node) :
    (heap.update reference change).content other =
      if other = reference then
        (heap.nodes other).map fun node => ((change node).children, (change node).payload.visible)
      else heap.content other := by
  unfold Heap.content Heap.update
  dsimp only
  by_cases same : other = reference
  · subst same
    rw [Function.update_self, if_pos rfl, Option.map_map]
    rfl
  · rw [Function.update_of_ne same, if_neg same]

/-- A new node has no children, and the others are as before. -/
theorem content_withNode {heap : Heap} {this : NodeRef} {node : Node} {storage : List NodeRef}
    (fresh : heap.nodes heap.nextRef = none) (found : heap.nodes this = some node)
    (stores : node.payload = .document storage) (payload : Payload) (other : NodeRef) :
    (heap.withNode this storage payload).content other =
      if other = heap.nextRef then some ([], payload.visible) else heap.content other := by
  have different : this ≠ heap.nextRef := by
    intro same
    rw [← same, found] at fresh
    cases fresh
  unfold Heap.withNode
  rw [content_update, Heap.nodes_insert]
  by_cases isThis : other = this
  · subst isThis
    rw [if_pos rfl, if_neg different, if_neg different, found, Heap.content_of_nodes found, stores]
    rfl
  · rw [if_neg isThis]
    unfold Heap.content
    rw [Heap.nodes_insert]
    by_cases isNew : other = heap.nextRef
    · rw [if_pos isNew, if_pos isNew]
      rfl
    · rw [if_neg isNew, if_neg isNew]

theorem content_link (heap : Heap) (this child other : NodeRef) :
    (heap.link this child).content other =
      (heap.content other).map fun content =>
        (if other = this then content.1 ++ [child] else content.1, content.2) := by
  unfold Heap.link
  rw [content_update]
  by_cases isChild : other = child
  · subst isChild
    rw [if_pos rfl]
    unfold Heap.update Heap.content
    dsimp only
    by_cases isThis : other = this
    · subst isThis
      rw [Function.update_self, Option.map_map, Option.map_map]
      simp only [if_true]
      rfl
    · rw [Function.update_of_ne isThis, Option.map_map]
      simp only [if_neg isThis]
      rfl
  · rw [if_neg isChild, content_update]
    by_cases isThis : other = this
    · subst isThis
      unfold Heap.content
      rw [if_pos rfl, Option.map_map]
      simp only [if_true]
      rfl
    · rw [if_neg isThis]
      simp only [if_neg isThis, Prod.mk.eta, Option.map_id_fun', id_eq]

theorem run_makeNode {heap : Heap} {this : NodeRef} {node : Node} {storage : List NodeRef}
    (found : heap.nodes this = some node) (stores : node.payload = .document storage) (payload : Payload) :
    (makeNode this payload).run heap = (.ok heap.nextRef, heap.withNode this storage payload) := by
  unfold makeNode
  rw [run_bind_of_ok (run_derefDocument found stores)]
  rfl

/-! ## Attributes -/

def Attribute.expanded (stored : Attribute) : Bytes × Bytes := (stored.namespaceUri, stored.localName)

theorem storeAttribute_new {stored : Attribute} {attributes : List Attribute}
    (new : stored.expanded ∉ attributes.map Attribute.expanded) :
    storeAttribute stored attributes = attributes ++ [stored] := by
  induction attributes with
  | nil => rfl
  | cons existing rest ih =>
      rw [List.map_cons, List.mem_cons, not_or] at new
      have differs : ¬ (existing.namespaceUri == stored.namespaceUri &&
          existing.localName == stored.localName) = true := by
        intro same
        rw [Bool.and_eq_true, beq_iff_eq, beq_iff_eq] at same
        exact new.1 (Prod.ext same.1.symm same.2.symm)
      unfold storeAttribute
      rw [if_neg differs, ih new.2, List.cons_append]

/-- The attribute that a view is stored as. -/
def storedView (view : AttributeView) : Attribute :=
  ⟨view.name.uri, view.name.localName, view.name.qualifiedName, view.value⟩

theorem update_update (heap : Heap) (reference : NodeRef) (first second : Node → Node) :
    (heap.update reference first).update reference second =
      heap.update reference fun node => second (first node) := by
  unfold Heap.update
  simp only [Function.update_self, Function.update_idem, Option.map_map]
  rfl

theorem update_same {heap : Heap} {reference : NodeRef} {node : Node} {change : Node → Node}
    (found : heap.nodes reference = some node) (same : change node = node) :
    heap.update reference change = heap := by
  unfold Heap.update
  rw [found, Option.map_some, same, ← found, Function.update_eq_self]

/-- Attributes with new expanded names are all stored, in their order. -/
theorem run_storeViews {element : NodeRef} {qualifiedName namespaceUri localName : Bytes}
    (views : List AttributeView) {heap : Heap} {node : Node} {stored : List Attribute}
    (found : heap.nodes element = some node)
    (isElement : node.payload = .element qualifiedName namespaceUri localName stored)
    (distinct : ((stored ++ views.map storedView).map Attribute.expanded).Nodup) :
    (forEach (fun (view : AttributeView) => setAttributeNs element view.name.uri view.name.localName
        view.name.qualifiedName view.value) views).run heap =
      (.ok (), heap.update element (Node.setPayload
        (.element qualifiedName namespaceUri localName (stored ++ views.map storedView)))) := by
  induction views generalizing heap node stored with
  | nil =>
      rw [List.map_nil, List.append_nil, update_same found]
      · rfl
      · rw [← isElement]
        rfl
  | cons view views ih =>
      have first : (setAttributeNs element view.name.uri view.name.localName view.name.qualifiedName
          view.value).run heap = (.ok (), heap.update element (Node.setPayload
            (.element qualifiedName namespaceUri localName (stored ++ [storedView view])))) := by
        have new : (storedView view).expanded ∉ stored.map Attribute.expanded := by
          rw [List.map_append] at distinct
          exact fun member => (List.nodup_append.mp distinct).2.2 _ member _ List.mem_cons_self rfl
        unfold setAttributeNs
        rw [run_bind_of_ok (run_deref found), isElement]
        dsimp only
        rw [run_modify]
        have stores : storeAttribute ⟨view.name.uri, view.name.localName, view.name.qualifiedName,
            view.value⟩ stored = stored ++ [storedView view] := storeAttribute_new new
        rw [stores]
      unfold forEach
      rw [run_bind_of_ok first]
      have updated : (heap.update element (Node.setPayload (.element qualifiedName namespaceUri localName
          (stored ++ [storedView view])))).nodes element = some (node.setPayload
            (.element qualifiedName namespaceUri localName (stored ++ [storedView view]))) := by
        unfold Heap.update
        dsimp only
        rw [Function.update_self, found]
        rfl
      have split : stored ++ (view :: views).map storedView =
          (stored ++ [storedView view]) ++ views.map storedView := by
        rw [List.map_cons, List.append_assoc, List.singleton_append]
      rw [split] at distinct ⊢
      rw [ih updated rfl distinct, update_update]
      rfl

theorem payloadIs_of_content {heap : Heap} {reference : NodeRef} {children : List NodeRef} {payload : Payload}
    (found : heap.content reference = some (children, payload)) :
    heap.payloadIs Payload.isElement reference = payload.isElement ∧
      heap.payloadIs Payload.isDocument reference = payload.isDocument := by
  obtain ⟨node, isNode, content⟩ := Option.map_eq_some_iff.mp found
  obtain ⟨rfl, rfl⟩ := Prod.mk.inj content
  rw [Heap.payloadIs_of_nodes isNode, Heap.payloadIs_of_nodes isNode]
  cases node.payload <;> exact ⟨rfl, rfl⟩

/-- Trees whose events open no element have none at their roots. -/
theorem Shows.no_element {heap : Heap} {refs : List NodeRef} {nodes : Nodes} (shows : Shows heap refs nodes)
    (unopened : ∀ event ∈ nodes.events, event.isOpening = false) :
    ∀ reference ∈ refs, heap.payloadIs Payload.isElement reference = false := by
  induction shows with
  | nil => exact fun _ member => nomatch member
  | @cons reference children refs payload below rest found inside after _ ih =>
      intro other member
      cases List.mem_cons.mp member with
      | inl first =>
          subst first
          obtain ⟨node, isNode, content⟩ := Option.map_eq_some_iff.mp found
          obtain ⟨rfl, rfl⟩ := Prod.mk.inj content
          rw [Heap.payloadIs_of_nodes isNode]
          cases payload : node.payload with
          | element qualifiedName namespaceUri localName attributes =>
              have opens := unopened (.startElement ⟨namespaceUri, localName, qualifiedName⟩
                (attributes.map Attribute.view)) (by
                  simp only [Nodes.events, Payload.opening_visible, payload]
                  exact List.mem_cons_self)
              cases opens
          | _ => rfl
      | inr later =>
          refine ih (fun event isLater => unopened event ?_) other later
          exact List.mem_append_right _ isLater

/-! ## Open elements -/

/-- What has been built below a document: the elements of the stack are open,
the innermost one first, and hold closed nodes, the last one also the next open
element. The index lists the references used, in document order. -/
inductive Building (heap : Heap) (document : NodeRef) :
    List NodeRef → List QualifiedName → Option NodeRef → List Event → List NodeRef → Prop where
  | root {refs : List NodeRef} {closed : Nodes} {next : Option NodeRef}
      (found : heap.content document = some (refs ++ next.toList, .document []))
      (shows : Shows heap refs closed) (built : closed.Built) :
      Building heap document [] [] next closed.events (document :: closed.references)
  | inner {stack refs used : List NodeRef} {names : List QualifiedName} {element : NodeRef}
      {events : List Event} {qualifiedName namespaceUri localName : Bytes} {attributes : List Attribute}
      {closed : Nodes} {next : Option NodeRef}
      (outer : Building heap document stack names (some element) events used)
      (found : heap.content element = some (refs ++ next.toList,
        .element qualifiedName namespaceUri localName attributes))
      (shows : Shows heap refs closed) (built : closed.Built) :
      Building heap document (element :: stack) (⟨namespaceUri, localName, qualifiedName⟩ :: names) next
        (events ++ .startElement ⟨namespaceUri, localName, qualifiedName⟩ (attributes.map Attribute.view) ::
          closed.events)
        (used ++ element :: closed.references)

namespace Building

variable {heap other : Heap} {document : NodeRef} {stack used : List NodeRef} {names : List QualifiedName}
  {next : Option NodeRef} {events : List Event}

theorem frame (building : Building heap document stack names next events used)
    (same : ∀ reference ∈ used, other.content reference = heap.content reference) :
    Building other document stack names next events used := by
  induction building with
  | root found shows built =>
      refine .root ?_ (shows.frame fun reference member => same _ (List.mem_cons_of_mem _ member)) built
      rw [same _ List.mem_cons_self]
      exact found
  | inner outer found shows built ih =>
      refine .inner (ih fun reference member => same _ (List.mem_append_left _ member)) ?_
        (shows.frame fun reference member =>
          same _ (List.mem_append_right _ (List.mem_cons_of_mem _ member))) built
      rw [same _ (List.mem_append_right _ List.mem_cons_self)]
      exact found

/-- The node that the next one is appended to. -/
def current (document : NodeRef) (stack : List NodeRef) : NodeRef := stack.head?.getD document

/-- A node that is new under the current one becomes the next one. -/
theorem grow {child : NodeRef} (building : Building heap document stack names none events used)
    (unused : used.Nodup)
    (same : ∀ reference ∈ used, other.content reference = (heap.content reference).map fun content =>
      (if reference = current document stack then content.1 ++ [child] else content.1, content.2)) :
    Building other document stack names (some child) events used := by
  have apart : ∀ reference ∈ used, reference ≠ current document stack →
      other.content reference = heap.content reference := by
    intro reference member different
    rw [same reference member]
    simp only [if_neg different, Prod.mk.eta, Option.map_id_fun', id_eq]
  cases building with
  | root found shows built =>
      refine .root ?_ (shows.frame fun reference member => ?_) built
      · rw [same _ List.mem_cons_self, found]
        simp [current]
      · refine apart reference (List.mem_cons_of_mem _ member) fun isCurrent => ?_
        have isDocument : reference = document := isCurrent
        exact (List.nodup_cons.mp unused).1 (isDocument ▸ member)
  | @inner stack refs used names element events qualifiedName namespaceUri localName attributes closed _
      outer found shows built =>
      obtain ⟨_, inside, disjoint⟩ := List.nodup_append.mp unused
      refine .inner (outer.frame fun reference member => ?_) ?_
        (shows.frame fun reference member => ?_) built
      · refine apart reference (List.mem_append_left _ member) fun isCurrent => ?_
        exact disjoint reference member _ List.mem_cons_self isCurrent
      · rw [same _ (List.mem_append_right _ List.mem_cons_self), found]
        simp [current]
      · refine apart reference (List.mem_append_right _ (List.mem_cons_of_mem _ member)) fun isCurrent => ?_
        have isElement : reference = element := isCurrent
        exact (List.nodup_cons.mp inside).1 (isElement ▸ member)

/-- The next node is closed. -/
theorem close {child : NodeRef} {nodes : Nodes}
    (building : Building heap document stack names (some child) events used)
    (shows : Shows heap [child] nodes) (built : nodes.Built) :
    Building heap document stack names none (events ++ nodes.events) (used ++ nodes.references) := by
  cases building with
  | @root refs closed _ found before earlier =>
      rw [← Nodes.events_append, List.cons_append, ← Nodes.references_append]
      refine .root ?_ (before.append shows) (earlier.append built)
      rw [found]
      simp
  | @inner stack refs used names element events qualifiedName namespaceUri localName attributes closed _
      outer found before earlier =>
      rw [List.append_assoc, List.append_assoc, List.cons_append, List.cons_append, ← Nodes.events_append,
        ← Nodes.references_append]
      refine .inner outer ?_ (before.append shows) (earlier.append built)
      rw [found]
      simp

/-- The end of the innermost element. -/
theorem pop {element : NodeRef} {name : QualifiedName}
    (building : Building heap document (element :: stack) (name :: names) none events used) :
    Building heap document stack names none (events ++ [.endElement name]) used := by
  cases building with
  | @inner stack refs used names element events qualifiedName namespaceUri localName attributes closed _
      outer found shows built =>
      have whole : Shows heap [element]
          (.cons element (.element qualifiedName namespaceUri localName attributes) closed .nil) := by
        refine .cons ?_ shows .nil
        rw [found]
        simp
      have closes := outer.close whole ⟨rfl, nofun, built, trivial⟩
      simp only [Nodes.events, Nodes.references, Payload.opening, Payload.closing, List.append_nil] at closes
      simpa using closes

theorem current_mem (building : Building heap document stack names next events used) :
    current document stack ∈ used := by
  cases building with
  | root found shows built => exact List.mem_cons_self
  | inner outer found shows built => exact List.mem_append_right _ List.mem_cons_self

/-- Before an element has begun there is none among the children of the document. -/
theorem no_element (building : Building heap document [] names none events used)
    (unopened : ∀ event ∈ events, event.isOpening = false) : heap.elementChildren document = [] := by
  cases building with
  | @root refs closed _ found shows built =>
      obtain ⟨node, isNode, content⟩ := Option.map_eq_some_iff.mp found
      have listed : node.children = refs := (Prod.mk.inj content).1.trans (List.append_nil refs)
      unfold Heap.elementChildren
      rw [Heap.links_children_of_nodes isNode, listed, List.filter_eq_nil_iff]
      intro reference member
      rw [shows.no_element unopened reference member]
      exact Bool.false_ne_true

theorem names_nil (building : Building heap document [] names next events used) : names = [] := by
  cases building with
  | root found shows built => rfl

/-- With no element open, the document holds closed nodes only. -/
theorem complete (building : Building heap document stack [] none events used) :
    ∃ refs closed, heap.content document = some (refs, .document []) ∧ Shows heap refs closed ∧
      closed.Built ∧ events = closed.events ∧ used = document :: closed.references := by
  cases building with
  | @root refs closed _ found shows built =>
      refine ⟨refs, closed, ?_, shows, built, rfl, rfl⟩
      rw [found]
      exact congrArg (fun refs => some (refs, Payload.document [])) (List.append_nil refs)

/-- An open element is not a document. -/
theorem top_inner {element : NodeRef}
    (building : Building heap document (element :: stack) names next events used) :
    ¬ heap.isDocument element := by
  cases building with
  | inner outer found shows built =>
      unfold Heap.isDocument
      rw [(payloadIs_of_content found).2]
      exact Bool.false_ne_true

end Building

end Dom

/-! ## The callbacks -/

/-- The events that make a node of the document. -/
def Event.isNode : Event → Bool
  | .startElement _ _ | .characters _ | .processingInstruction _ _ | .comment _ | .cdata _ => true
  | _ => false

def Event.inDocument : Event → Bool
  | .startDocument | .endDocument => false
  | _ => true

/-- What a document can show of a sequence of events. -/
def shownEvents (events : List Event) : List Event :=
  (events.filter Event.inDocument).map Event.withoutLocations

theorem shownEvents_snoc {event : Event} (inside : event.inDocument = true) (events : List Event) :
    shownEvents (events ++ [event]) = shownEvents events ++ [event.withoutLocations] := by
  unfold shownEvents
  rw [List.filter_append, List.map_append, List.filter_cons_of_pos inside]
  rfl

theorem shownEvents_snoc_outside {event : Event} (outside : event.inDocument = false) (events : List Event) :
    shownEvents (events ++ [event]) = shownEvents events := by
  unfold shownEvents
  rw [List.filter_append, List.filter_cons_of_neg (Bool.not_eq_true _ ▸ outside), List.filter_nil,
    List.append_nil]

/-- The names of a start tag, as a document stores them. -/
def Event.Storable : Event → Prop
  | .startElement name views =>
      name.localName ≠ [] ∧ (views.map fun view => view.name.expanded).Nodup
  | _ => True

namespace DomBuilder

/-- The document under construction shows the events, and the elements of these
names are open. -/
structure Builds (names : List QualifiedName) (events : List Event) (builder : DomBuilder) : Prop where
  coherent : Dom.Coherent builder.heap
  isDocument : builder.heap.isDocument builder.document
  building : ∃ used, Dom.Building builder.heap builder.document builder.elementStack names none
    (shownEvents events) used ∧ used.Nodup ∧
      ∀ reference ∈ used, builder.heap.ownerOf reference = some builder.document

/-- A heap with a new node that is about to be appended. -/
structure Fresh (builder : DomBuilder) (heap : Dom.Heap) (payload : Dom.Payload) : Prop where
  coherent : Dom.Coherent heap
  content : ∀ reference, heap.content reference =
    if reference = builder.heap.nextRef then some ([], payload) else builder.heap.content reference
  ownerOf : ∀ reference, heap.ownerOf reference =
    if reference = builder.heap.nextRef then some builder.document else builder.heap.ownerOf reference
  isDocument : ∀ reference, heap.isDocument reference ↔ builder.heap.isDocument reference
  parent : heap.links.parent builder.heap.nextRef = none

theorem run_onHeap_of_ok {α : Type} {source : Dom.DomM α} {builder : DomBuilder} {value : α}
    {heap : Dom.Heap} (ran : source.run builder.heap = (.ok value, heap)) :
    (onHeap source).run builder = (.ok value, { builder with heap }) := by
  unfold onHeap onPart
  dsimp only
  rw [ran]

theorem run_ensureNodeAvailable {options : ParserOptions} {builder : DomBuilder}
    (fits : builder.nodeCount + 1 ≤ options.maxDomNodes) :
    (ensureNodeAvailable options).run builder =
      (.ok (), { builder with nodeCount := builder.nodeCount + 1 }) := by
  unfold ensureNodeAvailable
  rw [run_read_bind, if_neg (Nat.not_lt_of_le fits)]
  rfl

theorem fresh_withNode {builder : DomBuilder} (coherent : Dom.Coherent builder.heap)
    {node : Dom.Node} {storage : List Dom.NodeRef} (found : builder.heap.nodes builder.document = some node)
    (stores : node.payload = .document storage) {payload : Dom.Payload} (inner : payload.isDocument = false) :
    Fresh builder (builder.heap.withNode builder.document storage payload) payload.visible := by
  have added := Dom.extends_makeNode coherent.fresh found stores inner rfl
  refine ⟨coherent.withNode found stores inner, Dom.content_withNode coherent.fresh found stores payload,
    added.ownerOf, fun reference => ?_, ?_⟩
  · unfold Dom.Heap.isDocument
    rw [added.payloadIs _ _ (.inl rfl)]
    by_cases new : reference = builder.heap.nextRef
    · rw [if_pos new, new, inner]
      unfold Dom.Heap.payloadIs
      rw [coherent.fresh]
      rfl
    · rw [if_neg new]
  · rw [added.links]
    unfold Dom.Heap.links
    dsimp only
    rw [coherent.fresh]
    rfl

/-- New content of the same class for the new node. -/
theorem Fresh.setPayload {builder : DomBuilder} {heap : Dom.Heap} {old payload : Dom.Payload}
    (fresh : Fresh builder heap old) {node : Dom.Node} (found : heap.nodes builder.heap.nextRef = some node)
    (same : (node.setPayload payload).shape = node.shape) :
    Fresh builder (heap.update builder.heap.nextRef (Dom.Node.setPayload payload)) payload.visible := by
  have nodes : ∀ reference, (heap.update builder.heap.nextRef (Dom.Node.setPayload payload)).nodes reference =
      if reference = builder.heap.nextRef then some (node.setPayload payload) else heap.nodes reference := by
    intro reference
    unfold Dom.Heap.update
    dsimp only
    by_cases new : reference = builder.heap.nextRef
    · rw [new, Function.update_self, if_pos rfl, found]
      rfl
    · rw [Function.update_of_ne new, if_neg new]
  have shape := same
  unfold Dom.Node.shape at shape
  obtain ⟨owner, parent, children, isDocument, _⟩ := by simpa only [Prod.mk.injEq] using shape
  refine ⟨fresh.coherent.setPayload found same, fun reference => ?_, fun reference => ?_, fun reference => ?_, ?_⟩
  · rw [Dom.content_update, fresh.content]
    by_cases new : reference = builder.heap.nextRef
    · have leaf := fresh.content builder.heap.nextRef
      rw [if_pos rfl, Dom.Heap.content_of_nodes found] at leaf
      rw [if_pos new, if_pos new, new, found, Option.map_some]
      exact congrArg (fun children => some (children, payload.visible)) (Prod.mk.inj (Option.some.inj leaf)).1
    · rw [if_neg new, if_neg new, if_neg new]
  · rw [← fresh.ownerOf]
    unfold Dom.Heap.ownerOf
    rw [nodes]
    by_cases new : reference = builder.heap.nextRef
    · rw [if_pos new, new, found]
      rfl
    · rw [if_neg new]
  · rw [← fresh.isDocument]
    unfold Dom.Heap.isDocument Dom.Heap.payloadIs
    rw [nodes]
    by_cases new : reference = builder.heap.nextRef
    · rw [if_pos new, new, found, Option.map_some, Option.map_some, isDocument]
    · rw [if_neg new]
  · have root := fresh.parent
    unfold Dom.Heap.links at root ⊢
    dsimp only at root ⊢
    rw [nodes, if_pos rfl]
    rw [found] at root
    exact root

namespace Builds

variable {builder : DomBuilder} {names : List QualifiedName} {events : List Event}

theorem used_ne (builds : Builds names events builder) {used : List Dom.NodeRef}
    (owned : ∀ reference ∈ used, builder.heap.ownerOf reference = some builder.document) :
    ∀ reference ∈ used, reference ≠ builder.heap.nextRef := by
  intro reference member same
  have owns := owned reference member
  unfold Dom.Heap.ownerOf at owns
  rw [same, builds.coherent.fresh] at owns
  cases owns

end Builds

/-- A heap in which the new node is the last child of the innermost open element,
or of the document. -/
structure Grown (names : List QualifiedName) (events : List Event) (builder : DomBuilder) (heap : Dom.Heap)
    (payload : Dom.Payload) : Prop where
  coherent : Dom.Coherent heap
  isDocument : heap.isDocument builder.document
  building : ∃ used, Dom.Building heap builder.document builder.elementStack names
    (some builder.heap.nextRef) (shownEvents events) used ∧ (used ++ [builder.heap.nextRef]).Nodup ∧
      ∀ reference ∈ used ++ [builder.heap.nextRef], heap.ownerOf reference = some builder.document
  content : heap.content builder.heap.nextRef = some ([], payload)

namespace Builds

variable {builder : DomBuilder} {names : List QualifiedName} {events : List Event}

/-- Nothing forbids a new node under the innermost open element. -/
theorem insertable (builds : Builds names events builder) {heap : Dom.Heap} {payload : Dom.Payload}
    (fresh : Fresh builder heap payload)
    (lone : payload.isElement = true → builder.elementStack = [] →
      ∀ event ∈ shownEvents events, event.isOpening = false) :
    Dom.Insertable heap (Dom.Building.current builder.document builder.elementStack)
      builder.heap.nextRef := by
  obtain ⟨used, building, unused, owned⟩ := builds.building
  have apart := builds.used_ne owned
  have ownerOf : ∀ reference ∈ used, heap.ownerOf reference = some builder.document := by
    intro reference member
    rw [fresh.ownerOf, if_neg (apart reference member)]
    exact owned reference member
  have newOwner : heap.ownerOf builder.heap.nextRef = some builder.document := by
    rw [fresh.ownerOf, if_pos rfl]
  have here := building.current_mem
  refine ⟨Dom.live_of_owner (ownerOf _ here), Dom.live_of_owner newOwner,
    newOwner.trans (ownerOf _ here).symm, ?_, ?_, ?_⟩
  · rw [fresh.isDocument]
    unfold Dom.Heap.isDocument Dom.Heap.payloadIs
    rw [builds.coherent.fresh]
    exact nofun
  · -- The new node has no children, so it is above nothing.
    intro path
    cases Relation.ReflTransGen.cases_tail path with
    | inl same => exact apart _ here same.symm
    | inr last =>
        obtain ⟨child, _, linked⟩ := last
        have listed := (fresh.coherent.forest.mem_children_iff child _).mpr linked
        have leaf := fresh.content builder.heap.nextRef
        rw [if_pos rfl] at leaf
        obtain ⟨node, found, content⟩ := Option.map_eq_some_iff.mp leaf
        rw [Dom.Heap.links_children_of_nodes found, (Prod.mk.inj content).1] at listed
        cases listed
  · intro isDocument isElement existing member
    have same : ∀ reference ∈ used, heap.content reference = builder.heap.content reference := by
      intro reference member
      rw [fresh.content, if_neg (apart reference member)]
    have framed := building.frame same
    have opens : payload.isElement = true := by
      rw [← isElement]
      exact (Dom.payloadIs_of_content ((fresh.content _).trans (if_pos rfl))).1.symm
    cases stack : builder.elementStack with
    | nil =>
        rw [stack] at framed member
        have none := framed.no_element (lone opens stack)
        rw [Dom.Building.current, List.head?_nil, Option.getD_none, none] at member
        cases member
    | cons element outer =>
        rw [stack] at framed isDocument
        exact absurd isDocument framed.top_inner

/-- A new node is appended to the innermost open element, or to the document. -/
theorem run_append (builds : Builds names events builder) {heap : Dom.Heap} {payload : Dom.Payload}
    (fresh : Fresh builder heap payload)
    (lone : payload.isElement = true → builder.elementStack = [] →
      ∀ event ∈ shownEvents events, event.isOpening = false) :
    ∃ grown, (appendToCurrentParent builder.heap.nextRef).run { builder with heap } =
        (.ok (), { builder with heap := grown }) ∧ Grown names events builder grown payload := by
  have insertable := builds.insertable fresh lone
  have ran := Dom.run_appendChild fresh.coherent insertable
  have coherent := insertable.coherent fresh.coherent
  have orphan : heap.orphan builder.heap.nextRef = heap := by
    unfold Dom.Heap.orphan
    rw [fresh.parent]
  rw [orphan] at ran coherent
  refine ⟨_, ?_, coherent, ?_, ?_, ?_⟩
  · unfold appendToCurrentParent
    rw [run_read_bind]
    cases stack : builder.elementStack with
    | nil =>
        rw [stack] at ran
        exact run_onHeap_of_ok ran
    | cons parent outer =>
        rw [stack] at ran
        exact run_onHeap_of_ok ran
  · rw [(Dom.Heap.relinks_link _ _ heap).isDocument, fresh.isDocument]
    exact builds.isDocument
  · obtain ⟨used, building, unused, owned⟩ := builds.building
    have apart := builds.used_ne owned
    refine ⟨used, building.grow unused fun reference member => ?_, ?_, ?_⟩
    · rw [Dom.content_link, fresh.content, if_neg (apart reference member)]
    · refine List.nodup_append.mpr ⟨unused, List.nodup_singleton _, fun reference member other last => ?_⟩
      rw [List.mem_singleton.mp last]
      exact apart reference member
    · intro reference member
      rw [(Dom.Heap.relinks_link _ _ heap).ownerOf, fresh.ownerOf]
      cases List.mem_append.mp member with
      | inl earlier => 
          rw [if_neg (apart reference earlier)]
          exact owned reference earlier
      | inr last => rw [if_pos (List.mem_singleton.mp last)]
  · obtain ⟨used, building, _, owned⟩ := builds.building
    have apart := builds.used_ne owned _ building.current_mem
    rw [Dom.content_link, fresh.content, if_pos rfl, Option.map_some, if_neg apart.symm]

/-- The document, with its storage. -/
theorem exists_storage (builds : Builds names events builder) :
    ∃ node storage, builder.heap.nodes builder.document = some node ∧ node.payload = .document storage := by
  obtain ⟨node, found⟩ := Dom.Heap.exists_node (Dom.Heap.live_of_isDocument builds.isDocument)
  have isDocument := builds.isDocument
  rw [Dom.Heap.isDocument_of_nodes found] at isDocument
  cases payload : node.payload with
  | document storage => exact ⟨node, storage, found, payload⟩
  | _ =>
      rw [payload] at isDocument
      cases isDocument

theorem run_addLeaf (builds : Builds names events builder) {options : ParserOptions} {payload : Dom.Payload}
    {event : Event} (fits : builder.nodeCount + 1 ≤ options.maxDomNodes)
    (leaf : payload.opening = [event.withoutLocations] ∧ payload.closing = [] ∧ payload.visible = payload)
    (notElement : payload.isElement = false) (notDocument : payload.isDocument = false)
    (inside : event.inDocument = true) :
    ∃ following, (addLeaf options fun document => Dom.makeNode document payload).run builder =
        (.ok (), following) ∧ following.nodeCount = builder.nodeCount + 1 ∧
      Builds names (events ++ [event]) following := by
  obtain ⟨node, storage, found, stores⟩ := builds.exists_storage
  let counted : DomBuilder := { builder with nodeCount := builder.nodeCount + 1 }
  have buildsCounted : Builds names events counted := ⟨builds.coherent, builds.isDocument, builds.building⟩
  have fresh : Fresh counted (builder.heap.withNode builder.document storage payload) payload := by
    have made := @fresh_withNode counted builds.coherent node storage found stores payload notDocument
    rw [leaf.2.2] at made
    exact made
  obtain ⟨grown, ran, grows⟩ := buildsCounted.run_append fresh fun isElement => by
    rw [notElement] at isElement
    cases isElement
  refine ⟨{ counted with heap := grown }, ?_, rfl, grows.coherent, grows.isDocument, ?_⟩
  · have made : (onHeap (Dom.makeNode builder.document payload)).run counted =
        (.ok builder.heap.nextRef,
          { counted with heap := builder.heap.withNode builder.document storage payload }) :=
      run_onHeap_of_ok (Dom.run_makeNode found stores payload)
    unfold addLeaf
    rw [run_bind_of_ok (run_ensureNodeAvailable fits), run_read_bind, run_bind_of_ok made]
    exact ran
  · obtain ⟨used, building, unused, owned⟩ := grows.building
    refine ⟨_, ?_, unused, owned⟩
    have closes := building.close (.cons grows.content .nil .nil)
      ⟨notDocument, fun _ => rfl, trivial, trivial⟩
    rw [shownEvents_snoc inside]
    simp only [Dom.Nodes.events, Dom.Nodes.references, leaf.1, leaf.2.1, List.append_nil] at closes
    exact closes

theorem run_startElement (builds : Builds names events builder) {options : ParserOptions}
    {name : QualifiedName} {views : List AttributeView}
    (fits : builder.nodeCount + 1 ≤ options.maxDomNodes)
    (storable : (Event.startElement name views).Storable)
    (lone : names = [] → ∀ event ∈ shownEvents events, event.isOpening = false) :
    ∃ following, (startElement options name views).run builder = (.ok (), following) ∧
      following.nodeCount = builder.nodeCount + 1 ∧
      Builds (name :: names) (events ++ [.startElement name views]) following := by
  obtain ⟨node, storage, found, stores⟩ := builds.exists_storage
  let counted : DomBuilder := { builder with nodeCount := builder.nodeCount + 1 }
  have buildsCounted : Builds names events counted := ⟨builds.coherent, builds.isDocument, builds.building⟩
  let bare (attributes : List Dom.Attribute) : Dom.Payload :=
    .element name.qualifiedName name.uri name.localName attributes
  let created := builder.heap.withNode builder.document storage (bare [])
  let filled := created.update builder.heap.nextRef
    (Dom.Node.setPayload (bare (views.map Dom.storedView)))
  have named : Dom.elementLocalName name.qualifiedName name.localName = name.localName := by
    unfold Dom.elementLocalName
    rw [if_neg (mt List.isEmpty_iff.mp storable.1)]
  have bareFresh : Fresh counted created (bare []) :=
    @fresh_withNode counted builds.coherent node storage found stores (bare []) rfl
  have leaf := bareFresh.content builder.heap.nextRef
  rw [if_pos rfl] at leaf
  obtain ⟨element, isElement, content⟩ := Option.map_eq_some_iff.mp leaf
  have isBare : element.payload = bare [] := by
    have visible := (Prod.mk.inj content).2
    cases payload : element.payload with
    | document storage =>
        rw [payload] at visible
        cases visible
    | _ =>
        rw [payload] at visible
        exact visible
  have fresh : Fresh counted filled (bare (views.map Dom.storedView)) := by
    refine bareFresh.setPayload isElement ?_
    unfold Dom.Node.shape
    rw [isBare]
    rfl
  have bottom : builder.elementStack = [] → names = [] := by
    intro empty
    obtain ⟨used, building, _⟩ := builds.building
    rw [empty] at building
    exact building.names_nil
  obtain ⟨grown, ran, grows⟩ := buildsCounted.run_append fresh fun _ empty => lone (bottom empty)
  refine ⟨{ counted with heap := grown, elementStack := builder.heap.nextRef :: builder.elementStack }, ?_, rfl,
    grows.coherent, grows.isDocument, ?_⟩
  · have made : (onHeap (Dom.createElement builder.document name.qualifiedName name.uri name.localName)).run
        counted = (.ok builder.heap.nextRef, { counted with heap := created }) := by
      unfold Dom.createElement
      rw [named]
      exact run_onHeap_of_ok (Dom.run_makeNode found stores _)
    have stored := Dom.run_storeViews views isElement isBare (by
      rw [List.nil_append, List.map_map]
      exact storable.2)
    rw [List.nil_append] at stored
    have filledRun : (onHeap (Dom.forEach (fun (view : AttributeView) => Dom.setAttributeNs builder.heap.nextRef
        view.name.uri view.name.localName view.name.qualifiedName view.value) views)).run
          { counted with heap := created } = (.ok (), { counted with heap := filled }) :=
      run_onHeap_of_ok stored
    unfold startElement
    rw [run_bind_of_ok (run_ensureNodeAvailable fits), run_read_bind, run_bind_of_ok made,
      run_bind_of_ok filledRun, run_bind_of_ok ran]
    rfl
  · obtain ⟨used, building, unused, owned⟩ := grows.building
    refine ⟨used ++ [builder.heap.nextRef], ?_, unused, owned⟩
    rw [shownEvents_snoc rfl]
    have empty : grown.content builder.heap.nextRef =
        some ([] ++ Option.toList none, bare (views.map Dom.storedView)) := grows.content
    have pushed := Dom.Building.inner building empty .nil trivial
    rw [List.map_map] at pushed
    exact pushed

/-- A node that is neither an element nor a document. -/
theorem run_item (builds : Builds names events builder) {options : ParserOptions} {event : Event}
    (isItem : event.IsItem) (fits : builder.nodeCount + 1 ≤ options.maxDomNodes) :
    ∃ following, (handle options event).run builder = (.ok (), following) ∧
      following.nodeCount = builder.nodeCount + 1 ∧ Builds names (events ++ [event]) following := by
  cases event with
  | startDocument => cases isItem
  | endDocument => cases isItem
  | startElement name views => cases isItem
  | endElement name => cases isItem
  | characters text => exact builds.run_addLeaf fits ⟨rfl, rfl, rfl⟩ rfl rfl rfl
  | processingInstruction target data => exact builds.run_addLeaf fits ⟨rfl, rfl, rfl⟩ rfl rfl rfl
  | comment text => exact builds.run_addLeaf fits ⟨rfl, rfl, rfl⟩ rfl rfl rfl
  | cdata text => exact builds.run_addLeaf fits ⟨rfl, rfl, rfl⟩ rfl rfl rfl

theorem run_endElement (options : ParserOptions) {name : QualifiedName}
    (builds : Builds (name :: names) events builder) :
    ∃ following, (handle options (.endElement name)).run builder = (.ok (), following) ∧
      following.nodeCount = builder.nodeCount ∧ Builds names (events ++ [.endElement name]) following := by
  refine ⟨_, rfl, rfl, builds.coherent, builds.isDocument, ?_⟩
  obtain ⟨used, building, unused, owned⟩ := builds.building
  refine ⟨used, ?_, unused, owned⟩
  rw [shownEvents_snoc rfl]
  dsimp only
  cases stack : builder.elementStack with
  | nil =>
      rw [stack] at building
      cases building.names_nil
  | cons element outer =>
      rw [stack] at building
      exact building.pop

theorem run_boundary (builds : Builds names events builder) (options : ParserOptions) (event : Event)
    (outside : event.inDocument = false) :
    (handle options event).run builder = (.ok (), builder) ∧ Builds names (events ++ [event]) builder := by
  have shown := shownEvents_snoc_outside outside events
  refine ⟨?_, builds.coherent, builds.isDocument, ?_⟩
  · cases event with
    | startDocument => rfl
    | endDocument => rfl
    | _ => cases outside
  · rw [shown]
    exact builds.building

end Builds

theorem isItem_of_isMisc {event : Event} (isMisc : event.IsMisc) : event.IsItem := by
  cases event with
  | comment text => trivial
  | processingInstruction target data => trivial
  | _ => cases isMisc

theorem isNode_of_isItem {event : Event} (isItem : event.IsItem) : event.isNode = true := by
  cases event with
  | characters text => rfl
  | processingInstruction target data => rfl
  | comment text => rfl
  | cdata text => rfl
  | _ => cases isItem

/-- Before the document element, no element is shown. -/
theorem unopened_of_prolog {events : List Event} (order : Phase.after events = some .prolog) :
    ∀ event ∈ shownEvents events, event.isOpening = false := by
  obtain ⟨miscs, areMisc, rfl⟩ : IsProlog events := Phase.describes_after order
  intro event member
  obtain ⟨other, isOther, rfl⟩ := List.mem_map.mp member
  cases List.mem_cons.mp (List.mem_filter.mp isOther).1 with
  | inl start =>
      subst start
      rfl
  | inr misc =>
      have isMisc := areMisc other misc
      cases other with
      | startElement name views => cases isMisc
      | _ => rfl

/-- One call in the order of a parser. -/
theorem run_handle {phase following : Phase} {events : List Event} {event : Event} {builder : DomBuilder}
    {options : ParserOptions} (order : Phase.after events = some phase)
    (builds : Builds phase.opened events builder) (step : PhaseStep phase event following)
    (storable : event.Storable) (fits : event.isNode = true → builder.nodeCount + 1 ≤ options.maxDomNodes) :
    ∃ next, (handle options event).run builder = (.ok (), next) ∧
      next.nodeCount = builder.nodeCount + (if event.isNode then 1 else 0) ∧
      Builds following.opened (events ++ [event]) next := by
  have items : ∀ {names}, Builds names events builder → event.IsItem →
      ∃ next, (handle options event).run builder = (.ok (), next) ∧
        next.nodeCount = builder.nodeCount + (if event.isNode then 1 else 0) ∧
        Builds names (events ++ [event]) next := by
    intro names builds isItem
    have isNode := isNode_of_isItem isItem
    rw [isNode, if_pos rfl]
    exact builds.run_item isItem (fits isNode)
  cases step with
  | start =>
      obtain ⟨ran, builds⟩ := builds.run_boundary options .startDocument rfl
      exact ⟨builder, ran, rfl, builds⟩
  | beforeElement isMisc => exact items builds (isItem_of_isMisc isMisc)
  | openRoot name attributes =>
      exact builds.run_startElement (fits rfl) storable fun _ => unopened_of_prolog order
  | openChild name attributes parent outer afterText =>
      exact builds.run_startElement (fits rfl) storable nofun
  | close name outer afterText =>
      have opened : (Phase.behind outer).opened = outer := by
        cases outer with
        | nil => rfl
        | cons parent outer => rfl
      rw [opened]
      exact Builds.run_endElement options builds
  | text name outer nonempty => exact items builds trivial
  | item name outer afterText isItem notText => exact items builds isItem
  | afterElement isMisc => exact items builds (isItem_of_isMisc isMisc)
  | finish =>
      obtain ⟨ran, builds⟩ := builds.run_boundary options .endDocument rfl
      exact ⟨builder, ran, rfl, builds⟩

theorem handleAll_append (options : ParserOptions) (events others : List Event) :
    handleAll options (events ++ others) =
      handleAll options events >>= fun _ => handleAll options others := by
  induction events with
  | nil => exact (pure_bind _ _).symm
  | cons event events ih => simp only [List.cons_append, handleAll, ih, bind_assoc]

theorem handleAll_singleton (options : ParserOptions) (event : Event) :
    handleAll options [event] = handle options event := by
  simp only [handleAll, bind_pure_unit]

theorem builds_initial : Builds [] [] initial where
  coherent := Dom.coherent_empty.newDocument
  isDocument := rfl
  building := by
    refine ⟨[0], @Dom.Building.root _ _ [] .nil none rfl .nil trivial, List.nodup_singleton 0, ?_⟩
    intro reference member
    rw [List.mem_singleton.mp member]
    rfl

/-- Every sequence of calls that a parser may make is handled, and shown by the
document, as long as the nodes are within the limit. -/
theorem run_after (options : ParserOptions) {events : List Event} {phase : Phase}
    (order : Phase.after events = some phase) (storable : ∀ event ∈ events, event.Storable)
    (fits : events.countP Event.isNode ≤ options.maxDomNodes) :
    ∃ builder, after options events = (.ok (), builder) ∧
      builder.nodeCount = events.countP Event.isNode ∧ Builds phase.opened events builder := by
  induction events using List.reverseRecOn generalizing phase with
  | nil =>
      cases order
      exact ⟨initial, rfl, rfl, builds_initial⟩
  | append_singleton events event ih =>
      rw [Phase.after_snoc] at order
      obtain ⟨before, reached, moved⟩ := Option.bind_eq_some_iff.mp order
      rw [List.countP_append, List.countP_singleton] at fits
      obtain ⟨builder, ran, counted, builds⟩ := ih reached
        (fun other member => storable other (List.mem_append_left _ member))
        ((Nat.le_add_right _ _).trans fits)
      obtain ⟨next, handled, count, following⟩ := run_handle reached builds (Phase.step_of_next moved)
        (storable event (List.mem_append_right _ List.mem_cons_self)) fun isNode => by
          rw [isNode, if_pos rfl] at fits
          rw [counted]
          exact fits
      refine ⟨next, ?_, ?_, following⟩
      · unfold after at ran ⊢
        rw [handleAll_append, run_bind_of_ok ran, handleAll_singleton]
        exact handled
      · rw [List.countP_append, List.countP_singleton, count, counted]

/-- The first node over the limit is refused. -/
theorem run_over {options : ParserOptions} {builder : DomBuilder} {event : Event} (isNode : event.isNode = true)
    (beyond : options.maxDomNodes < builder.nodeCount + 1) :
    (handle options event).run builder = (.error (.thrown (.xmlParse
      ⟨.resourceLimit, {}, "DOM node count exceeds max_dom_nodes"⟩)), builder) := by
  have refused : (ensureNodeAvailable options).run builder = (.error (.thrown (.xmlParse
      ⟨.resourceLimit, {}, "DOM node count exceeds max_dom_nodes"⟩)), builder) := by
    unfold ensureNodeAvailable
    rw [run_read_bind, if_pos beyond]
    rfl
  cases event with
  | startDocument => cases isNode
  | endDocument => cases isNode
  | endElement name => cases isNode
  | _ => exact run_bind_of_error refused _

end DomBuilder

end XmlParser
