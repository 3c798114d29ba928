import XmlParser.DocumentOrder

/-! The nodes that serializing a document visits, compared with its nodes in
document order. -/

set_option autoImplicit false

namespace XmlParser.Dom

open XmlParser.Computation Comp Forest

/-! ## What is written for a tree -/

/-- The types of nodes whose children `serialize_node` does not look at. -/
def Payload.isLeaf : Payload → Bool
  | .document _ => false
  | .element _ _ _ _ => false
  | _ => true

/-- What is written for a node with this payload. -/
def Payload.written (childless : Bool) (inside : List Written) : Payload → List Written
  | .document _ => inside
  | .element qualifiedName namespaceUri _ attributes =>
      if childless then
        [.bytes (tagText qualifiedName namespaceUri attributes ++ ascii "/>")]
      else
        [.bytes (tagText qualifiedName namespaceUri attributes ++ ascii ">")] ++ inside ++
          [.bytes (ascii "</" ++ qualifiedName ++ ascii ">")]
  | .text contents => [.bytes (escapeText contents)]
  | .comment contents => [.bytes (ascii "<!--" ++ contents ++ ascii "-->")]
  | .processingInstruction target data =>
      if data.isEmpty then [.bytes (ascii "<?" ++ target ++ ascii "?>")]
      else [.bytes (ascii "<?" ++ target ++ [0x20] ++ data ++ ascii "?>")]
  | .cdataSection contents => [.bytes (ascii "<![CDATA[" ++ contents ++ ascii "]]>")]

@[simp] theorem Payload.written_visible (childless : Bool) (inside : List Written) (payload : Payload) :
    payload.visible.written childless inside = payload.written childless inside := by
  cases payload <;> rfl

@[simp] theorem Payload.isLeaf_visible (payload : Payload) : payload.visible.isLeaf = payload.isLeaf := by
  cases payload <;> rfl

def Nodes.written : Nodes → List Written
  | .nil => []
  | .cons reference payload below rest =>
      .call reference :: (payload.written below.references.isEmpty below.written ++ rest.written)

theorem Shows.isEmpty_eq {heap : Heap} {refs : List NodeRef} {nodes : Nodes}
    (shows : Shows heap refs nodes) : refs.isEmpty = nodes.references.isEmpty := by
  cases shows with
  | nil => rfl
  | cons _ _ _ => rfl

/-- One node, from what is written for its children. -/
theorem run_serializeNode {heap : Heap} {reference : NodeRef} {node : Node} {below : Nodes} {fuel : Nat}
    (found : heap.nodes reference = some node) (shows : Shows heap node.children below)
    (inside : (collectEach (serializeNode fuel) node.children).run heap = (.ok below.written, heap)) :
    (serializeNode (fuel + 1) reference).run heap =
      (.ok (.call reference :: node.payload.written below.references.isEmpty below.written), heap) := by
  unfold serializeNode
  rw [run_bind_of_ok (run_deref found)]
  cases payload : node.payload with
  | document storage =>
      dsimp only
      rw [run_bind_of_ok inside]
      rfl
  | element qualifiedName namespaceUri localName attributes =>
      dsimp only
      unfold serializeElement
      rw [shows.isEmpty_eq]
      cases below.references.isEmpty with
      | true => rfl
      | false =>
          rw [if_neg Bool.false_ne_true, bind_assoc, run_bind_of_ok inside]
          rfl
  | text text => rfl
  | comment text => rfl
  | processingInstruction target data =>
      dsimp only
      cases empty : data.isEmpty with
      | true => simp [Payload.written, empty]
      | false => simp [Payload.written, empty]
  | cdataSection text => rfl

theorem Shows.run_serialize {heap : Heap} {refs : List NodeRef} {nodes : Nodes}
    (shows : Shows heap refs nodes) {fuel : Nat} (high : nodes.height ≤ fuel) :
    (collectEach (serializeNode fuel) refs).run heap = (.ok nodes.written, heap) := by
  induction shows generalizing fuel with
  | nil => rfl
  | @cons reference children refs payload below rest found inside after ihInside ihAfter =>
      obtain ⟨inner, outer⟩ := Nat.max_le.mp high
      cases fuel with
      | zero => cases inner
      | succ fuel =>
          obtain ⟨node, isNode, same⟩ := Option.map_eq_some_iff.mp found
          obtain ⟨rfl, rfl⟩ := Prod.mk.inj same
          have first := run_serializeNode isNode inside (ihInside (Nat.le_of_succ_le_succ inner))
          unfold collectEach
          rw [run_bind_of_ok first, run_bind_of_ok (ihAfter outer), run_pure]
          simp [Nodes.written]

theorem ShowsDocument.run_serialize {heap : Heap} {document : NodeRef} {nodes : Nodes}
    (shown : ShowsDocument heap document nodes) (isDocument : heap.isDocument document) :
    (serialize document).run heap = (.ok (.call document :: nodes.written), heap) := by
  obtain ⟨node, found⟩ := Heap.exists_node (Heap.live_of_isDocument isDocument)
  have shows := shown.shows
  rw [Heap.links_children_of_nodes found] at shows
  have inside := shows.run_serialize (nodes.height_le.trans shown.low)
  unfold serialize
  rw [run_read_bind]
  refine (run_serializeNode found shows inside).trans ?_
  rw [Heap.isDocument_of_nodes found] at isDocument
  cases payload : node.payload with
  | document storage => rfl
  | _ =>
      rw [payload] at isDocument
      cases isDocument

/-! ## Which nodes are visited -/

theorem nodesWritten_append (first second : List Written) :
    nodesWritten (first ++ second) = nodesWritten first ++ nodesWritten second :=
  List.filterMap_append

theorem nodesWritten_payload (childless : Bool) (inside : List Written) (payload : Payload)
    (empty : childless = true → inside = []) :
    nodesWritten (payload.written childless inside) = if payload.isLeaf then [] else nodesWritten inside := by
  cases payload with
  | element qualifiedName namespaceUri localName attributes =>
      cases childless with
      | true =>
          rw [empty rfl]
          rfl
      | false => simp [Payload.written, nodesWritten, Payload.isLeaf]
  | processingInstruction target data =>
      cases filled : data.isEmpty with
      | true => simp [Payload.written, nodesWritten, Payload.isLeaf, filled]
      | false => simp [Payload.written, nodesWritten, Payload.isLeaf, filled]
  | _ => rfl

theorem Nodes.written_of_isEmpty {nodes : Nodes} (empty : nodes.references.isEmpty = true) :
    nodes.written = [] := by
  cases nodes with
  | nil => rfl
  | cons _ _ _ _ => cases empty

theorem Nodes.nodesWritten_cons (reference : NodeRef) (payload : Payload) (below rest : Nodes) :
    nodesWritten (Nodes.cons reference payload below rest).written =
      reference :: ((if payload.isLeaf then [] else nodesWritten below.written) ++
        nodesWritten rest.written) := by
  rw [← nodesWritten_payload below.references.isEmpty below.written payload Nodes.written_of_isEmpty,
    ← nodesWritten_append]
  rfl

theorem Nodes.references_cons (reference : NodeRef) (payload : Payload) (below rest : Nodes) :
    (Nodes.cons reference payload below rest).references =
      reference :: (below.references ++ rest.references) := rfl

/-- No leaf of the tree has children. -/
def Nodes.LeavesBare : Nodes → Prop
  | .nil => True
  | .cons _ payload below rest =>
      (payload.isLeaf = true → below.references = []) ∧ below.LeavesBare ∧ rest.LeavesBare

theorem Nodes.length_nodesWritten (nodes : Nodes) :
    (nodesWritten nodes.written).length ≤ nodes.references.length := by
  induction nodes with
  | nil => exact Nat.le_refl _
  | cons reference payload below rest ihBelow ihRest =>
      rw [Nodes.nodesWritten_cons, Nodes.references_cons]
      simp only [List.length_cons, List.length_append]
      split
      · rw [List.length_nil]
        omega
      · omega

/-- All nodes of a tree are visited exactly if its leaves have no children. -/
theorem Nodes.nodesWritten_eq_iff (nodes : Nodes) :
    nodesWritten nodes.written = nodes.references ↔ nodes.LeavesBare := by
  induction nodes with
  | nil => exact iff_of_true rfl trivial
  | cons reference payload below rest ihBelow ihRest =>
      have shortBelow := below.length_nodesWritten
      have shortRest := rest.length_nodesWritten
      unfold Nodes.LeavesBare
      rw [Nodes.nodesWritten_cons, Nodes.references_cons, List.cons_inj_right, ← ihBelow, ← ihRest]
      cases payload.isLeaf with
      | true =>
          simp only [if_true, List.nil_append, true_implies]
          constructor
          · intro same
            have lengths := congrArg List.length same
            rw [List.length_append] at lengths
            have none : below.references = [] := List.length_eq_zero_iff.mp (by omega)
            rw [none, List.nil_append] at same
            refine ⟨none, ?_, same⟩
            rw [none] at shortBelow ⊢
            exact List.length_eq_zero_iff.mp (Nat.le_zero.mp shortBelow)
          · intro bare
            rw [bare.1, List.nil_append]
            exact bare.2.2
      | false =>
          simp only [Bool.false_eq_true, if_false, false_implies, true_and]
          constructor
          · intro same
            have lengths := congrArg List.length same
            rw [List.length_append, List.length_append] at lengths
            exact List.append_inj same (by omega)
          · intro both
            rw [both.1, both.2]

theorem Shows.leavesBare_iff {heap : Heap} {refs : List NodeRef} {nodes : Nodes}
    (shows : Shows heap refs nodes) :
    nodes.LeavesBare ↔ ∀ reference ∈ nodes.references,
      heap.payloadIs Payload.isLeaf reference = true → heap.links.children reference = [] := by
  induction shows with
  | nil => exact iff_of_true trivial (List.forall_mem_nil _)
  | @cons reference children refs payload below rest found inside after ihInside ihAfter =>
      have listed := Heap.children_of_content found
      obtain ⟨node, isNode, same⟩ := Option.map_eq_some_iff.mp found
      obtain ⟨_, rfl⟩ := Prod.mk.inj same
      have isLeaf : heap.payloadIs Payload.isLeaf reference = node.payload.visible.isLeaf := by
        rw [Heap.payloadIs_of_nodes isNode, Payload.isLeaf_visible]
      have none : children = [] ↔ below.references = [] := by
        rw [← List.isEmpty_iff, ← List.isEmpty_iff, inside.isEmpty_eq]
      unfold Nodes.LeavesBare
      rw [Nodes.references_cons, List.forall_mem_cons, List.forall_mem_append, isLeaf, listed, none, ihInside, ihAfter]

/-! ## Documents -/

/-- Serializing applies `serialize_node` to the document and then to the nodes
below it, to each once, in the order of `depth_first`. -/
def LosesNoNode (heap : Heap) (document : NodeRef) : Prop :=
  ∃ written nodes, (serialize document).run heap = (.ok written, heap) ∧
    (depthFirst document).run heap = (.ok nodes, heap) ∧
    nodesWritten written = document :: nodes ∧ nodes.Nodup ∧
    ∀ node, node ∈ nodes ↔ Relation.TransGen heap.links.Child node document

/-- No node with children is of a type without. -/
def LeavesBareBelow (heap : Heap) (document : NodeRef) : Prop :=
  ∀ node, Relation.TransGen heap.links.Child node document →
    heap.payloadIs Payload.isLeaf node = true → heap.links.children node = []

theorem Coherent.serializes_iff {heap : Heap} (coherent : Coherent heap) {document : NodeRef}
    (isDocument : heap.isDocument document) :
    LosesNoNode heap document ↔ LeavesBareBelow heap document := by
  obtain ⟨nodes, shown⟩ := coherent.exists_showsDocument document
  have serialized := shown.run_serialize isDocument
  have ordered := shown.run_depthFirst (Heap.live_of_isDocument isDocument)
  have bare : nodes.LeavesBare ↔ LeavesBareBelow heap document := by
    rw [shown.shows.leavesBare_iff]
    exact forall_congr' fun node => imp_congr_left (shown.mem_iff node)
  rw [← bare, ← nodes.nodesWritten_eq_iff]
  constructor
  · intro loses
    obtain ⟨written, listed, ranSerialize, ranDepthFirst, same, _⟩ := loses
    cases serialized.symm.trans ranSerialize
    cases ordered.symm.trans ranDepthFirst
    exact List.tail_eq_of_cons_eq same
  · intro same
    refine ⟨_, _, serialized, ordered, ?_, shown.nodup, shown.mem_iff⟩
    exact congrArg (document :: ·) same

/-! ## Runs that give no leaf a child -/

/-- A leaf with children had children before, and was a leaf. -/
def Tame (before after : Heap) : Prop :=
  ∀ reference node, after.nodes reference = some node → node.payload.isLeaf = true →
    node.children ≠ [] → ∃ old, before.nodes reference = some old ∧ old.payload.isLeaf = true ∧
      old.children ≠ []

instance : Std.Refl Tame := ⟨fun _ _ node found leaf filled => ⟨node, found, leaf, filled⟩⟩

instance : IsTrans Heap Tame := ⟨fun before middle after first second reference node found leaf filled => by
  obtain ⟨old, foundOld, leafOld, filledOld⟩ := second reference node found leaf filled
  exact first reference old foundOld leafOld filledOld⟩

abbrev Tames {α : Type} (source : DomM α) : Prop := Obeys Tame (fun _ => True) source

/-- No node is a leaf with children. -/
def LeavesBare (heap : Heap) : Prop :=
  ∀ reference, heap.payloadIs Payload.isLeaf reference = true → heap.links.children reference = []

theorem LeavesBare.tame {before after : Heap} (bare : LeavesBare before) (tame : Tame before after) :
    LeavesBare after := by
  intro reference leaf
  cases found : after.nodes reference with
  | none => simp [Heap.links, found]
  | some node =>
      rw [Heap.payloadIs_of_nodes found] at leaf
      rw [Heap.links_children_of_nodes found]
      by_contra filled
      obtain ⟨old, foundOld, leafOld, filledOld⟩ := tame reference node found leaf filled
      have none := bare reference
      rw [Heap.payloadIs_of_nodes foundOld, Heap.links_children_of_nodes foundOld] at none
      exact filledOld (none leafOld)

theorem tame_update {heap : Heap} {reference : NodeRef} {change : Node → Node}
    (keeps : ∀ node, heap.nodes reference = some node → (change node).payload.isLeaf = true →
      (change node).children ≠ [] → node.payload.isLeaf = true ∧ node.children ≠ []) :
    Tame heap (heap.update reference change) := by
  intro other node found leaf filled
  unfold Heap.update at found
  dsimp only at found
  by_cases same : other = reference
  · subst same
    rw [Function.update_self] at found
    obtain ⟨old, foundOld, rfl⟩ := Option.map_eq_some_iff.mp found
    exact ⟨old, foundOld, keeps old foundOld leaf filled⟩
  · rw [Function.update_of_ne same] at found
    exact ⟨node, found, leaf, filled⟩

theorem tame_insert {heap : Heap} {node : Node} (childless : node.children = []) :
    Tame heap (heap.insert node) := by
  intro other found isNode leaf filled
  unfold Heap.insert at isNode
  dsimp only at isNode
  by_cases same : other = heap.nextRef
  · subst same
    rw [Function.update_self] at isNode
    cases isNode
    exact absurd childless filled
  · rw [Function.update_of_ne same] at isNode
    exact ⟨found, isNode, leaf, filled⟩

theorem tame_destroy (references : List NodeRef) (heap : Heap) : Tame heap (heap.destroy references) := by
  intro reference node found leaf filled
  unfold Heap.destroy at found
  dsimp only at found
  split at found
  · cases found
  · exact ⟨node, found, leaf, filled⟩

theorem tames_update {reference : NodeRef} {change : Node → Node}
    (keeps : ∀ node, (change node).payload.isLeaf = true → (change node).children ≠ [] →
      node.payload.isLeaf = true ∧ node.children ≠ []) :
    Tames (Comp.modify (Heap.update reference change) : DomM Unit) :=
  obeys_modify fun _ => tame_update fun node _ => keeps node

theorem tames_deref (reference : NodeRef) : Tames (deref reference) := by
  refine obeys_bind (obeys_read _) fun found => ?_
  cases found with
  | none => exact obeys_throw trivial
  | some node => exact obeys_pure node

theorem tames_derefDocument (reference : NodeRef) : Tames (derefDocument reference) := by
  refine obeys_bind (tames_deref reference) fun node => ?_
  split
  · exact obeys_pure _
  · exact obeys_throw trivial

theorem tames_forEach {α : Type} {body : α → DomM Unit} (tames : ∀ item, Tames (body item))
    (items : List α) : Tames (forEach body items) := by
  induction items with
  | nil => exact obeys_pure ()
  | cons item rest ih => exact obeys_bind (tames item) fun _ => ih

theorem tames_updateOwner (owner : NodeRef) (fuel : Nat) (reference : NodeRef) :
    Tames (updateOwner owner fuel reference) := by
  induction fuel generalizing reference with
  | zero => exact obeys_throw trivial
  | succ fuel ih =>
      refine obeys_bind (tames_update fun _ leaf filled => ⟨leaf, filled⟩) fun _ => ?_
      exact obeys_bind (tames_deref reference) fun node => tames_forEach ih node.children

theorem tames_takeContents (this other : NodeRef) : Tames (takeContents this other) := by
  refine obeys_bind (tames_derefDocument this) fun replaced => ?_
  refine obeys_bind (tames_derefDocument other) fun taken => ?_
  refine obeys_bind (tames_update fun _ leaf => nomatch leaf) fun _ => ?_
  refine obeys_bind (obeys_modify fun heap => tame_destroy _ heap) fun _ => ?_
  refine obeys_bind (tames_update fun _ leaf => nomatch leaf) fun _ => ?_
  refine obeys_bind (tames_forEach (fun child => ?_) _) fun _ => ?_
  · exact tames_update fun _ leaf filled => ⟨leaf, filled⟩
  · exact obeys_bind (obeys_read _) fun bound => tames_forEach (tames_updateOwner this _) _

theorem tames_newDocument : Tames newDocument := by
  refine obeys_bind (obeys_read _) fun this => ?_
  exact obeys_bind (obeys_modify fun _ => tame_insert rfl) fun _ => obeys_pure this

theorem tames_makeNode (this : NodeRef) (payload : Payload) : Tames (makeNode this payload) := by
  refine obeys_bind (tames_derefDocument this) fun document => obeys_bind (obeys_read _) fun reference => ?_
  refine obeys_bind (obeys_modify fun _ => tame_insert rfl) fun _ => ?_
  exact obeys_bind (tames_update fun _ leaf => nomatch leaf) fun _ => obeys_pure reference

theorem tames_setAttributeNs (this : NodeRef) (namespaceUri localName qualifiedName value : Bytes) :
    Tames (setAttributeNs this namespaceUri localName qualifiedName value) := by
  refine obeys_bind (tames_deref this) fun node => ?_
  split
  · exact tames_update fun _ leaf => nomatch leaf
  · exact obeys_throw trivial

/-- What a call does to a node it has looked up. -/
theorem tames_deref_bind {α : Type} {reference : NodeRef} {continuation : Node → DomM α}
    (tames : ∀ heap node, heap.nodes reference = some node →
      Tame heap ((continuation node).run heap).2) :
    Tames (deref reference >>= continuation) := by
  refine obeys_bind_of_run (tames_deref reference) fun heap node next ran => ?_
  obtain ⟨found, rfl⟩ := deref_eq_ok_iff.mp ran
  exact ⟨tames next node found, fun _ _ => trivial⟩

theorem tames_setText (this : NodeRef) (text : Bytes) : Tames (setText this text) := by
  apply tames_deref_bind
  intro heap node found
  cases payload : node.payload with
  | text old =>
      apply tame_update
      intro same isNode _ filled
      obtain rfl : node = same := Option.some.inj (found.symm.trans isNode)
      exact ⟨congrArg Payload.isLeaf payload, filled⟩
  | _ => exact Std.Refl.refl heap

theorem tame_unlink (this child : NodeRef) (heap : Heap) : Tame heap (heap.unlink this child) := by
  have erases : Tame heap
      (heap.update this (Node.setChildren ((heap.links.children this).erase child))) := by
    apply tame_update
    intro node found leaf filled
    refine ⟨leaf, fun none => filled ?_⟩
    change (heap.links.children this).erase child = []
    rw [Heap.links_children_of_nodes found, none]
    rfl
  exact IsTrans.trans _ _ _ erases (tame_update fun _ _ leaf filled => ⟨leaf, filled⟩)

theorem tames_removeChild (this child : NodeRef) : Tames (removeChild this child) := by
  apply tames_deref_bind
  intro heap node found
  split
  · exact Std.Refl.refl heap
  · have same := Heap.links_children_of_nodes found
    have tame := tame_unlink this child heap
    unfold Heap.unlink at tame
    rwa [same] at tame

/-- Appending to a document or to an element. -/
theorem tame_appendChild {heap : Heap} (coherent : Coherent heap) {this : NodeRef} (child : NodeRef)
    (container : heap.payloadIs Payload.isLeaf this = false) :
    Tame heap ((appendChild this child).run heap).2 := by
  rcases appendChild_ends coherent this child with ⟨ran, _⟩ | ⟨halt, ran, _⟩
  · rw [ran]
    have leaves : Tame heap (heap.orphan child) ∧ Relinks heap (heap.orphan child) := by
      unfold Heap.orphan
      cases heap.links.parent child with
      | none => exact ⟨Std.Refl.refl heap, rfl, fun _ => rfl⟩
      | some parent => exact ⟨tame_unlink parent child heap, Heap.relinks_unlink parent child heap⟩
    refine IsTrans.trans _ _ _ leaves.1 ?_
    have links : Tame (heap.orphan child)
        ((heap.orphan child).update this fun node => node.setChildren (node.children ++ [child])) := by
      apply tame_update
      intro node found leaf _
      have isLeaf := (leaves.2.payloadIs Payload.isLeaf this).trans container
      rw [Heap.payloadIs_of_nodes found] at isLeaf
      exact absurd (isLeaf.symm.trans leaf) Bool.false_ne_true
    exact IsTrans.trans _ _ _ links (tame_update fun _ _ leaf filled => ⟨leaf, filled⟩)
  · rw [ran]
    exact Std.Refl.refl heap

/-- A call that appends nothing to a leaf. -/
def Operation.SparesLeaves (heap : Heap) : Operation → Prop
  | .appendChild this _ => heap.payloadIs Payload.isLeaf this = false
  | _ => True

/-- Calls that append nothing to a leaf, whenever it is their turn. -/
def SparesLeaves : Heap → List Operation → Prop
  | _, [] => True
  | heap, operation :: rest =>
      operation.SparesLeaves heap ∧ SparesLeaves (operation.after heap) rest

instance (heap : Heap) (operation : Operation) : Decidable (operation.SparesLeaves heap) :=
  match operation with
  | .appendChild this _ => inferInstanceAs (Decidable (heap.payloadIs Payload.isLeaf this = false))
  | .newDocument | .createElement .. | .createText .. | .createComment ..
  | .createProcessingInstruction .. | .createCdataSection .. | .removeChild .. | .setText ..
  | .setAttribute .. | .setAttributeNs .. | .moveConstruct .. | .moveAssign .. =>
      inferInstanceAs (Decidable True)

instance decidableSparesLeaves : (heap : Heap) → (operations : List Operation) →
    Decidable (SparesLeaves heap operations)
  | _, [] => inferInstanceAs (Decidable True)
  | heap, operation :: rest =>
      have : Decidable (SparesLeaves (operation.after heap) rest) := decidableSparesLeaves _ rest
      inferInstanceAs (Decidable (_ ∧ _))

instance (heap : Heap) (reference : NodeRef) : Decidable (heap.isDocument reference) :=
  inferInstanceAs (Decidable (_ = true))

theorem tame_after {heap : Heap} (coherent : Coherent heap) (operation : Operation)
    (spares : operation.SparesLeaves heap) : Tame heap (operation.after heap) := by
  have forget : ∀ {α : Type} {source : DomM α}, Tames source →
      Tame heap ((source >>= fun _ => pure () : DomM Unit).run heap).2 :=
    fun tames => (obeys_bind tames fun _ => obeys_pure () : Tames _) heap |>.1
  cases operation with
  | newDocument => exact forget tames_newDocument
  | createElement this qualifiedName namespaceUri localName => exact forget (tames_makeNode this _)
  | createText this text => exact forget (tames_makeNode this _)
  | createComment this text => exact forget (tames_makeNode this _)
  | createProcessingInstruction this target data => exact forget (tames_makeNode this _)
  | createCdataSection this text => exact forget (tames_makeNode this _)
  | appendChild this child => exact tame_appendChild coherent child spares
  | removeChild this child => exact (tames_removeChild this child heap).1
  | setText this text => exact (tames_setText this text heap).1
  | setAttribute this name value => exact (tames_setAttributeNs this [] name name value heap).1
  | setAttributeNs this namespaceUri localName qualifiedName value =>
      exact (tames_setAttributeNs this namespaceUri localName qualifiedName value heap).1
  | moveConstruct other =>
      refine forget (obeys_bind (tames_derefDocument other) fun _ => ?_)
      refine obeys_bind tames_newDocument fun this => ?_
      exact obeys_bind (tames_takeContents this other) fun _ => obeys_pure this
  | moveAssign this other =>
      have moves : Tames (moveAssign this other) :=
        obeys_ite (fun _ => obeys_pure ()) fun _ => tames_takeContents this other
      exact (moves heap).1

theorem leavesBare_foldl {heap : Heap} (coherent : Coherent heap) (bare : LeavesBare heap)
    {operations : List Operation} (spares : SparesLeaves heap operations) :
    LeavesBare (operations.foldl Operation.after heap) := by
  induction operations generalizing heap with
  | nil => exact bare
  | cons operation rest ih =>
      exact ih (coherent_after coherent operation) (bare.tame (tame_after coherent operation spares.1))
        spares.2

/-- Serializing loses no node of a document exactly if no leaf below it has
children, and so on every run that appends nothing to a leaf. -/
theorem losesNoNode_iff (operations : List Operation) :
    (∀ document, (reached operations).isDocument document →
      (LosesNoNode (reached operations) document ↔ LeavesBareBelow (reached operations) document)) ∧
    (SparesLeaves {} operations → ∀ document, (reached operations).isDocument document →
      LosesNoNode (reached operations) document) := by
  have coherent := coherent_foldl coherent_empty operations
  refine ⟨fun document isDocument => coherent.serializes_iff isDocument, ?_⟩
  intro spares document isDocument
  have bare : LeavesBare (reached operations) :=
    leavesBare_foldl coherent_empty (fun _ leaf => nomatch leaf) spares
  exact (coherent.serializes_iff isDocument).mpr fun node _ => bare node

/-- A text and a comment are put into an element, the comment below the text or
beside it. -/
def insertions (parent : NodeRef) : List Operation :=
  [.newDocument, .createElement 0 (ascii "a") [] [], .createText 0 (ascii "x"),
    .createComment 0 (ascii "y"), .appendChild 0 1, .appendChild 1 2, .appendChild parent 3]

theorem losesNoNode_iff_sample : LosesNoNode (reached (insertions 1)) 0 := by
  exact (losesNoNode_iff (insertions 1)).2 (by decide +kernel) 0 (by decide +kernel)

theorem not_losesNoNode :
    (reached (insertions 2)).isDocument 0 ∧ ¬ LosesNoNode (reached (insertions 2)) 0 := by
  refine ⟨by decide +kernel, ?_⟩
  rintro ⟨written, nodes, serialized, ordered, same, _⟩
  have writtenHere : nodesWritten written = [0, 1, 2] := by
    have outcome := congrArg (fun ran => ran.1) serialized
    have known : ((serialize 0).run (reached (insertions 2))).1.map nodesWritten = .ok [0, 1, 2] := by
      decide +kernel
    rw [outcome] at known
    exact Except.ok.inj known
  have listedHere : nodes = [1, 2, 3] := by
    have outcome := congrArg (fun ran => ran.1) ordered
    have known : ((depthFirst 0).run (reached (insertions 2))).1 = .ok [1, 2, 3] := by decide +kernel
    exact Except.ok.inj (outcome.symm.trans known)
  rw [writtenHere, listedHere] at same
  cases same

end XmlParser.Dom
