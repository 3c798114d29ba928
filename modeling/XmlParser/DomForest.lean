import XmlParser.Dom
import XmlParser.Library.Forest
import XmlParser.Library.Triple
import Mathlib.Data.Finset.Range

/-! The nodes of all documents form a forest on every run of the client, and
every node is owned by the document whose storage holds it. -/

set_option autoImplicit false

namespace XmlParser.Dom

open XmlParser.Computation Comp Forest

/-! ## What a heap says of a reference -/

namespace Heap

def live (heap : Heap) (reference : NodeRef) : Prop := (heap.nodes reference).isSome = true

def ownerOf (heap : Heap) (reference : NodeRef) : Option NodeRef :=
  (heap.nodes reference).bind Node.owner

def storageOf (heap : Heap) (reference : NodeRef) : List NodeRef :=
  ((heap.nodes reference).map fun node => node.payload.storage).getD []

def isDocument (heap : Heap) (reference : NodeRef) : Prop :=
  heap.payloadIs Payload.isDocument reference = true

def links (heap : Heap) : Links NodeRef where
  parent reference := (heap.nodes reference).bind Node.parent
  children reference := ((heap.nodes reference).map Node.children).getD []

/-- The element children of a document. -/
def elementChildren (heap : Heap) (reference : NodeRef) : List NodeRef :=
  (heap.links.children reference).filter fun child => heap.payloadIs Payload.isElement child

end Heap

/-- What holds between two calls of the client. -/
structure Coherent (heap : Heap) : Prop where
  /-- A node is among the children of another one exactly if that one is its
  parent, and then once; no node is above itself. -/
  forest : heap.links.IsForest
  bounded : ∀ reference, heap.live reference → reference < heap.nextRef
  document : ∀ reference, heap.isDocument reference →
    heap.ownerOf reference = some reference ∧ heap.links.parent reference = none
  owned : ∀ reference, heap.live reference → ¬ heap.isDocument reference →
    ∃ owner, heap.ownerOf reference = some owner ∧ heap.isDocument owner ∧
      reference ∈ heap.storageOf owner
  stored : ∀ owner reference, reference ∈ heap.storageOf owner →
    heap.live reference ∧ ¬ heap.isDocument reference ∧ heap.ownerOf reference = some owner
  sameOwner : ∀ reference parent, heap.links.parent reference = some parent →
    heap.ownerOf reference = heap.ownerOf parent
  oneElement : ∀ reference, heap.isDocument reference → (heap.elementChildren reference).length ≤ 1

/-! ## Reading a heap -/

theorem deref_eq_ok_iff {reference : NodeRef} {heap final : Heap} {node : Node} :
    (deref reference).run heap = (.ok node, final) ↔ heap.nodes reference = some node ∧ final = heap := by
  unfold deref
  rw [run_read_bind]
  cases heap.nodes reference with
  | none => simp
  | some found => simp [eq_comm]

theorem run_deref {reference : NodeRef} {heap : Heap} {node : Node}
    (found : heap.nodes reference = some node) :
    (deref reference).run heap = (.ok node, heap) :=
  deref_eq_ok_iff.mpr ⟨found, rfl⟩

theorem deref_eq_error {reference : NodeRef} {heap final : Heap} {halt : Halt}
    (threw : (deref reference).run heap = (.error halt, final)) :
    halt = .undefinedBehavior ∧ final = heap := by
  unfold deref at threw
  rw [run_read_bind] at threw
  cases found : heap.nodes reference with
  | none =>
      rw [found] at threw
      cases threw
      exact ⟨rfl, rfl⟩
  | some node =>
      rw [found] at threw
      cases threw

namespace Heap

variable {heap : Heap} {reference other : NodeRef} {node : Node}

theorem live_of_nodes (found : heap.nodes reference = some node) : heap.live reference := by
  unfold live
  rw [found]
  rfl

theorem links_parent_of_nodes (found : heap.nodes reference = some node) :
    heap.links.parent reference = node.parent := by
  simp [links, found]

theorem links_children_of_nodes (found : heap.nodes reference = some node) :
    heap.links.children reference = node.children := by
  simp [links, found]

theorem ownerOf_of_nodes (found : heap.nodes reference = some node) :
    heap.ownerOf reference = node.owner := by
  simp [ownerOf, found]

theorem storageOf_of_nodes (found : heap.nodes reference = some node) :
    heap.storageOf reference = node.payload.storage := by
  simp [storageOf, found]

theorem payloadIs_of_nodes (found : heap.nodes reference = some node) (test : Payload → Bool) :
    heap.payloadIs test reference = test node.payload := by
  simp [payloadIs, found]

theorem isDocument_of_nodes (found : heap.nodes reference = some node) :
    heap.isDocument reference ↔ node.payload.isDocument = true := by
  unfold isDocument
  rw [payloadIs_of_nodes found]

theorem live_of_parent {parent : NodeRef} (child : heap.links.parent reference = some parent) :
    heap.live reference := by
  unfold live
  unfold links at child
  dsimp only at child
  cases found : heap.nodes reference with
  | none =>
      rw [found] at child
      cases child
  | some node => rfl

theorem exists_node (isLive : heap.live reference) : ∃ node, heap.nodes reference = some node :=
  Option.isSome_iff_exists.mp isLive

theorem live_of_isDocument (isDocument : heap.isDocument reference) : heap.live reference := by
  unfold Heap.isDocument payloadIs at isDocument
  unfold live
  cases found : heap.nodes reference with
  | none =>
      rw [found] at isDocument
      cases isDocument
  | some node => rfl

end Heap

/-! ## Changes of the links only -/

/-- Nothing but the links of the nodes changes. -/
structure Relinks (before after : Heap) : Prop where
  nextRef : after.nextRef = before.nextRef
  nodes : ∀ reference, (after.nodes reference).map (fun node => (node.owner, node.payload)) =
    (before.nodes reference).map fun node => (node.owner, node.payload)

namespace Relinks

variable {before after : Heap} (relinks : Relinks before after)
include relinks

theorem trans {final : Heap} (second : Relinks after final) : Relinks before final :=
  ⟨second.nextRef.trans relinks.nextRef, fun reference => (second.nodes reference).trans (relinks.nodes reference)⟩

theorem live (reference : NodeRef) : after.live reference ↔ before.live reference := by
  have same := congrArg Option.isSome (relinks.nodes reference)
  rw [Option.isSome_map, Option.isSome_map] at same
  unfold Heap.live
  rw [same]

theorem payloadIs (test : Payload → Bool) (reference : NodeRef) :
    after.payloadIs test reference = before.payloadIs test reference := by
  have same := congrArg (fun node => (node.map fun pair : Option NodeRef × Payload => test pair.2).getD false)
    (relinks.nodes reference)
  simpa [Heap.payloadIs, Function.comp_def] using same

theorem isDocument (reference : NodeRef) : after.isDocument reference ↔ before.isDocument reference := by
  unfold Heap.isDocument
  rw [relinks.payloadIs]

theorem ownerOf (reference : NodeRef) : after.ownerOf reference = before.ownerOf reference := by
  have same := congrArg (fun node => node.bind fun pair : Option NodeRef × Payload => pair.1)
    (relinks.nodes reference)
  simpa [Heap.ownerOf, Option.bind_map, Function.comp_def] using same

theorem storageOf (reference : NodeRef) : after.storageOf reference = before.storageOf reference := by
  have same := congrArg (fun node => (node.map fun pair : Option NodeRef × Payload => pair.2.storage).getD [])
    (relinks.nodes reference)
  simpa [Heap.storageOf, Function.comp_def] using same

/-- What is left to show of a change of the links. -/
theorem coherent (coherent : Coherent before) (forest : after.links.IsForest)
    (documents : ∀ reference, after.isDocument reference → after.links.parent reference = none)
    (owners : ∀ reference parent, after.links.parent reference = some parent →
      before.ownerOf reference = before.ownerOf parent)
    (oneElement : ∀ reference, before.isDocument reference → (after.elementChildren reference).length ≤ 1) :
    Coherent after where
  forest := forest
  bounded reference isLive := by
    rw [relinks.nextRef]
    exact coherent.bounded reference ((relinks.live reference).mp isLive)
  document reference isDocument := by
    rw [relinks.ownerOf]
    exact ⟨(coherent.document reference ((relinks.isDocument reference).mp isDocument)).1,
      documents reference isDocument⟩
  owned reference isLive other := by
    obtain ⟨owner, owns, isDocument, member⟩ := coherent.owned reference
      ((relinks.live reference).mp isLive) (mt (relinks.isDocument reference).mpr other)
    refine ⟨owner, (relinks.ownerOf reference).trans owns, (relinks.isDocument owner).mpr isDocument, ?_⟩
    rw [relinks.storageOf]
    exact member
  stored owner reference member := by
    rw [relinks.storageOf] at member
    rw [relinks.live, relinks.isDocument, relinks.ownerOf]
    exact coherent.stored owner reference member
  sameOwner reference parent child := by
    rw [relinks.ownerOf, relinks.ownerOf]
    exact owners reference parent child
  oneElement reference isDocument :=
    oneElement reference ((relinks.isDocument reference).mp isDocument)

end Relinks

namespace Heap

theorem relinks_update {heap : Heap} {reference : NodeRef} {change : Node → Node}
    (keeps : ∀ node, (change node).owner = node.owner ∧ (change node).payload = node.payload) :
    Relinks heap (heap.update reference change) := by
  refine ⟨rfl, fun other => ?_⟩
  unfold update
  dsimp only
  by_cases same : other = reference
  · subst same
    rw [Function.update_self, Option.map_map]
    congr 1
    funext node
    simp [(keeps node).1, (keeps node).2]
  · rw [Function.update_of_ne same]

/-- The heap without the link between a parent and its child. -/
def unlink (this child : NodeRef) (heap : Heap) : Heap :=
  (heap.update this (Node.setChildren ((heap.links.children this).erase child))).update child
    (Node.setParent none)

def link (this child : NodeRef) (heap : Heap) : Heap :=
  (heap.update this fun node => node.setChildren (node.children ++ [child])).update child
    (Node.setParent (some this))

theorem relinks_unlink (this child : NodeRef) (heap : Heap) : Relinks heap (heap.unlink this child) := by
  have first : Relinks heap (heap.update this
      (Node.setChildren ((heap.links.children this).erase child))) := relinks_update fun _ => ⟨rfl, rfl⟩
  exact first.trans (relinks_update fun _ => ⟨rfl, rfl⟩)

theorem relinks_link (this child : NodeRef) (heap : Heap) : Relinks heap (heap.link this child) := by
  have first : Relinks heap (heap.update this fun node =>
      node.setChildren (node.children ++ [child])) := relinks_update fun _ => ⟨rfl, rfl⟩
  exact first.trans (relinks_update fun _ => ⟨rfl, rfl⟩)

theorem links_setChildren {heap : Heap} {reference : NodeRef} (isLive : heap.live reference)
    (children : Node → List NodeRef) :
    (heap.update reference fun node => node.setChildren (children node)).links =
      { heap.links with
        children := Function.update heap.links.children reference
          (((heap.nodes reference).map children).getD []) } := by
  obtain ⟨node, found⟩ := exists_node isLive
  unfold links update
  congr 1
  · funext other
    dsimp only
    by_cases same : other = reference
    · subst same
      rw [Function.update_self, found]
      rfl
    · rw [Function.update_of_ne same]
  · funext other
    by_cases same : other = reference
    · subst same
      dsimp only
      rw [Function.update_self, Function.update_self, found]
      rfl
    · dsimp only
      rw [Function.update_of_ne same, Function.update_of_ne same]

theorem links_setParent {heap : Heap} {reference : NodeRef} (parent : Option NodeRef)
    (isLive : heap.live reference) :
    (heap.update reference (Node.setParent parent)).links =
      { heap.links with parent := Function.update heap.links.parent reference parent } := by
  obtain ⟨node, found⟩ := exists_node isLive
  unfold links update
  congr 1
  · funext other
    by_cases same : other = reference
    · subst same
      dsimp only
      rw [Function.update_self, Function.update_self, found]
      rfl
    · dsimp only
      rw [Function.update_of_ne same, Function.update_of_ne same]
  · funext other
    dsimp only
    by_cases same : other = reference
    · subst same
      rw [Function.update_self, found]
      rfl
    · rw [Function.update_of_ne same]

theorem links_unlink {heap : Heap} {this child : NodeRef} (isLive : heap.live this)
    (childLive : heap.live child) : (heap.unlink this child).links = heap.links.detach this child := by
  have relinked : Relinks heap (heap.update this
      (Node.setChildren ((heap.links.children this).erase child))) := relinks_update fun _ => ⟨rfl, rfl⟩
  unfold unlink
  rw [links_setParent none ((relinked.live child).mpr childLive)]
  obtain ⟨node, found⟩ := exists_node isLive
  rw [show Node.setChildren ((heap.links.children this).erase child) =
    fun node => node.setChildren ((fun _ => (heap.links.children this).erase child) node) from rfl,
    links_setChildren isLive, found]
  rfl

theorem links_link {heap : Heap} {this child : NodeRef} (isLive : heap.live this)
    (childLive : heap.live child) : (heap.link this child).links = heap.links.attach this child := by
  have relinked : Relinks heap (heap.update this fun node =>
      node.setChildren (node.children ++ [child])) := relinks_update fun _ => ⟨rfl, rfl⟩
  unfold link
  rw [links_setParent (some this) ((relinked.live child).mpr childLive), links_setChildren isLive]
  obtain ⟨node, found⟩ := exists_node isLive
  unfold Links.attach
  rw [links_children_of_nodes found, found]
  rfl

end Heap

/-! ## Children -/

theorem Coherent.live_parent {heap : Heap} (coherent : Coherent heap) {reference parent : NodeRef}
    (child : heap.links.parent reference = some parent) : heap.live parent := by
  have member := (coherent.forest.mem_children_iff reference parent).mpr child
  unfold Heap.links at member
  dsimp only at member
  unfold Heap.live
  cases found : heap.nodes parent with
  | none =>
      rw [found] at member
      cases member
  | some node => rfl

theorem Coherent.unlink {heap : Heap} (coherent : Coherent heap) {this child : NodeRef}
    (isChild : heap.links.parent child = some this) : Coherent (heap.unlink this child) := by
  have relinks := Heap.relinks_unlink this child heap
  have links := Heap.links_unlink (coherent.live_parent isChild) (Heap.live_of_parent isChild)
  have kept : ∀ reference parent, (heap.unlink this child).links.parent reference = some parent →
      heap.links.parent reference = some parent := by
    intro reference parent linked
    rw [links] at linked
    unfold Links.detach at linked
    dsimp only at linked
    by_cases same : reference = child
    · subst same
      rw [Function.update_self] at linked
      cases linked
    · rw [Function.update_of_ne same] at linked
      exact linked
  refine relinks.coherent coherent ?_ ?_ ?_ ?_
  · rw [links]
    exact coherent.forest.detach isChild
  · intro reference isDocument
    have none := (coherent.document reference ((relinks.isDocument reference).mp isDocument)).2
    cases linked : (heap.unlink this child).links.parent reference with
    | none => rfl
    | some parent =>
        rw [kept reference parent linked] at none
        cases none
  · exact fun reference parent linked => coherent.sameOwner reference parent (kept reference parent linked)
  · intro reference isDocument
    refine Nat.le_trans (List.Sublist.length_le ?_) (coherent.oneElement reference isDocument)
    unfold Heap.elementChildren
    have same : (fun other => (heap.unlink this child).payloadIs Payload.isElement other) =
        fun other => heap.payloadIs Payload.isElement other :=
      funext fun other => relinks.payloadIs Payload.isElement other
    rw [same, links]
    refine List.Sublist.filter _ ?_
    unfold Links.detach
    dsimp only
    by_cases sameParent : reference = this
    · subst sameParent
      rw [Function.update_self]
      exact List.erase_sublist
    · rw [Function.update_of_ne sameParent]

theorem Coherent.link {heap : Heap} (coherent : Coherent heap) {this child : NodeRef}
    (isLive : heap.live this) (childLive : heap.live child)
    (root : heap.links.parent child = none)
    (outside : ¬ Relation.ReflTransGen heap.links.Child this child)
    (owned : heap.ownerOf child = heap.ownerOf this) (inner : ¬ heap.isDocument child)
    (single : heap.isDocument this → heap.payloadIs Payload.isElement child = true →
      heap.elementChildren this = []) : Coherent (heap.link this child) := by
  have relinks := Heap.relinks_link this child heap
  have links := Heap.links_link isLive childLive
  have parents : ∀ reference, (heap.link this child).links.parent reference =
      Function.update heap.links.parent child (some this) reference := by
    intro reference
    rw [links]
    rfl
  refine relinks.coherent coherent ?_ ?_ ?_ ?_
  · rw [links]
    exact coherent.forest.attach root outside
  · intro reference isDocument
    rw [relinks.isDocument] at isDocument
    have other : reference ≠ child := fun same => inner (same ▸ isDocument)
    rw [parents, Function.update_of_ne other]
    exact (coherent.document reference isDocument).2
  · intro reference parent linked
    rw [parents] at linked
    by_cases same : reference = child
    · subst same
      rw [Function.update_self] at linked
      cases linked
      exact owned
    · rw [Function.update_of_ne same] at linked
      exact coherent.sameOwner reference parent linked
  · intro reference isDocument
    have before := coherent.oneElement reference isDocument
    unfold Heap.elementChildren at before ⊢
    have same : (fun other => (heap.link this child).payloadIs Payload.isElement other) =
        fun other => heap.payloadIs Payload.isElement other :=
      funext fun other => relinks.payloadIs Payload.isElement other
    rw [same, links]
    unfold Links.attach
    dsimp only
    by_cases sameParent : reference = this
    · subst sameParent
      rw [Function.update_self, List.filter_append, List.length_append]
      cases isElement : heap.payloadIs Payload.isElement child with
      | false =>
          have none : [child].filter (fun other => heap.payloadIs Payload.isElement other) = [] :=
            List.filter_eq_nil_iff.mpr fun other member => by
              rw [List.mem_singleton.mp member, isElement]
              exact Bool.false_ne_true
          rw [none]
          exact before
      | true =>
          have none := single isDocument isElement
          unfold Heap.elementChildren at none
          rw [none]
          exact Nat.le_trans (Nat.le_of_eq (Nat.zero_add _)) (List.length_filter_le _ _)
    · rw [Function.update_of_ne sameParent]
      exact before

/-! ## Ancestors -/

theorem Coherent.exists_height {heap : Heap} (coherent : Coherent heap) :
    ∃ height : NodeRef → Nat, (∀ node parent, heap.links.parent node = some parent →
      height parent < height node) ∧ ∀ node, height node ≤ heap.nextRef := by
  obtain ⟨height, below, bounded⟩ := coherent.forest.acyclic.swap.exists_rank
    (Finset.range heap.nextRef) fun parent node child =>
      Finset.mem_range.mpr (coherent.bounded parent (coherent.live_parent child))
  refine ⟨height, fun node parent child => below parent node child, fun node => ?_⟩
  exact Nat.le_trans (bounded node) (Nat.le_of_eq (Finset.card_range _))

/-- The loop finds the ancestor if there is one, and ends as the links are acyclic. -/
theorem Coherent.run_isAncestorLoop {heap : Heap} (coherent : Coherent heap)
    {height : NodeRef → Nat} (below : ∀ node parent, heap.links.parent node = some parent →
      height parent < height node) (possibleAncestor : NodeRef) (fuel : Nat)
    (reference : NodeRef) (isLive : heap.live reference) (enough : height reference ≤ fuel) :
    ∃ found, (isAncestorLoop possibleAncestor fuel (heap.links.parent reference)).run heap =
        (.ok found, heap) ∧
      (found = true ↔ Relation.TransGen heap.links.Child reference possibleAncestor) := by
  induction fuel generalizing reference with
  | zero =>
      cases linked : heap.links.parent reference with
      | none =>
          refine ⟨false, rfl, nofun, fun path => ?_⟩
          obtain ⟨parent, first, _⟩ := Relation.TransGen.head'_iff.mp path
          rw [Links.Child, linked] at first
          cases first
      | some parent =>
          have lower := below reference parent linked
          omega
  | succ fuel ih =>
      cases linked : heap.links.parent reference with
      | none =>
          refine ⟨false, rfl, nofun, fun path => ?_⟩
          obtain ⟨parent, first, _⟩ := Relation.TransGen.head'_iff.mp path
          rw [Links.Child, linked] at first
          cases first
      | some parent =>
          have parentLive := coherent.live_parent linked
          obtain ⟨node, found⟩ := Heap.exists_node parentLive
          have lower := below reference parent linked
          unfold isAncestorLoop
          by_cases same : parent = possibleAncestor
          · subst same
            refine ⟨true, ?_, fun _ => .single linked, fun _ => rfl⟩
            rw [if_pos (beq_self_eq_true _)]
            rfl
          · rw [if_neg (mt beq_iff_eq.mp same), run_bind_of_ok (run_deref found),
              ← Heap.links_parent_of_nodes found]
            obtain ⟨answer, ran, means⟩ := ih parent parentLive (by omega)
            refine ⟨answer, ran, means.trans ⟨fun path => .head linked path, fun path => ?_⟩⟩
            obtain ⟨next, first, rest⟩ := Relation.TransGen.head'_iff.mp path
            rw [Links.Child, linked] at first
            cases first
            exact (Relation.reflTransGen_iff_eq_or_transGen.mp rest).resolve_left fun eq => same eq.symm

theorem Coherent.run_isAncestorOf {heap : Heap} (coherent : Coherent heap)
    (possibleAncestor : NodeRef) {reference : NodeRef} (isLive : heap.live reference) :
    ∃ found, (isAncestorOf possibleAncestor reference).run heap = (.ok found, heap) ∧
      (found = true ↔ Relation.TransGen heap.links.Child reference possibleAncestor) := by
  obtain ⟨height, below, bounded⟩ := coherent.exists_height
  obtain ⟨node, found⟩ := Heap.exists_node isLive
  unfold isAncestorOf
  rw [run_bind_of_ok (run_deref found), run_read_bind, ← Heap.links_parent_of_nodes found]
  exact coherent.run_isAncestorLoop below possibleAncestor _ reference isLive
    (Nat.le_succ_of_le (bounded reference))

/-! ## Operations -/

/-- After a throw, too, the heap is coherent; and no loop was cut short. -/
def Kept (halt : Halt) (heap : Heap) : Prop := Coherent heap ∧ halt ≠ .outOfFuel

theorem triple_deref (reference : NodeRef) :
    Triple Coherent (deref reference)
      (fun node heap => Coherent heap ∧ heap.nodes reference = some node) Kept := by
  intro heap coherent
  constructor
  · intro node final ran
    obtain ⟨found, rfl⟩ := deref_eq_ok_iff.mp ran
    exact ⟨coherent, found⟩
  · intro halt final ran
    obtain ⟨rfl, rfl⟩ := deref_eq_error ran
    exact ⟨coherent, nofun⟩

theorem run_removeChild {heap : Heap} {this child : NodeRef}
    (isChild : child ∈ heap.links.children this) (isLive : heap.live this) :
    (removeChild this child).run heap = (.ok (), heap.unlink this child) := by
  obtain ⟨node, found⟩ := Heap.exists_node isLive
  rw [Heap.links_children_of_nodes found] at isChild
  unfold removeChild Heap.unlink
  rw [run_bind_of_ok (run_deref found), if_neg, Heap.links_children_of_nodes found]
  · rfl
  · rw [List.contains_iff_mem.mpr isChild]
    exact Bool.false_ne_true

theorem triple_removeChild (this child : NodeRef) :
    Triple Coherent (removeChild this child) (fun _ => Coherent) Kept := by
  intro heap coherent
  cases found : heap.nodes this with
  | none =>
      have ran : (removeChild this child).run heap = (.error .undefinedBehavior, heap) := by
        unfold removeChild deref
        rw [run_bind, run_read_bind, found]
        rfl
      rw [ran]
      exact ⟨nofun, fun halt final same => by cases same; exact ⟨coherent, nofun⟩⟩
  | some node =>
      by_cases member : child ∈ node.children
      · have isChild : child ∈ heap.links.children this := by
          rw [Heap.links_children_of_nodes found]
          exact member
        rw [run_removeChild isChild (Heap.live_of_nodes found)]
        refine ⟨fun value final same => ?_, nofun⟩
        cases same
        exact coherent.unlink ((coherent.forest.mem_children_iff child this).mp isChild)
      · have ran : (removeChild this child).run heap =
            (domError (α := Unit) "Node is not a child of this parent").run heap := by
          unfold removeChild
          rw [run_bind_of_ok (run_deref found), if_pos]
          simpa using member
        rw [ran]
        exact ⟨nofun, fun halt final same => by cases same; exact ⟨coherent, nofun⟩⟩

/-- What `append_child` has established before it links the nodes. -/
structure Insertable (heap : Heap) (this child : NodeRef) : Prop where
  thisLive : heap.live this
  childLive : heap.live child
  owned : heap.ownerOf child = heap.ownerOf this
  inner : ¬ heap.isDocument child
  outside : ¬ Relation.ReflTransGen heap.links.Child this child
  single : heap.isDocument this → heap.payloadIs Payload.isElement child = true →
    ∀ existing ∈ heap.elementChildren this, existing = child

/-- The heap once the child has left its parent, if it had one. -/
def Heap.orphan (child : NodeRef) (heap : Heap) : Heap :=
  match heap.links.parent child with
  | some parent => heap.unlink parent child
  | none => heap

theorem run_linkChild {heap : Heap} (coherent : Coherent heap) {this child : NodeRef}
    (childLive : heap.live child) :
    (linkChild this child).run heap = (.ok (), (heap.orphan child).link this child) := by
  obtain ⟨node, found⟩ := Heap.exists_node childLive
  unfold linkChild Heap.orphan
  rw [run_bind_of_ok (run_deref found), ← Heap.links_parent_of_nodes found]
  cases linked : heap.links.parent child with
  | none => rfl
  | some parent =>
      dsimp only
      rw [run_bind_of_ok (run_removeChild ((coherent.forest.mem_children_iff child parent).mpr linked)
        (coherent.live_parent linked))]
      rfl

theorem Insertable.coherent {heap : Heap} {this child : NodeRef} (coherent : Coherent heap)
    (insertable : Insertable heap this child) : Coherent ((heap.orphan child).link this child) := by
  obtain ⟨thisLive, childLive, owned, inner, outside, single⟩ := insertable
  unfold Heap.orphan
  cases linked : heap.links.parent child with
  | none =>
      dsimp only
      refine coherent.link thisLive childLive linked outside owned inner fun isDocument isElement => ?_
      refine List.eq_nil_iff_forall_not_mem.mpr fun existing member => ?_
      have same := single isDocument isElement existing member
      subst same
      have listed := (coherent.forest.mem_children_iff existing this).mp (List.mem_filter.mp member).1
      rw [linked] at listed
      cases listed
  | some parent =>
      dsimp only
      have relinks := Heap.relinks_unlink parent child heap
      have links := Heap.links_unlink (coherent.live_parent linked) childLive
      refine (coherent.unlink linked).link ((relinks.live this).mpr thisLive)
        ((relinks.live child).mpr childLive) ?_ ?_ ?_ ?_ ?_
      · rw [links]
        exact Function.update_self ..
      · intro path
        refine outside (Relation.ReflTransGen.mono (fun node above edge => ?_) this child path)
        rw [Links.Child, links] at edge
        unfold Links.detach at edge
        dsimp only at edge
        by_cases same : node = child
        · subst same
          rw [Function.update_self] at edge
          cases edge
        · rw [Function.update_of_ne same] at edge
          exact edge
      · rw [relinks.ownerOf, relinks.ownerOf]
        exact owned
      · rw [relinks.isDocument]
        exact inner
      · intro isDocument isElement
        rw [relinks.isDocument] at isDocument
        rw [relinks.payloadIs] at isElement
        refine List.eq_nil_iff_forall_not_mem.mpr fun existing member => ?_
        obtain ⟨listed, existingElement⟩ := List.mem_filter.mp member
        have here := ((coherent.unlink linked).forest.mem_children_iff existing this).mp listed
        rw [links] at here
        unfold Links.detach at here
        dsimp only at here
        by_cases same : existing = child
        · subst same
          rw [Function.update_self] at here
          cases here
        · rw [Function.update_of_ne same] at here
          rw [relinks.payloadIs] at existingElement
          exact same (single isDocument isElement existing
            (List.mem_filter.mpr ⟨(coherent.forest.mem_children_iff existing this).mpr here, existingElement⟩))

/-- How a call ends that only links nodes, or throws and changes nothing. -/
def EndsBy (heap : Heap) (ran : Except Halt Unit × Heap) (possible : Prop) (linked : Heap) : Prop :=
  (ran = (.ok (), linked) ∧ possible) ∨ ∃ halt, ran = (.error halt, heap) ∧ halt ≠ .outOfFuel

theorem appendChild_ends {heap : Heap} (coherent : Coherent heap) (this child : NodeRef) :
    EndsBy heap ((appendChild this child).run heap) (Insertable heap this child)
      ((heap.orphan child).link this child) := by
  have dead : ∀ {reference : NodeRef} {continuation : Node → DomM Unit},
      heap.nodes reference = none →
      (deref reference >>= continuation).run heap = (.error .undefinedBehavior, heap) := by
    intro reference continuation missing
    unfold deref
    rw [run_bind, run_read_bind, missing]
    rfl
  have thrown : ∀ message : String, EndsBy heap ((domError message : DomM Unit).run heap)
      (Insertable heap this child) ((heap.orphan child).link this child) :=
    fun message => .inr ⟨_, rfl, nofun⟩
  unfold appendChild
  cases found : heap.nodes this with
  | none => exact .inr ⟨_, dead found, nofun⟩
  | some node =>
  rw [run_bind_of_ok (run_deref found)]
  cases childFound : heap.nodes child with
  | none => exact .inr ⟨_, dead childFound, nofun⟩
  | some childNode =>
  rw [run_bind_of_ok (run_deref childFound)]
  split
  · exact thrown _
  rename_i inner
  split
  · exact thrown _
  rename_i sameOwner
  split
  · exact thrown _
  rename_i different
  obtain ⟨answer, ran, means⟩ := coherent.run_isAncestorOf child (Heap.live_of_nodes found)
  rw [run_bind_of_ok ran]
  cases answer with
  | true => exact thrown _
  | false =>
  rw [if_neg Bool.false_ne_true, run_read_bind]
  split
  · exact thrown _
  rename_i single
  refine .inl ⟨run_linkChild coherent (Heap.live_of_nodes childFound), ?_⟩
  refine ⟨Heap.live_of_nodes found, Heap.live_of_nodes childFound, ?_, ?_, ?_, ?_⟩
  · rw [Heap.ownerOf_of_nodes found, Heap.ownerOf_of_nodes childFound]
    simp only [Bool.or_eq_true, not_or, bne_iff_ne, ne_eq, Decidable.not_not] at sameOwner
    exact sameOwner.2
  · rw [Heap.isDocument_of_nodes childFound]
    exact inner
  · intro path
    rcases Relation.reflTransGen_iff_eq_or_transGen.mp path with same | above
    · exact different (beq_iff_eq.mpr same)
    · cases means.mpr above
  · intro isDocument isElement existing member
    obtain ⟨listed, existingElement⟩ := List.mem_filter.mp member
    rw [Heap.links_children_of_nodes found] at listed
    rw [Heap.isDocument_of_nodes found] at isDocument
    rw [Heap.payloadIs_of_nodes childFound] at isElement
    by_contra other
    refine single ?_
    rw [isDocument, isElement, Bool.true_and, Bool.true_and, List.any_eq_true]
    refine ⟨existing, listed, ?_⟩
    rw [id_eq, existingElement, Bool.and_true]
    exact bne_iff_ne.mpr other

/-- Nothing else keeps `append_child` from linking the nodes. -/
theorem run_appendChild {heap : Heap} (coherent : Coherent heap) {this child : NodeRef}
    (insertable : Insertable heap this child) :
    (appendChild this child).run heap = (.ok (), (heap.orphan child).link this child) := by
  obtain ⟨thisLive, childLive, owned, inner, outside, single⟩ := insertable
  obtain ⟨node, found⟩ := Heap.exists_node thisLive
  obtain ⟨childNode, childFound⟩ := Heap.exists_node childLive
  obtain ⟨answer, ran, means⟩ := coherent.run_isAncestorOf child thisLive
  rw [Heap.isDocument_of_nodes childFound, Bool.not_eq_true] at inner
  rw [Heap.ownerOf_of_nodes found, Heap.ownerOf_of_nodes childFound] at owned
  have hasOwner : node.owner.isNone = false := by
    rw [← Heap.ownerOf_of_nodes found]
    by_cases document : heap.isDocument this
    · rw [(coherent.document this document).1]
      rfl
    · obtain ⟨owner, owns, _⟩ := coherent.owned this thisLive document
      rw [owns]
      rfl
  have different : (child == this) = false := by
    rw [beq_eq_false_iff_ne]
    intro same
    subst same
    exact outside .refl
  have notAbove : answer = false := by
    rw [← Bool.not_eq_true, means]
    exact fun above => outside above.to_reflTransGen
  have lone : (node.payload.isDocument && childNode.payload.isElement &&
      node.children.any fun existing =>
        existing != child && heap.payloadIs Payload.isElement existing) = false := by
    rw [Bool.and_eq_false_iff, ← Bool.not_eq_true, Bool.and_eq_true, ← Bool.not_eq_true, List.any_eq_true,
      ← not_and_or]
    intro both
    obtain ⟨⟨isDocument, isElement⟩, existing, listed, other⟩ := both
    rw [Bool.and_eq_true, bne_iff_ne] at other
    refine other.1 (single ?_ ?_ existing (List.mem_filter.mpr ⟨?_, other.2⟩))
    · rw [Heap.isDocument_of_nodes found]
      exact isDocument
    · rw [Heap.payloadIs_of_nodes childFound]
      exact isElement
    · rw [Heap.links_children_of_nodes found]
      exact listed
  subst notAbove
  unfold appendChild
  rw [run_bind_of_ok (run_deref found), run_bind_of_ok (run_deref childFound), inner,
    if_neg Bool.false_ne_true, hasOwner, owned, bne_self_eq_false, Bool.or_false, if_neg Bool.false_ne_true,
    different, if_neg Bool.false_ne_true, run_bind_of_ok ran, if_neg Bool.false_ne_true, run_read_bind]
  dsimp only [id_eq]
  rw [if_neg (Bool.eq_false_iff.mp lone)]
  exact run_linkChild coherent childLive

theorem triple_appendChild (this child : NodeRef) :
    Triple Coherent (appendChild this child) (fun _ => Coherent) Kept := by
  intro heap coherent
  rcases appendChild_ends coherent this child with ⟨ran, insertable⟩ | ⟨halt, ran, proper⟩
  · rw [ran]
    refine ⟨fun value final same => ?_, nofun⟩
    cases same
    exact insertable.coherent coherent
  · rw [ran]
    refine ⟨nofun, fun other final same => ?_⟩
    cases same
    exact ⟨coherent, proper⟩

/-! ## Contents of nodes -/

/-- What the coherence of a heap depends on in a node. -/
def Node.shape (node : Node) :
    Option NodeRef × Option NodeRef × List NodeRef × Bool × Bool × List NodeRef :=
  (node.owner, node.parent, node.children, node.payload.isDocument, node.payload.isElement,
    node.payload.storage)

theorem Coherent.of_shape {before after : Heap} (coherent : Coherent before)
    (nextRef : after.nextRef = before.nextRef)
    (shapes : ∀ reference, (after.nodes reference).map Node.shape =
      (before.nodes reference).map Node.shape) : Coherent after := by
  have view : ∀ {β : Type} (part : Option NodeRef × Option NodeRef × List NodeRef × Bool × Bool ×
      List NodeRef → β) (reference : NodeRef),
      (after.nodes reference).map (fun node => part node.shape) =
        (before.nodes reference).map fun node => part node.shape := by
    intro β part reference
    have same := congrArg (Option.map part) (shapes reference)
    rwa [Option.map_map, Option.map_map] at same
  have live : ∀ reference, after.live reference ↔ before.live reference := by
    intro reference
    have same := congrArg Option.isSome (shapes reference)
    rw [Option.isSome_map, Option.isSome_map] at same
    unfold Heap.live
    rw [same]
  have links : after.links = before.links := by
    unfold Heap.links
    congr 1
    · funext reference
      have same := congrArg (fun shape => shape.bind fun part => part.2.1) (shapes reference)
      rwa [Option.bind_map, Option.bind_map] at same
    · funext reference
      exact congrArg (fun children => children.getD []) (view (fun shape => shape.2.2.1) reference)
  have ownerOf : ∀ reference, after.ownerOf reference = before.ownerOf reference := by
    intro reference
    have same := congrArg (fun shape => shape.bind fun part => part.1) (shapes reference)
    rwa [Option.bind_map, Option.bind_map] at same
  have storageOf : ∀ reference, after.storageOf reference = before.storageOf reference :=
    fun reference => congrArg (fun storage => storage.getD []) (view (fun shape => shape.2.2.2.2.2) reference)
  have isDocument : ∀ reference, after.isDocument reference ↔ before.isDocument reference := by
    intro reference
    have same := congrArg (fun test => test.getD false) (view (fun shape => shape.2.2.2.1) reference)
    unfold Heap.isDocument Heap.payloadIs
    exact iff_of_eq (congrArg (· = true) same)
  have isElement : ∀ reference, after.payloadIs Payload.isElement reference =
      before.payloadIs Payload.isElement reference :=
    fun reference => congrArg (fun test => test.getD false) (view (fun shape => shape.2.2.2.2.1) reference)
  constructor
  · rw [links]
    exact coherent.forest
  · intro reference isLive
    rw [nextRef]
    exact coherent.bounded reference ((live reference).mp isLive)
  · intro reference document
    rw [ownerOf, links]
    exact coherent.document reference ((isDocument reference).mp document)
  · intro reference isLive other
    obtain ⟨owner, owns, document, member⟩ := coherent.owned reference ((live reference).mp isLive)
      (mt (isDocument reference).mpr other)
    refine ⟨owner, (ownerOf reference).trans owns, (isDocument owner).mpr document, ?_⟩
    rw [storageOf]
    exact member
  · intro owner reference member
    rw [storageOf] at member
    rw [live, isDocument, ownerOf]
    exact coherent.stored owner reference member
  · intro reference parent child
    rw [links] at child
    rw [ownerOf, ownerOf]
    exact coherent.sameOwner reference parent child
  · intro reference document
    unfold Heap.elementChildren
    rw [links, show (fun child => after.payloadIs Payload.isElement child) =
      fun child => before.payloadIs Payload.isElement child from funext isElement]
    exact coherent.oneElement reference ((isDocument reference).mp document)

/-- New content of the same class. -/
theorem Coherent.setPayload {heap : Heap} (coherent : Coherent heap) {reference : NodeRef}
    {node : Node} (found : heap.nodes reference = some node) {payload : Payload}
    (same : (node.setPayload payload).shape = node.shape) :
    Coherent (heap.update reference (Node.setPayload payload)) := by
  refine coherent.of_shape rfl fun other => ?_
  unfold Heap.update
  dsimp only
  by_cases here : other = reference
  · subst here
    rw [Function.update_self, found, Option.map_some, Option.map_some, Option.map_some, same]
  · rw [Function.update_of_ne here]

theorem triple_setAttributeNs (this : NodeRef) (namespaceUri localName qualifiedName value : Bytes) :
    Triple Coherent (setAttributeNs this namespaceUri localName qualifiedName value)
      (fun _ => Coherent) Kept := by
  refine triple_bind (triple_deref this) fun node => ?_
  cases payload : node.payload with
  | element name uri localPart attributes =>
      refine triple_modify fun heap here => here.1.setPayload here.2 ?_
      unfold Node.shape
      rw [payload]
      rfl
  | document storage => exact triple_throw fun heap here => ⟨here.1, nofun⟩
  | text text => exact triple_throw fun heap here => ⟨here.1, nofun⟩
  | comment text => exact triple_throw fun heap here => ⟨here.1, nofun⟩
  | processingInstruction target data => exact triple_throw fun heap here => ⟨here.1, nofun⟩
  | cdataSection text => exact triple_throw fun heap here => ⟨here.1, nofun⟩

theorem triple_setText (this : NodeRef) (text : Bytes) :
    Triple Coherent (setText this text) (fun _ => Coherent) Kept := by
  refine triple_bind (triple_deref this) fun node => ?_
  cases payload : node.payload with
  | text old =>
      refine triple_modify fun heap here => here.1.setPayload here.2 ?_
      unfold Node.shape
      rw [payload]
      rfl
  | document storage => exact triple_throw fun heap here => ⟨here.1, nofun⟩
  | element name uri localPart attributes => exact triple_throw fun heap here => ⟨here.1, nofun⟩
  | comment text => exact triple_throw fun heap here => ⟨here.1, nofun⟩
  | processingInstruction target data => exact triple_throw fun heap here => ⟨here.1, nofun⟩
  | cdataSection text => exact triple_throw fun heap here => ⟨here.1, nofun⟩

/-! ## New nodes -/

theorem Coherent.fresh {heap : Heap} (coherent : Coherent heap) : heap.nodes heap.nextRef = none := by
  cases found : heap.nodes heap.nextRef with
  | none => rfl
  | some node => exact absurd (coherent.bounded _ (Heap.live_of_nodes found)) (Nat.lt_irrefl _)

/-- A heap to which one unlinked node has been added, and its owner's storage
extended by it. -/
structure Extends (before after : Heap) (reference : NodeRef) (node : Node) : Prop where
  fresh : before.nodes reference = none
  nextRef : after.nextRef = reference + 1 ∧ before.nextRef = reference
  links : after.links = before.links
  live : ∀ other, after.live other ↔ other = reference ∨ before.live other
  ownerOf : ∀ other, after.ownerOf other = if other = reference then node.owner else before.ownerOf other
  payloadIs : ∀ test other, test = Payload.isDocument ∨ test = Payload.isElement →
    after.payloadIs test other =
      if other = reference then test node.payload else before.payloadIs test other
  storageOf : ∀ owner other, other ∈ after.storageOf owner ↔ other ∈ before.storageOf owner ∨
    (other = reference ∧ node.payload.isDocument = false ∧ node.owner = some owner)
  owner : if node.payload.isDocument then node.owner = some reference
    else ∃ owner, node.owner = some owner ∧ before.isDocument owner

theorem Extends.coherent {before after : Heap} {reference : NodeRef} {node : Node}
    (extends' : Extends before after reference node) (coherent : Coherent before) : Coherent after := by
  obtain ⟨fresh, ⟨nextAfter, nextBefore⟩, links, live, ownerOf, payloadIs, storageOf, owner⟩ := extends'
  have dead : ¬ before.live reference := by
    unfold Heap.live
    rw [fresh]
    exact Bool.false_ne_true
  have other : ∀ {old : NodeRef}, before.live old → old ≠ reference :=
    fun isLive same => dead (same ▸ isLive)
  have isDocument : ∀ old, after.isDocument old ↔
      (if old = reference then node.payload.isDocument else before.payloadIs Payload.isDocument old) = true := by
    intro old
    unfold Heap.isDocument
    rw [payloadIs _ old (.inl rfl)]
  have oldDocument : ∀ {old : NodeRef}, before.isDocument old → after.isDocument old := by
    intro old document
    rw [isDocument, if_neg (other (Heap.live_of_isDocument document))]
    exact document
  have noParent : before.links.parent reference = none := by
    cases linked : before.links.parent reference with
    | none => rfl
    | some parent => exact absurd (Heap.live_of_parent linked) dead
  constructor
  · rw [links]
    exact coherent.forest
  · intro old isLive
    rw [nextAfter]
    cases (live old).mp isLive with
    | inl same => exact same ▸ Nat.lt_succ_self _
    | inr isOld => exact Nat.lt_succ_of_lt (nextBefore ▸ coherent.bounded old isOld)
  · intro old document
    rw [isDocument] at document
    rw [ownerOf, links]
    by_cases same : old = reference
    · subst same
      rw [if_pos rfl] at document ⊢
      rw [document] at owner
      exact ⟨owner, noParent⟩
    · rw [if_neg same] at document ⊢
      exact coherent.document old document
  · intro old isLive inner
    rw [isDocument] at inner
    by_cases same : old = reference
    · subst same
      rw [if_pos rfl, Bool.not_eq_true] at inner
      rw [inner] at owner
      obtain ⟨above, owns, document⟩ := owner
      refine ⟨above, ?_, oldDocument document, (storageOf above old).mpr (.inr ⟨rfl, inner, owns⟩)⟩
      rw [ownerOf, if_pos rfl, owns]
    · rw [if_neg same] at inner
      obtain ⟨above, owns, document, member⟩ := coherent.owned old
        (((live old).mp isLive).resolve_left same) inner
      refine ⟨above, ?_, oldDocument document, (storageOf above old).mpr (.inl member)⟩
      rw [ownerOf, if_neg same, owns]
  · intro above old member
    rw [live, isDocument, ownerOf]
    cases (storageOf above old).mp member with
    | inl stored =>
        obtain ⟨isLive, inner, owns⟩ := coherent.stored above old stored
        rw [if_neg (other isLive), if_neg (other isLive)]
        exact ⟨.inr isLive, inner, owns⟩
    | inr added =>
        obtain ⟨rfl, inner, owns⟩ := added
        rw [if_pos rfl, if_pos rfl, inner]
        exact ⟨.inl rfl, Bool.false_ne_true, owns⟩
  · intro old parent child
    rw [links] at child
    rw [ownerOf, ownerOf, if_neg (other (Heap.live_of_parent child)),
      if_neg (other (coherent.live_parent child))]
    exact coherent.sameOwner old parent child
  · intro old document
    unfold Heap.elementChildren
    rw [links]
    by_cases same : old = reference
    · subst same
      have none : before.links.children old = [] := by
        unfold Heap.links
        dsimp only
        rw [fresh]
        rfl
      rw [none]
      exact Nat.zero_le 1
    · rw [isDocument, if_neg same] at document
      have elements : (before.links.children old).filter (fun child => after.payloadIs Payload.isElement child) =
          (before.links.children old).filter fun child => before.payloadIs Payload.isElement child := by
        refine List.filter_congr fun child member => ?_
        have linked := (coherent.forest.mem_children_iff child old).mp member
        rw [payloadIs _ child (.inr rfl), if_neg (other (Heap.live_of_parent linked))]
      rw [elements]
      exact coherent.oneElement old document

theorem Heap.nodes_insert (node : Node) (heap : Heap) (reference : NodeRef) :
    (heap.insert node).nodes reference =
      if reference = heap.nextRef then some node else heap.nodes reference := by
  unfold Heap.insert
  dsimp only
  by_cases same : reference = heap.nextRef
  · subst same
    rw [Function.update_self, if_pos rfl]
  · rw [Function.update_of_ne same, if_neg same]

theorem Heap.links_insert {heap : Heap} (fresh : heap.nodes heap.nextRef = none) {node : Node}
    (root : node.parent = none) (leaf : node.children = []) : (heap.insert node).links = heap.links := by
  unfold Heap.links
  congr 1
  · funext reference
    rw [Heap.nodes_insert]
    split
    · rename_i same
      rw [same, fresh, Option.bind_some, root]
      rfl
    · rfl
  · funext reference
    rw [Heap.nodes_insert]
    split
    · rename_i same
      rw [same, fresh, Option.map_some, leaf]
      rfl
    · rfl

theorem extends_newDocument {heap : Heap} (fresh : heap.nodes heap.nextRef = none) {node : Node}
    (created : node = { owner := some heap.nextRef, payload := .document [] }) :
    Extends heap (heap.insert node) heap.nextRef node := by
  subst created
  refine ⟨fresh, ⟨rfl, rfl⟩, Heap.links_insert fresh rfl rfl, ?_, ?_, ?_, ?_, rfl⟩
  · intro other
    unfold Heap.live
    rw [Heap.nodes_insert]
    split
    · rename_i same
      exact ⟨fun _ => .inl same, fun _ => rfl⟩
    · rename_i different
      exact ⟨.inr, fun either => either.resolve_left different⟩
  · intro other
    unfold Heap.ownerOf
    rw [Heap.nodes_insert]
    split
    · rfl
    · rfl
  · intro test other _
    unfold Heap.payloadIs
    rw [Heap.nodes_insert]
    split
    · rfl
    · rfl
  · intro owner other
    unfold Heap.storageOf
    rw [Heap.nodes_insert]
    split
    · rename_i same
      rw [same, fresh]
      exact ⟨fun member => (nomatch member),
        fun either => either.elim (fun member => (nomatch member)) fun absurd => (nomatch absurd.2.1)⟩
    · exact ⟨.inl, fun either => either.resolve_right fun absurd => (nomatch absurd.2.1)⟩

theorem Coherent.newDocument {heap : Heap} (coherent : Coherent heap) :
    Coherent (heap.insert { owner := some heap.nextRef, payload := .document [] }) :=
  (extends_newDocument coherent.fresh rfl).coherent coherent

/-- A new node of a document. -/
def Heap.withNode (this : NodeRef) (storage : List NodeRef) (payload : Payload) (heap : Heap) : Heap :=
  (heap.insert { owner := some this, payload }).update this
    (Node.setPayload (.document (storage ++ [heap.nextRef])))

theorem extends_makeNode {heap : Heap} (fresh : heap.nodes heap.nextRef = none) {this : NodeRef}
    {document : Node} {storage : List NodeRef} (found : heap.nodes this = some document)
    (stores : document.payload = .document storage) {payload : Payload}
    (inner : payload.isDocument = false) {node : Node}
    (created : node = { owner := some this, payload }) :
    Extends heap (heap.withNode this storage payload) heap.nextRef node := by
  subst created
  have different : heap.nextRef ≠ this := by
    intro same
    rw [same, found] at fresh
    cases fresh
  have nodes : ∀ other, (heap.withNode this storage payload).nodes other =
      if other = heap.nextRef then some { owner := some this, payload }
      else if other = this then
        some (document.setPayload (.document (storage ++ [heap.nextRef])))
      else heap.nodes other := by
    intro other
    unfold Heap.withNode Heap.update
    dsimp only
    by_cases isThis : other = this
    · subst isThis
      rw [Function.update_self, Heap.nodes_insert, if_neg different.symm, if_neg different.symm,
        if_pos rfl, found]
      rfl
    · rw [Function.update_of_ne isThis, Heap.nodes_insert, if_neg isThis]
  refine ⟨fresh, ⟨rfl, rfl⟩, ?_, ?_, ?_, ?_, ?_, ?_⟩
  · unfold Heap.links
    congr 1
    · funext other
      rw [nodes]
      split
      · rename_i same
        rw [same, fresh]
        rfl
      · split
        · rename_i same
          rw [same, found]
          rfl
        · rfl
    · funext other
      rw [nodes]
      split
      · rename_i same
        rw [same, fresh]
        rfl
      · split
        · rename_i same
          rw [same, found]
          rfl
        · rfl
  · intro other
    unfold Heap.live
    rw [nodes]
    split
    · rename_i same
      exact ⟨fun _ => .inl same, fun _ => rfl⟩
    · rename_i fresh
      split
      · rename_i same
        rw [same, found]
        exact ⟨fun _ => .inr rfl, fun _ => rfl⟩
      · exact ⟨.inr, fun either => either.resolve_left fresh⟩
  · intro other
    unfold Heap.ownerOf
    rw [nodes]
    split
    · rfl
    · split
      · rename_i same
        rw [same, found]
        rfl
      · rfl
  · intro test other isTest
    unfold Heap.payloadIs
    rw [nodes]
    split
    · rfl
    · split
      · rename_i same
        rw [same, found, Option.map_some, Option.map_some, stores]
        cases isTest with
        | inl same => rw [same]; rfl
        | inr same => rw [same]; rfl
      · rfl
  · intro owner other
    unfold Heap.storageOf
    rw [nodes]
    split
    · rename_i same
      subst same
      have empty : payload.storage = [] := by
        cases payload with
        | document storage => cases inner
        | _ => rfl
      rw [fresh, Option.map_some, empty]
      refine ⟨fun member => (nomatch member), fun either => either.elim (fun member => (nomatch member)) ?_⟩
      intro added
      exact absurd (Option.some.inj added.2.2).symm different
    · split
      · rename_i same
        subst same
        rw [found, Option.map_some, Option.map_some, stores]
        refine List.mem_append.trans (or_congr Iff.rfl ?_)
        rw [List.mem_singleton]
        exact ⟨fun same => ⟨same, inner, rfl⟩, fun added => added.1⟩
      · rename_i other
        exact ⟨.inl, fun either => either.resolve_right fun added =>
          other (Option.some.inj added.2.2).symm⟩
  · rw [inner, if_neg Bool.false_ne_true]
    refine ⟨this, rfl, ?_⟩
    rw [Heap.isDocument_of_nodes found, stores]
    rfl

theorem Coherent.withNode {heap : Heap} (coherent : Coherent heap) {this : NodeRef} {document : Node}
    {storage : List NodeRef} (found : heap.nodes this = some document)
    (stores : document.payload = .document storage) {payload : Payload}
    (inner : payload.isDocument = false) : Coherent (heap.withNode this storage payload) :=
  (extends_makeNode coherent.fresh found stores inner rfl).coherent coherent

theorem triple_derefDocument (reference : NodeRef) :
    Triple Coherent (derefDocument reference)
      (fun document heap => Coherent heap ∧ heap.nodes reference = some document.1 ∧
        document.1.payload = .document document.2) Kept := by
  refine triple_bind (triple_deref reference) fun node => ?_
  cases payload : node.payload with
  | document storage => exact triple_pure fun heap here => ⟨here.1, here.2, payload⟩
  | _ => exact triple_throw fun heap here => ⟨here.1, nofun⟩

theorem triple_makeNode (this : NodeRef) {payload : Payload} (inner : payload.isDocument = false) :
    Triple Coherent (makeNode this payload) (fun _ => Coherent) Kept := by
  refine triple_bind (triple_derefDocument this) fun document => ?_
  intro heap here
  refine ⟨fun reference final ran => ?_, nofun⟩
  cases ran
  exact here.1.withNode here.2.1 here.2.2 inner

theorem triple_newDocument : Triple Coherent newDocument (fun _ => Coherent) Kept := by
  intro heap coherent
  refine ⟨fun reference final ran => ?_, nofun⟩
  cases ran
  exact coherent.newDocument

/-! ## Moves -/

namespace Heap

/-- The same change of several nodes. -/
def updateAll (references : List NodeRef) (change : Node → Node) (heap : Heap) : Heap :=
  { heap with nodes := fun reference =>
      if reference ∈ references then (heap.nodes reference).map change else heap.nodes reference }

theorem updateAll_update {heap : Heap} {references : List NodeRef} {reference : NodeRef}
    {change : Node → Node} (idempotent : ∀ node, change (change node) = change node) :
    (heap.updateAll references change).update reference change =
      heap.updateAll (reference :: references) change := by
  unfold updateAll update
  congr 1
  funext other
  dsimp only
  by_cases same : other = reference
  · subst same
    rw [Function.update_self, if_pos List.mem_cons_self]
    split
    · rw [Option.map_map]
      congr 1
      funext node
      exact idempotent node
    · rfl
  · rw [Function.update_of_ne same]
    refine ite_congr ?_ (fun _ => rfl) fun _ => rfl
    rw [List.mem_cons, or_iff_right same]

theorem updateAll_congr {heap : Heap} {first second : List NodeRef} (change : Node → Node)
    (same : ∀ reference, reference ∈ first ↔ reference ∈ second) :
    heap.updateAll first change = heap.updateAll second change := by
  unfold updateAll
  congr 1
  funext reference
  exact ite_congr (propext (same reference)) (fun _ => rfl) fun _ => rfl

theorem updateAll_nil (heap : Heap) (change : Node → Node) : heap.updateAll [] change = heap := by
  unfold updateAll
  congr 1

end Heap

theorem run_forEach_update {change : Node → Node} (idempotent : ∀ node, change (change node) = change node)
    (items references : List NodeRef) (heap : Heap) :
    (forEach (fun item => Comp.modify (Heap.update item change)) items).run
        (heap.updateAll references change) =
      (.ok (), heap.updateAll (items.reverse ++ references) change) := by
  induction items generalizing references with
  | nil => rfl
  | cons item rest ih =>
      unfold forEach
      rw [run_modify_bind, Heap.updateAll_update idempotent, ih, List.reverse_cons, List.append_assoc]
      rfl

/-- A set of nodes that is closed under children, of decreasing rank. -/
structure ClosedBelow (heap : Heap) (references : List NodeRef) (rank : NodeRef → Nat) : Prop where
  live : ∀ reference ∈ references, heap.live reference
  children : ∀ reference ∈ references, ∀ child ∈ heap.links.children reference,
    child ∈ references ∧ rank child < rank reference

theorem setOwnerDocument_idempotent (owner : Option NodeRef) (node : Node) :
    (node.setOwnerDocument owner).setOwnerDocument owner = node.setOwnerDocument owner := rfl

/-- How far the recursion of `update_owner` has come. -/
def Reowns (heap : Heap) (owner : NodeRef) (references visited required : List NodeRef)
    (ran : Except Halt Unit × Heap) : Prop :=
  ∃ after, ran = (.ok (), heap.updateAll after (Node.setOwnerDocument (some owner))) ∧
    visited ⊆ after ∧ required ⊆ after ∧ after ⊆ references

theorem reowns_forEach {heap : Heap} {owner fuel : Nat} {references items : List NodeRef}
    (each : ∀ item ∈ items, ∀ visited, visited ⊆ references →
      Reowns heap owner references visited [item]
        ((updateOwner owner fuel item).run (heap.updateAll visited (Node.setOwnerDocument (some owner)))))
    (visited : List NodeRef) (visitedInside : visited ⊆ references) :
    Reowns heap owner references visited items
      ((forEach (updateOwner owner fuel) items).run
        (heap.updateAll visited (Node.setOwnerDocument (some owner)))) := by
  induction items generalizing visited with
  | nil => exact ⟨visited, rfl, fun _ => id, List.nil_subset _, visitedInside⟩
  | cons item rest ih =>
      obtain ⟨between, ran, kept, reached, bounded⟩ :=
        each item List.mem_cons_self visited visitedInside
      obtain ⟨after, ranRest, keptRest, reachedRest, boundedRest⟩ :=
        ih (fun other member => each other (List.mem_cons_of_mem _ member)) between bounded
      refine ⟨after, ?_, fun _ member => keptRest (kept member), ?_, boundedRest⟩
      · unfold forEach
        rw [run_bind_of_ok ran]
        exact ranRest
      · exact List.cons_subset.mpr ⟨keptRest (reached List.mem_cons_self), reachedRest⟩

theorem reowns_updateOwner {heap : Heap} {owner : NodeRef} {references : List NodeRef}
    {rank : NodeRef → Nat} (closed : ClosedBelow heap references rank) (fuel : Nat)
    (visited : List NodeRef) (reference : NodeRef) (member : reference ∈ references)
    (visitedInside : visited ⊆ references) (enough : rank reference < fuel) :
    Reowns heap owner references visited [reference]
      ((updateOwner owner fuel reference).run
        (heap.updateAll visited (Node.setOwnerDocument (some owner)))) := by
  induction fuel generalizing visited reference with
  | zero => exact absurd enough (Nat.not_lt_zero _)
  | succ fuel ih =>
      obtain ⟨node, found⟩ := Heap.exists_node (closed.live reference member)
      have here : (heap.updateAll (reference :: visited) (Node.setOwnerDocument (some owner))).nodes
          reference = some (node.setOwnerDocument (some owner)) := by
        unfold Heap.updateAll
        dsimp only
        rw [if_pos List.mem_cons_self, found]
        rfl
      unfold updateOwner
      rw [run_modify_bind, Heap.updateAll_update (setOwnerDocument_idempotent (some owner)),
        run_bind_of_ok (run_deref here)]
      have inside : reference :: visited ⊆ references := List.cons_subset.mpr ⟨member, visitedInside⟩
      have each : ∀ child ∈ node.children, ∀ visited, visited ⊆ references →
          Reowns heap owner references visited [child] ((updateOwner owner fuel child).run
            (heap.updateAll visited (Node.setOwnerDocument (some owner)))) := by
        intro child listed visited visitedInside
        rw [← Heap.links_children_of_nodes found] at listed
        obtain ⟨childMember, lower⟩ := closed.children reference member child listed
        exact ih visited child childMember visitedInside (Nat.lt_of_lt_of_le lower (Nat.le_of_lt_succ enough))
      obtain ⟨after, ran, kept, _, bounded⟩ := reowns_forEach each (reference :: visited) inside
      refine ⟨after, ran, fun _ listed => kept (List.mem_cons_of_mem _ listed), ?_, bounded⟩
      exact List.cons_subset.mpr ⟨kept List.mem_cons_self, List.nil_subset _⟩

/-- All nodes of a storage get a new owner. -/
theorem run_updateOwners (owner : NodeRef) {heap : Heap} {references : List NodeRef}
    {rank : NodeRef → Nat} (closed : ClosedBelow heap references rank) {bound : Nat}
    (bounded : ∀ reference, rank reference ≤ bound) :
    (forEach (updateOwner owner (bound + 1)) references).run heap =
      (.ok (), heap.updateAll references (Node.setOwnerDocument (some owner))) := by
  have each : ∀ item ∈ references, ∀ visited, visited ⊆ references →
      Reowns heap owner references visited [item] ((updateOwner owner (bound + 1) item).run
        (heap.updateAll visited (Node.setOwnerDocument (some owner)))) :=
    fun item member visited inside =>
      reowns_updateOwner closed (bound + 1) visited item member inside (Nat.lt_succ_of_le (bounded item))
  obtain ⟨after, ran, _, reached, inside⟩ := reowns_forEach each [] (List.nil_subset _)
  rw [Heap.updateAll_nil] at ran
  rw [ran, Heap.updateAll_congr _ fun reference => ⟨fun member => inside member, fun member => reached member⟩]

theorem run_derefDocument {heap : Heap} {reference : NodeRef} {node : Node} {storage : List NodeRef}
    (found : heap.nodes reference = some node) (stores : node.payload = .document storage) :
    (derefDocument reference).run heap = (.ok (node, storage), heap) := by
  unfold derefDocument
  rw [run_bind_of_ok (run_deref found), stores]
  rfl

/-- Two documents whose contents one of them is about to take. -/
structure Exchange (heap : Heap) (this other : NodeRef) (thisNode otherNode : Node)
    (replaced storage : List NodeRef) : Prop where
  different : this ≠ other
  thisFound : heap.nodes this = some thisNode
  thisStores : thisNode.payload = .document replaced
  otherFound : heap.nodes other = some otherNode
  otherStores : otherNode.payload = .document storage

/-- The heap after the contents of `other` have moved to `this`. -/
def Heap.moved (this other : NodeRef) (thisNode otherNode : Node) (replaced storage : List NodeRef)
    (heap : Heap) : Heap :=
  { heap with
    nodes := fun reference =>
      if reference = this then
        some ((thisNode.setPayload (.document storage)).setChildren otherNode.children)
      else if reference = other then some ((otherNode.setPayload (.document [])).setChildren [])
      else if reference ∈ replaced then none
      else if reference ∈ storage then
        (heap.nodes reference).map fun node =>
          { node with
            owner := some this
            parent := if reference ∈ otherNode.children then some this else node.parent }
      else heap.nodes reference }

namespace Exchange

variable {heap : Heap} {this other : NodeRef} {thisNode otherNode : Node} {replaced storage : List NodeRef}
  (exchange : Exchange heap this other thisNode otherNode replaced storage) (coherent : Coherent heap)

include exchange

theorem thisDocument : heap.isDocument this := by
  rw [Heap.isDocument_of_nodes exchange.thisFound, exchange.thisStores]
  rfl

theorem otherDocument : heap.isDocument other := by
  rw [Heap.isDocument_of_nodes exchange.otherFound, exchange.otherStores]
  rfl

theorem mem_replaced_iff {reference : NodeRef} :
    reference ∈ replaced ↔ reference ∈ heap.storageOf this := by
  rw [Heap.storageOf_of_nodes exchange.thisFound, exchange.thisStores]
  rfl

theorem mem_storage_iff {reference : NodeRef} :
    reference ∈ storage ↔ reference ∈ heap.storageOf other := by
  rw [Heap.storageOf_of_nodes exchange.otherFound, exchange.otherStores]
  rfl

theorem mem_otherChildren_iff {reference : NodeRef} :
    reference ∈ otherNode.children ↔ reference ∈ heap.links.children other := by
  rw [Heap.links_children_of_nodes exchange.otherFound]

include coherent

/-- A stored node is neither document, and in one storage only. -/
theorem of_mem_storage {reference : NodeRef} (member : reference ∈ storage) :
    heap.live reference ∧ reference ≠ this ∧ reference ≠ other ∧ reference ∉ replaced ∧
      heap.ownerOf reference = some other := by
  obtain ⟨isLive, inner, owned⟩ := coherent.stored other reference (exchange.mem_storage_iff.mp member)
  refine ⟨isLive, ?_, ?_, ?_, owned⟩
  · exact fun same => inner (same ▸ exchange.thisDocument)
  · exact fun same => inner (same ▸ exchange.otherDocument)
  · intro isReplaced
    have owns := (coherent.stored this reference (exchange.mem_replaced_iff.mp isReplaced)).2.2
    rw [owned] at owns
    exact exchange.different (Option.some.inj owns).symm

theorem of_mem_replaced {reference : NodeRef} (member : reference ∈ replaced) :
    reference ≠ this ∧ reference ≠ other ∧ heap.ownerOf reference = some this := by
  obtain ⟨isLive, inner, owned⟩ := coherent.stored this reference (exchange.mem_replaced_iff.mp member)
  exact ⟨fun same => inner (same ▸ exchange.thisDocument),
    fun same => inner (same ▸ exchange.otherDocument), owned⟩

omit exchange in
/-- What has a parent is stored by the owner of its parent. -/
theorem stored_of_parent {reference parent owner : NodeRef}
    (child : heap.links.parent reference = some parent) (owns : heap.ownerOf parent = some owner) :
    reference ∈ heap.storageOf owner := by
  have inner : ¬ heap.isDocument reference := by
    intro document
    have root := (coherent.document reference document).2
    rw [child] at root
    cases root
  obtain ⟨above, owned, _, member⟩ := coherent.owned reference (Heap.live_of_parent child) inner
  rw [coherent.sameOwner reference parent child, owns] at owned
  cases owned
  exact member

theorem children_stored {reference : NodeRef} (member : reference ∈ otherNode.children) :
    reference ∈ storage := by
  have child := (coherent.forest.mem_children_iff reference other).mp (exchange.mem_otherChildren_iff.mp member)
  exact exchange.mem_storage_iff.mpr (stored_of_parent coherent child
    (coherent.document other exchange.otherDocument).1)

end Exchange

/-- The heap in front of the loops of a move. -/
def Heap.emptied (this other : NodeRef) (otherNode : Node) (replaced storage : List NodeRef)
    (heap : Heap) : Heap :=
  ((heap.update other fun node => (node.setPayload (.document [])).setChildren []).destroy replaced).update
    this fun node => (node.setPayload (.document storage)).setChildren otherNode.children

namespace Exchange

variable {heap : Heap} {this other : NodeRef} {thisNode otherNode : Node} {replaced storage : List NodeRef}
  (exchange : Exchange heap this other thisNode otherNode replaced storage) (coherent : Coherent heap)

theorem nodes_emptied {reference : NodeRef} (notThis : reference ≠ this) (notOther : reference ≠ other)
    (kept : reference ∉ replaced) :
    (heap.emptied this other otherNode replaced storage).nodes reference = heap.nodes reference := by
  unfold Heap.emptied Heap.update Heap.destroy
  dsimp only
  rw [Function.update_of_ne notThis, Function.update_of_ne notOther, if_neg]
  rw [List.contains_iff_mem]
  exact kept

include exchange coherent

theorem closedBelow {rank : NodeRef → Nat}
    (above : ∀ node parent, heap.links.Child node parent → rank node < rank parent) :
    ClosedBelow ((heap.emptied this other otherNode replaced storage).updateAll
      (otherNode.children.reverse ++ []) (Node.setParent (some this))) storage rank := by
  have same : ∀ reference ∈ storage,
      (((heap.emptied this other otherNode replaced storage).updateAll
        (otherNode.children.reverse ++ []) (Node.setParent (some this))).nodes reference).map
          Node.children = (heap.nodes reference).map Node.children := by
    intro reference member
    obtain ⟨_, notThis, notOther, kept, _⟩ := exchange.of_mem_storage coherent member
    unfold Heap.updateAll
    dsimp only
    rw [nodes_emptied notThis notOther kept]
    split
    · rw [Option.map_map]
      rfl
    · rfl
  constructor
  · intro reference member
    have live := (exchange.of_mem_storage coherent member).1
    have both := congrArg Option.isSome (same reference member)
    rw [Option.isSome_map, Option.isSome_map] at both
    unfold Heap.live at live ⊢
    rw [both]
    exact live
  · intro reference member child listed
    have children : heap.links.children reference = _ :=
      congrArg (fun list => list.getD []) (same reference member).symm
    have linked := (coherent.forest.mem_children_iff child reference).mp (children ▸ listed)
    refine ⟨exchange.mem_storage_iff.mpr (stored_of_parent coherent linked ?_), above child reference linked⟩
    exact (exchange.of_mem_storage coherent member).2.2.2.2

/-- The two loops of a move give the new nodes their parent and their owner. -/
theorem nodes_moved (reference : NodeRef) :
    (((heap.emptied this other otherNode replaced storage).updateAll
      (otherNode.children.reverse ++ []) (Node.setParent (some this))).updateAll storage
        (Node.setOwnerDocument (some this))).nodes reference =
      (heap.moved this other thisNode otherNode replaced storage).nodes reference := by
  have outside : reference ∉ storage → (((heap.emptied this other otherNode replaced storage).updateAll
      (otherNode.children.reverse ++ []) (Node.setParent (some this))).updateAll storage
        (Node.setOwnerDocument (some this))).nodes reference =
      (heap.emptied this other otherNode replaced storage).nodes reference := by
    intro unstored
    have unlisted : reference ∉ otherNode.children.reverse ++ [] := by
      rw [List.append_nil, List.mem_reverse]
      exact fun member => unstored (exchange.children_stored coherent member)
    unfold Heap.updateAll
    dsimp only
    rw [if_neg unstored, if_neg unlisted]
  unfold Heap.moved
  dsimp only
  by_cases isThis : reference = this
  · subst isThis
    rw [if_pos rfl, outside fun member => (exchange.of_mem_storage coherent member).2.1 rfl]
    have kept : ¬ replaced.contains reference = true := by
      rw [List.contains_iff_mem]
      exact fun member => (exchange.of_mem_replaced coherent member).1 rfl
    unfold Heap.emptied Heap.update Heap.destroy
    dsimp only
    rw [Function.update_self, if_neg kept, Function.update_of_ne exchange.different,
      exchange.thisFound]
    rfl
  by_cases isOther : reference = other
  · subst isOther
    rw [if_neg isThis, if_pos rfl, outside fun member => (exchange.of_mem_storage coherent member).2.2.1 rfl]
    have kept : ¬ replaced.contains reference = true := by
      rw [List.contains_iff_mem]
      exact fun member => (exchange.of_mem_replaced coherent member).2.1 rfl
    unfold Heap.emptied Heap.update Heap.destroy
    dsimp only
    rw [Function.update_of_ne isThis, if_neg kept, Function.update_self, exchange.otherFound]
    rfl
  rw [if_neg isThis, if_neg isOther]
  by_cases gone : reference ∈ replaced
  · rw [if_pos gone, outside fun member => (exchange.of_mem_storage coherent member).2.2.2.1 gone]
    unfold Heap.emptied Heap.update Heap.destroy
    dsimp only
    rw [Function.update_of_ne isThis, if_pos (List.contains_iff_mem.mpr gone)]
  rw [if_neg gone]
  by_cases member : reference ∈ storage
  · rw [if_pos member]
    unfold Heap.updateAll
    dsimp only
    rw [if_pos member, nodes_emptied isThis isOther gone, List.append_nil]
    by_cases child : reference ∈ otherNode.children
    · rw [if_pos (List.mem_reverse.mpr child), Option.map_map]
      congr 1
      funext node
      simp only [Function.comp_apply, if_pos child]
      rfl
    · rw [if_neg (mt List.mem_reverse.mp child)]
      congr 1
      funext node
      simp only [if_neg child]
      rfl
  · rw [if_neg member, outside member, nodes_emptied isThis isOther gone]

theorem run_takeContents : (takeContents this other).run heap =
    (.ok (), heap.moved this other thisNode otherNode replaced storage) := by
  obtain ⟨rank, above, bounded⟩ := coherent.forest.acyclic.exists_rank (Finset.range heap.nextRef)
    fun node parent child => Finset.mem_range.mpr (coherent.bounded node (Heap.live_of_parent child))
  rw [Finset.card_range] at bounded
  have idempotent : ∀ node : Node, (node.setParent (some this)).setParent (some this) =
      node.setParent (some this) := fun _ => rfl
  have parents := run_forEach_update idempotent otherNode.children []
    (heap.emptied this other otherNode replaced storage)
  rw [Heap.updateAll_nil] at parents
  have owners := run_updateOwners this (exchange.closedBelow coherent above) bounded
  unfold takeContents
  rw [run_bind_of_ok (run_derefDocument exchange.thisFound exchange.thisStores),
    run_bind_of_ok (run_derefDocument exchange.otherFound exchange.otherStores)]
  dsimp only
  rw [run_modify_bind, run_modify_bind, run_modify_bind]
  refine (run_bind_of_ok parents _).trans ?_
  rw [run_read_bind]
  refine owners.trans (Prod.ext rfl ?_)
  have nodes := funext (exchange.nodes_moved coherent)
  unfold Heap.updateAll at nodes ⊢
  dsimp only at nodes ⊢
  rw [nodes]
  rfl

/-! What the new heap says of a reference. -/

omit exchange coherent in
theorem moved_live_iff (reference : NodeRef) :
    (heap.moved this other thisNode otherNode replaced storage).live reference ↔
      reference = this ∨ reference = other ∨ (reference ∉ replaced ∧ heap.live reference) := by
  unfold Heap.live Heap.moved
  dsimp only
  by_cases isThis : reference = this
  · rw [if_pos isThis]
    simp [isThis]
  by_cases isOther : reference = other
  · rw [if_neg isThis, if_pos isOther]
    simp [isOther]
  rw [if_neg isThis, if_neg isOther]
  by_cases gone : reference ∈ replaced
  · simp [isThis, isOther, gone]
  · rw [if_neg gone]
    split
    · simp [isThis, isOther, gone]
    · simp [isThis, isOther, gone]

theorem moved_live {reference : NodeRef} :
    (heap.moved this other thisNode otherNode replaced storage).live reference ↔
      heap.live reference ∧ reference ∉ replaced := by
  rw [moved_live_iff]
  constructor
  · intro either
    rcases either with rfl | rfl | ⟨kept, isLive⟩
    · exact ⟨Heap.live_of_nodes exchange.thisFound,
        fun member => (exchange.of_mem_replaced coherent member).1 rfl⟩
    · exact ⟨Heap.live_of_nodes exchange.otherFound,
        fun member => (exchange.of_mem_replaced coherent member).2.1 rfl⟩
    · exact ⟨isLive, kept⟩
  · exact fun both => .inr (.inr ⟨both.2, both.1⟩)

omit coherent in
theorem moved_payloadIs {test : Payload → Bool}
    (blind : test = Payload.isDocument ∨ test = Payload.isElement) {reference : NodeRef}
    (kept : reference ∉ replaced) :
    (heap.moved this other thisNode otherNode replaced storage).payloadIs test reference =
      heap.payloadIs test reference := by
  have documents : ∀ first second, test (.document first) = test (.document second) := by
    intro first second
    rcases blind with rfl | rfl
    · rfl
    · rfl
  unfold Heap.payloadIs Heap.moved
  dsimp only
  by_cases isThis : reference = this
  · subst isThis
    rw [if_pos rfl, exchange.thisFound, Option.map_some, Option.map_some, exchange.thisStores]
    exact documents _ _
  by_cases isOther : reference = other
  · subst isOther
    rw [if_neg isThis, if_pos rfl, exchange.otherFound, Option.map_some, Option.map_some,
      exchange.otherStores]
    exact documents _ _
  rw [if_neg isThis, if_neg isOther, if_neg kept]
  split
  · rw [Option.map_map]
    rfl
  · rfl

theorem moved_isDocument {reference : NodeRef} :
    (heap.moved this other thisNode otherNode replaced storage).isDocument reference ↔
      heap.isDocument reference := by
  unfold Heap.isDocument
  by_cases gone : reference ∈ replaced
  · have inner := (coherent.stored this reference (exchange.mem_replaced_iff.mp gone)).2.1
    obtain ⟨notThis, notOther, _⟩ := exchange.of_mem_replaced coherent gone
    refine ⟨fun moved => ?_, fun document => absurd document inner⟩
    unfold Heap.payloadIs Heap.moved at moved
    dsimp only at moved
    rw [if_neg notThis, if_neg notOther, if_pos gone] at moved
    cases moved
  · rw [exchange.moved_payloadIs (.inl rfl) gone]

theorem moved_ownerOf {reference : NodeRef} (kept : reference ∉ replaced) :
    (heap.moved this other thisNode otherNode replaced storage).ownerOf reference =
      if reference ∈ storage then some this else heap.ownerOf reference := by
  unfold Heap.ownerOf Heap.moved
  dsimp only
  by_cases isThis : reference = this
  · subst isThis
    rw [if_pos rfl, if_neg fun member => (exchange.of_mem_storage coherent member).2.1 rfl,
      exchange.thisFound]
    rfl
  by_cases isOther : reference = other
  · subst isOther
    rw [if_neg isThis, if_pos rfl,
      if_neg fun member => (exchange.of_mem_storage coherent member).2.2.1 rfl, exchange.otherFound]
    rfl
  rw [if_neg isThis, if_neg isOther, if_neg kept]
  split
  · rename_i member
    obtain ⟨node, found⟩ := Heap.exists_node (exchange.of_mem_storage coherent member).1
    rw [found]
    rfl
  · rfl

theorem moved_parent (reference : NodeRef) :
    (heap.moved this other thisNode otherNode replaced storage).links.parent reference =
      if reference ∈ replaced then none
      else if reference ∈ otherNode.children then some this else heap.links.parent reference := by
  unfold Heap.links Heap.moved
  dsimp only
  by_cases isThis : reference = this
  · subst isThis
    rw [if_pos rfl, if_neg fun member => (exchange.of_mem_replaced coherent member).1 rfl,
      if_neg fun member => (exchange.of_mem_storage coherent (exchange.children_stored coherent member)).2.1 rfl,
      exchange.thisFound]
    rfl
  by_cases isOther : reference = other
  · subst isOther
    rw [if_neg isThis, if_pos rfl,
      if_neg fun member => (exchange.of_mem_replaced coherent member).2.1 rfl,
      if_neg fun member => (exchange.of_mem_storage coherent (exchange.children_stored coherent member)).2.2.1 rfl,
      exchange.otherFound]
    rfl
  rw [if_neg isThis, if_neg isOther]
  by_cases gone : reference ∈ replaced
  · rw [if_pos gone, if_pos gone]
    rfl
  rw [if_neg gone, if_neg gone]
  by_cases child : reference ∈ otherNode.children
  · have member := exchange.children_stored coherent child
    obtain ⟨node, found⟩ := Heap.exists_node (exchange.of_mem_storage coherent member).1
    rw [if_pos member, if_pos child, found]
    exact if_pos child
  · rw [if_neg child]
    split
    · rw [Option.bind_map]
      simp only [Function.comp_def]
    · rfl

omit coherent in
theorem moved_children (reference : NodeRef) :
    (heap.moved this other thisNode otherNode replaced storage).links.children reference =
      if reference = this then heap.links.children other
      else if reference = other ∨ reference ∈ replaced then [] else heap.links.children reference := by
  rw [Heap.links_children_of_nodes exchange.otherFound]
  unfold Heap.links Heap.moved
  dsimp only
  by_cases isThis : reference = this
  · rw [if_pos isThis, if_pos isThis]
    rfl
  by_cases isOther : reference = other
  · rw [if_neg isThis, if_pos isOther, if_neg isThis, if_pos (.inl isOther)]
    rfl
  rw [if_neg isThis, if_neg isOther, if_neg isThis]
  by_cases gone : reference ∈ replaced
  · rw [if_pos gone, if_pos (.inr gone)]
    rfl
  rw [if_neg gone, if_neg (not_or.mpr ⟨isOther, gone⟩)]
  split
  · rw [Option.map_map]
    rfl
  · rfl

omit coherent in
theorem moved_storageOf (reference : NodeRef) :
    (heap.moved this other thisNode otherNode replaced storage).storageOf reference =
      if reference = this then heap.storageOf other
      else if reference = other ∨ reference ∈ replaced then [] else heap.storageOf reference := by
  rw [Heap.storageOf_of_nodes exchange.otherFound, exchange.otherStores]
  unfold Heap.storageOf Heap.moved
  dsimp only
  by_cases isThis : reference = this
  · rw [if_pos isThis, if_pos isThis]
    rfl
  by_cases isOther : reference = other
  · rw [if_neg isThis, if_pos isOther, if_neg isThis, if_pos (.inl isOther)]
    rfl
  rw [if_neg isThis, if_neg isOther, if_neg isThis]
  by_cases gone : reference ∈ replaced
  · rw [if_pos gone, if_pos (.inr gone)]
    rfl
  rw [if_neg gone, if_neg (not_or.mpr ⟨isOther, gone⟩)]
  split
  · rw [Option.map_map]
    rfl
  · rfl

/-- What does not belong to the replaced contents keeps its links. -/
theorem kept_of_parent {reference parent : NodeRef} (child : heap.links.parent reference = some parent)
    (notThis : parent ≠ this) (kept : parent ∉ replaced) : reference ∉ replaced := by
  intro gone
  have owned := (exchange.of_mem_replaced coherent gone).2.2
  rw [coherent.sameOwner reference parent child] at owned
  by_cases document : heap.isDocument parent
  · rw [(coherent.document parent document).1] at owned
    exact notThis (Option.some.inj owned)
  · obtain ⟨owner, owns, _, member⟩ := coherent.owned parent (coherent.live_parent child) document
    rw [owned] at owns
    cases owns
    exact kept (exchange.mem_replaced_iff.mpr member)

theorem moved_forest :
    (heap.moved this other thisNode otherNode replaced storage).links.IsForest := by
  have thisRoot := (coherent.document this exchange.thisDocument).2
  have otherChild : ∀ {reference : NodeRef}, reference ∈ otherNode.children ↔
      heap.links.parent reference = some other := by
    intro reference
    rw [exchange.mem_otherChildren_iff]
    exact coherent.forest.mem_children_iff reference other
  have underThis : ∀ {reference : NodeRef}, heap.links.parent reference = some this →
      reference ∈ replaced := by
    intro reference child
    exact exchange.mem_replaced_iff.mpr
      (stored_of_parent coherent child (coherent.document this exchange.thisDocument).1)
  refine ⟨?_, ?_, ?_⟩
  · intro node parent
    rw [exchange.moved_children, exchange.moved_parent coherent]
    by_cases isThis : parent = this
    · subst isThis
      rw [if_pos rfl, coherent.forest.mem_children_iff, ← otherChild]
      constructor
      · intro child
        rw [if_neg (exchange.of_mem_storage coherent (exchange.children_stored coherent child)).2.2.2.1,
          if_pos child]
      · intro linked
        split at linked
        · cases linked
        split at linked
        · rename_i child
          exact child
        · rename_i kept _
          exact absurd (underThis linked) kept
    rw [if_neg isThis]
    by_cases emptied : parent = other ∨ parent ∈ replaced
    · rw [if_pos emptied]
      refine ⟨fun member => (nomatch member), fun linked => ?_⟩
      split at linked
      · cases linked
      rename_i kept
      split at linked
      · exact absurd (Option.some.inj linked).symm isThis
      rename_i notChild
      cases emptied with
      | inl isOther => exact absurd (otherChild.mpr (isOther ▸ linked)) notChild
      | inr gone =>
          have owned := (exchange.of_mem_replaced coherent gone).2.2
          exact absurd (exchange.mem_replaced_iff.mpr (stored_of_parent coherent linked owned)) kept
    · rw [if_neg emptied, coherent.forest.mem_children_iff]
      obtain ⟨notOther, keptParent⟩ := not_or.mp emptied
      constructor
      · intro linked
        rw [if_neg (exchange.kept_of_parent coherent linked isThis keptParent), if_neg, linked]
        intro child
        rw [otherChild.mp child] at linked
        exact notOther (Option.some.inj linked).symm
      · intro linked
        split at linked
        · cases linked
        split at linked
        · exact absurd (Option.some.inj linked).symm isThis
        · exact linked
  · intro parent
    rw [exchange.moved_children]
    split
    · exact coherent.forest.nodup other
    split
    · exact List.nodup_nil
    · exact coherent.forest.nodup parent
  · refine coherent.forest.acyclic.of_inner fun node parent above first second => ?_
    unfold Links.Child at first second ⊢
    rw [exchange.moved_parent coherent] at first second
    split at first
    · cases first
    split at first
    · have same : parent = this := (Option.some.inj first).symm
      rw [same, thisRoot] at second
      split at second
      · cases second
      split at second
      · rename_i child
        rw [otherChild.mp child] at thisRoot
        cases thisRoot
      · cases second
    · exact first

theorem moved_coherent :
    Coherent (heap.moved this other thisNode otherNode replaced storage) where
  forest := exchange.moved_forest coherent
  bounded reference isLive :=
    coherent.bounded reference ((exchange.moved_live coherent).mp isLive).1
  document reference document := by
    rw [exchange.moved_isDocument coherent] at document
    have unstored : ∀ owner, reference ∉ heap.storageOf owner :=
      fun owner member => (coherent.stored owner reference member).2.1 document
    have kept : reference ∉ replaced := mt exchange.mem_replaced_iff.mp (unstored this)
    have fixed : reference ∉ storage := mt exchange.mem_storage_iff.mp (unstored other)
    obtain ⟨owned, root⟩ := coherent.document reference document
    rw [exchange.moved_ownerOf coherent kept, if_neg fixed, exchange.moved_parent coherent,
      if_neg kept, if_neg fun child => fixed (exchange.children_stored coherent child)]
    exact ⟨owned, root⟩
  owned reference isLive inner := by
    rw [exchange.moved_isDocument coherent] at inner
    obtain ⟨wasLive, kept⟩ := (exchange.moved_live coherent).mp isLive
    obtain ⟨owner, owned, document, member⟩ := coherent.owned reference wasLive inner
    rw [exchange.moved_ownerOf coherent kept]
    by_cases moves : reference ∈ storage
    · refine ⟨this, if_pos moves, (exchange.moved_isDocument coherent).mpr exchange.thisDocument, ?_⟩
      rw [exchange.moved_storageOf, if_pos rfl]
      exact exchange.mem_storage_iff.mp moves
    · refine ⟨owner, (if_neg moves).trans owned, (exchange.moved_isDocument coherent).mpr document, ?_⟩
      have notThis : owner ≠ this := fun same => kept (exchange.mem_replaced_iff.mpr (same ▸ member))
      have notOther : owner ≠ other := fun same => moves (exchange.mem_storage_iff.mpr (same ▸ member))
      have keptOwner : owner ∉ replaced := fun gone =>
        (coherent.stored this owner (exchange.mem_replaced_iff.mp gone)).2.1 document
      rw [exchange.moved_storageOf, if_neg notThis, if_neg (not_or.mpr ⟨notOther, keptOwner⟩)]
      exact member
  stored owner reference member := by
    rw [exchange.moved_storageOf] at member
    rw [exchange.moved_live coherent, exchange.moved_isDocument coherent]
    split at member
    · rename_i isThis
      have moves := exchange.mem_storage_iff.mpr member
      obtain ⟨isLive, inner, _⟩ := coherent.stored other reference member
      have kept := (exchange.of_mem_storage coherent moves).2.2.2.1
      rw [exchange.moved_ownerOf coherent kept, if_pos moves, isThis]
      exact ⟨⟨isLive, kept⟩, inner, rfl⟩
    rename_i notThis
    split at member
    · cases member
    rename_i notOther
    obtain ⟨isLive, inner, owned⟩ := coherent.stored owner reference member
    have kept : reference ∉ replaced := by
      intro gone
      rw [(exchange.of_mem_replaced coherent gone).2.2] at owned
      exact notThis (Option.some.inj owned).symm
    have fixed : reference ∉ storage := by
      intro moves
      rw [(exchange.of_mem_storage coherent moves).2.2.2.2] at owned
      exact notOther (.inl (Option.some.inj owned).symm)
    rw [exchange.moved_ownerOf coherent kept, if_neg fixed]
    exact ⟨⟨isLive, kept⟩, inner, owned⟩
  sameOwner reference parent linked := by
    rw [exchange.moved_parent coherent] at linked
    split at linked
    · cases linked
    rename_i kept
    have thisKept : this ∉ replaced := fun gone => (exchange.of_mem_replaced coherent gone).1 rfl
    have thisFixed : this ∉ storage := fun moves => (exchange.of_mem_storage coherent moves).2.1 rfl
    split at linked
    · rename_i child
      cases linked
      rw [exchange.moved_ownerOf coherent kept, exchange.moved_ownerOf coherent thisKept,
        if_pos (exchange.children_stored coherent child), if_neg thisFixed]
      exact (coherent.document this exchange.thisDocument).1.symm
    rename_i notChild
    have owned := coherent.sameOwner reference parent linked
    have keptParent : parent ∉ replaced := fun gone => kept (exchange.mem_replaced_iff.mpr
      (stored_of_parent coherent linked (exchange.of_mem_replaced coherent gone).2.2))
    have together : reference ∈ storage ↔ parent ∈ storage := by
      constructor
      · intro moves
        have above := (exchange.of_mem_storage coherent moves).2.2.2.2
        rw [owned] at above
        by_cases document : heap.isDocument parent
        · rw [(coherent.document parent document).1] at above
          cases above
          exact absurd (exchange.mem_otherChildren_iff.mpr
            ((coherent.forest.mem_children_iff reference other).mpr linked)) notChild
        · obtain ⟨owner, owns, _, member⟩ := coherent.owned parent (coherent.live_parent linked) document
          rw [above] at owns
          cases owns
          exact exchange.mem_storage_iff.mpr member
      · intro moves
        exact exchange.mem_storage_iff.mpr
          (stored_of_parent coherent linked (exchange.of_mem_storage coherent moves).2.2.2.2)
    rw [exchange.moved_ownerOf coherent kept, exchange.moved_ownerOf coherent keptParent]
    by_cases moves : reference ∈ storage
    · rw [if_pos moves, if_pos (together.mp moves)]
    · rw [if_neg moves, if_neg (mt together.mpr moves)]
      exact owned
  oneElement reference document := by
    rw [exchange.moved_isDocument coherent] at document
    unfold Heap.elementChildren
    rw [exchange.moved_children]
    have elements : ∀ parent, (∀ child, heap.links.parent child = some parent → child ∉ replaced) →
        (heap.links.children parent).filter (fun child =>
          (heap.moved this other thisNode otherNode replaced storage).payloadIs Payload.isElement child) =
        heap.elementChildren parent := by
      intro parent kept
      refine List.filter_congr fun child member => ?_
      rw [exchange.moved_payloadIs (.inr rfl)
        (kept child ((coherent.forest.mem_children_iff child parent).mp member))]
    split
    · rw [elements other fun child linked => ?_]
      · exact coherent.oneElement other exchange.otherDocument
      · have moves := exchange.children_stored coherent (exchange.mem_otherChildren_iff.mpr
          ((coherent.forest.mem_children_iff child other).mpr linked))
        exact (exchange.of_mem_storage coherent moves).2.2.2.1
    rename_i notThis
    split
    · exact Nat.zero_le 1
    rename_i kept
    rw [elements reference fun child linked =>
      exchange.kept_of_parent coherent linked notThis (not_or.mp kept).2]
    exact coherent.oneElement reference document

end Exchange

theorem triple_takeContents {this other : NodeRef} (different : this ≠ other) :
    Triple Coherent (takeContents this other) (fun _ => Coherent) Kept := by
  intro heap coherent
  have halts : ∀ {reference : NodeRef}, (∀ node storage, heap.nodes reference = some node →
      node.payload ≠ .document storage) →
      (derefDocument reference).run heap = (.error .undefinedBehavior, heap) := by
    intro reference none
    unfold derefDocument deref
    cases found : heap.nodes reference with
    | none =>
        rw [run_bind, run_read_bind, found]
        rfl
    | some node =>
        rw [run_bind, run_read_bind, found]
        dsimp only [run_pure]
        cases payload : node.payload with
        | document storage => exact absurd payload (none node storage found)
        | _ => rfl
  have failed : (takeContents this other).run heap = (.error .undefinedBehavior, heap) →
      (∀ value final, (takeContents this other).run heap = (.ok value, final) → Coherent final) ∧
        ∀ error final, (takeContents this other).run heap = (.error error, final) → Kept error final := by
    intro ran
    rw [ran]
    exact ⟨nofun, fun error final same => by cases same; exact ⟨coherent, nofun⟩⟩
  by_cases thisDocument : ∃ node storage, heap.nodes this = some node ∧ node.payload = .document storage
  · obtain ⟨thisNode, replaced, thisFound, thisStores⟩ := thisDocument
    by_cases otherDocument : ∃ node storage, heap.nodes other = some node ∧ node.payload = .document storage
    · obtain ⟨otherNode, storage, otherFound, otherStores⟩ := otherDocument
      have exchange : Exchange heap this other thisNode otherNode replaced storage :=
        ⟨different, thisFound, thisStores, otherFound, otherStores⟩
      rw [exchange.run_takeContents coherent]
      refine ⟨fun value final same => ?_, nofun⟩
      cases same
      exact exchange.moved_coherent coherent
    · apply failed
      unfold takeContents
      rw [run_bind_of_ok (run_derefDocument thisFound thisStores)]
      exact run_bind_of_error (halts fun node storage found stores =>
        otherDocument ⟨node, storage, found, stores⟩) _
  · apply failed
    exact run_bind_of_error (halts fun node storage found stores =>
      thisDocument ⟨node, storage, found, stores⟩) _

theorem triple_moveAssign (this other : NodeRef) :
    Triple Coherent (moveAssign this other) (fun _ => Coherent) Kept := by
  refine triple_ite (fun _ => triple_pure fun _ coherent => coherent) fun different => ?_
  exact triple_takeContents (mt beq_iff_eq.mpr different)

theorem triple_moveConstruct (other : NodeRef) :
    Triple Coherent (moveConstruct other) (fun _ => Coherent) Kept := by
  refine triple_bind (triple_derefDocument other) fun document => ?_
  intro heap here
  obtain ⟨coherent, found, _⟩ := here
  have different : heap.nextRef ≠ other :=
    fun same => Nat.lt_irrefl _ (same ▸ coherent.bounded other (Heap.live_of_nodes found))
  exact triple_bind (triple_takeContents different) (fun _ => triple_pure fun _ coherent => coherent)
    _ coherent.newDocument

/-! ## Runs -/

theorem triple_perform (operation : Operation) :
    Triple Coherent operation.perform (fun _ => Coherent) Kept := by
  have forget : ∀ {α : Type} {source : DomM α}, Triple Coherent source (fun _ => Coherent) Kept →
      Triple Coherent (source >>= fun _ => pure ()) (fun _ => Coherent) Kept :=
    fun triple => triple_bind triple fun _ => triple_pure fun _ coherent => coherent
  cases operation with
  | newDocument => exact forget triple_newDocument
  | createElement this qualifiedName namespaceUri localName => exact forget (triple_makeNode this rfl)
  | createText this text => exact forget (triple_makeNode this rfl)
  | createComment this text => exact forget (triple_makeNode this rfl)
  | createProcessingInstruction this target data => exact forget (triple_makeNode this rfl)
  | createCdataSection this text => exact forget (triple_makeNode this rfl)
  | appendChild this child => exact triple_appendChild this child
  | removeChild this child => exact triple_removeChild this child
  | setText this text => exact triple_setText this text
  | setAttribute this name value => exact triple_setAttributeNs this [] name name value
  | setAttributeNs this namespaceUri localName qualifiedName value =>
      exact triple_setAttributeNs this namespaceUri localName qualifiedName value
  | moveConstruct other => exact forget (triple_moveConstruct other)
  | moveAssign this other => exact triple_moveAssign this other

theorem coherent_empty : Coherent {} where
  forest := ⟨fun _ _ => ⟨nofun, nofun⟩, fun _ => List.nodup_nil, fun node cycle => by
    obtain ⟨next, first, _⟩ := Relation.TransGen.head'_iff.mp cycle
    cases first⟩
  bounded _ isLive := nomatch isLive
  document _ document := nomatch document
  owned _ isLive := nomatch isLive
  stored _ _ member := nomatch member
  sameOwner _ _ child := nomatch child
  oneElement _ document := nomatch document

theorem coherent_after {heap : Heap} (coherent : Coherent heap) (operation : Operation) :
    Coherent (operation.after heap) := by
  obtain ⟨returns, throws⟩ := triple_perform operation heap coherent
  unfold Operation.after
  cases ran : operation.perform.run heap with
  | mk outcome final =>
      cases outcome with
      | ok value => exact returns value final ran
      | error halt => exact (throws halt final ran).1

theorem coherent_foldl {heap : Heap} (coherent : Coherent heap) (operations : List Operation) :
    Coherent (operations.foldl Operation.after heap) := by
  induction operations generalizing heap with
  | nil => exact coherent
  | cons operation rest ih => exact ih (coherent_after coherent operation)

/-- After any calls, of which any may throw, the heap is coherent, and every
further call comes to an end. -/
theorem reached_coherent (operations : List Operation) :
    Coherent (reached operations) ∧
      ∀ operation : Operation, (operation.perform.run (reached operations)).1 ≠ .error .outOfFuel := by
  have coherent := coherent_foldl coherent_empty operations
  refine ⟨coherent, fun operation exhausted => ?_⟩
  exact ((triple_perform operation _ coherent).2 _ _ (Prod.ext exhausted rfl)).2 rfl

end XmlParser.Dom
