import XmlParser.Serializer

/-! The tree below a document, on every run of the client, and its nodes in
document order. -/

set_option autoImplicit false

namespace XmlParser.Dom

open XmlParser.Computation Comp Forest

/-! ## Trees of coherent heaps -/

theorem Coherent.exists_shows {heap : Heap} (coherent : Coherent heap) (refs : List NodeRef)
    (live : ∀ reference ∈ refs, heap.live reference) : ∃ nodes, Shows heap refs nodes := by
  obtain ⟨rank, above, bounded⟩ := coherent.forest.acyclic.exists_rank (Finset.range heap.nextRef)
    fun node parent child => Finset.mem_range.mpr (coherent.bounded node (Heap.live_of_parent child))
  -- The induction is on a bound for the ranks of the references, and on their list inside.
  have shown : ∀ (bound : Nat) (refs : List NodeRef),
      (∀ reference ∈ refs, heap.live reference ∧ rank reference < bound) →
      ∃ nodes, Shows heap refs nodes := by
    intro bound
    induction bound with
    | zero =>
        intro refs low
        cases refs with
        | nil => exact ⟨.nil, .nil⟩
        | cons reference refs => exact absurd (low reference List.mem_cons_self).2 (Nat.not_lt_zero _)
    | succ bound ih =>
        intro refs low
        induction refs with
        | nil => exact ⟨.nil, .nil⟩
        | cons reference refs ihRefs =>
            obtain ⟨⟨isLive, small⟩, others⟩ := List.forall_mem_cons.mp low
            obtain ⟨node, found⟩ := Heap.exists_node isLive
            have children : ∀ child ∈ node.children, heap.live child ∧ rank child < bound := by
              intro child member
              rw [← Heap.links_children_of_nodes found, coherent.forest.mem_children_iff] at member
              have lower := above child reference member
              exact ⟨Heap.live_of_parent member, by omega⟩
            obtain ⟨below, inside⟩ := ih node.children children
            obtain ⟨rest, after⟩ := ihRefs others
            exact ⟨_, .cons (Heap.content_of_nodes found) inside after⟩
  refine shown (heap.nextRef + 1) refs fun reference member => ⟨live reference member, ?_⟩
  have low := bounded reference
  rw [Finset.card_range] at low
  omega

theorem Heap.children_of_content {heap : Heap} {reference : NodeRef} {children : List NodeRef}
    {payload : Payload} (found : heap.content reference = some (children, payload)) :
    heap.links.children reference = children := by
  obtain ⟨node, isNode, same⟩ := Option.map_eq_some_iff.mp found
  obtain ⟨rfl, rfl⟩ := Prod.mk.inj same
  exact Heap.links_children_of_nodes isNode

namespace Shows

variable {heap : Heap} {refs : List NodeRef} {nodes : Nodes}

theorem live (shows : Shows heap refs nodes) : ∀ reference ∈ nodes.references, heap.live reference := by
  induction shows with
  | nil => exact List.forall_mem_nil _
  | cons found _ _ ihInside ihAfter =>
      obtain ⟨node, isNode, _⟩ := Option.map_eq_some_iff.mp found
      intro reference member
      rcases List.mem_cons.mp member with rfl | member
      · exact Heap.live_of_nodes isNode
      rcases List.mem_append.mp member with inside | after
      · exact ihInside reference inside
      · exact ihAfter reference after

/-- The tree has the references listed and everything attached below them. -/
theorem mem_references_iff (forest : heap.links.IsForest) (shows : Shows heap refs nodes)
    (node : NodeRef) :
    node ∈ nodes.references ↔ ∃ reference ∈ refs, Relation.ReflTransGen heap.links.Child node reference := by
  induction shows with
  | nil => simp [Nodes.references]
  | @cons reference children refs payload below rest found inside after ihInside ihAfter =>
      have listed := Heap.children_of_content found
      have here : node = reference ∨ node ∈ below.references ↔
          Relation.ReflTransGen heap.links.Child node reference := by
        rw [ihInside, Relation.ReflTransGen.cases_tail_iff, ← listed]
        constructor
        · intro either
          rcases either with same | ⟨child, member, path⟩
          · exact .inl same.symm
          · exact .inr ⟨child, path, (forest.mem_children_iff child reference).mp member⟩
        · intro either
          rcases either with same | ⟨child, path, isChild⟩
          · exact .inl same.symm
          · exact .inr ⟨child, (forest.mem_children_iff child reference).mpr isChild, path⟩
      unfold Nodes.references
      rw [List.mem_cons, List.mem_append, ihAfter, ← or_assoc, here]
      simp

/-- Nothing is attached in two places. -/
theorem nodup_references (forest : heap.links.IsForest) (shows : Shows heap refs nodes)
    {parent : NodeRef} (distinct : refs.Nodup)
    (siblings : ∀ reference ∈ refs, heap.links.parent reference = some parent) :
    nodes.references.Nodup := by
  induction shows generalizing parent with
  | nil => exact List.nodup_nil
  | @cons reference children refs payload below rest found inside after ihInside ihAfter =>
      have listed := Heap.children_of_content found
      obtain ⟨unlisted, distinctRest⟩ := List.nodup_cons.mp distinct
      obtain ⟨first, siblingsRest⟩ := List.forall_mem_cons.mp siblings
      have isChild : ∀ child ∈ children, heap.links.parent child = some reference := by
        intro child member
        rw [← listed] at member
        exact (forest.mem_children_iff child reference).mp member
      have nodupChildren : children.Nodup := by
        rw [← listed]
        exact forest.nodup reference
      have distinctBelow := ihInside nodupChildren isChild
      have distinctAfter := ihAfter distinctRest siblingsRest
      have path : ∀ node ∈ below.references, Relation.TransGen heap.links.Child node reference := by
        intro node member
        obtain ⟨child, listedChild, path⟩ := (inside.mem_references_iff forest node).mp member
        exact Relation.TransGen.tail' path (isChild child listedChild)
      have outside : ∀ node, Relation.ReflTransGen heap.links.Child node reference →
          node ∉ rest.references := by
        intro node above member
        obtain ⟨sibling, listedSibling, other⟩ := (after.mem_references_iff forest node).mp member
        have different : reference ≠ sibling := fun same => unlisted (same ▸ listedSibling)
        exact forest.siblings_disjoint first (siblingsRest sibling listedSibling) different above other
      refine List.nodup_cons.mpr ⟨?_, List.Nodup.append distinctBelow distinctAfter ?_⟩
      · rw [List.mem_append]
        intro member
        rcases member with inBelow | inRest
        · exact forest.acyclic reference (path reference inBelow)
        · exact outside reference .refl inRest
      · intro node inBelow inRest
        exact outside node (path node inBelow).to_reflTransGen inRest

theorem run_collectDepthFirst (shows : Shows heap refs nodes) {fuel : Nat} (high : nodes.height ≤ fuel) :
    (collectEach (fun child => do
      let below ← collectDepthFirst fuel child
      pure (child :: below)) refs).run heap = (.ok nodes.references, heap) := by
  induction shows generalizing fuel with
  | nil => rfl
  | @cons reference children refs payload below rest found inside after ihInside ihAfter =>
      obtain ⟨inner, outer⟩ := Nat.max_le.mp high
      cases fuel with
      | zero => cases inner
      | succ fuel =>
          obtain ⟨node, isNode, same⟩ := Option.map_eq_some_iff.mp found
          obtain ⟨rfl, rfl⟩ := Prod.mk.inj same
          have first : (collectDepthFirst (fuel + 1) reference >>= fun below =>
              pure (reference :: below) : DomM (List NodeRef)).run heap =
              (.ok (reference :: below.references), heap) := by
            unfold collectDepthFirst
            rw [bind_assoc, run_bind_of_ok (run_deref isNode),
              run_bind_of_ok (ihInside (Nat.le_of_succ_le_succ inner))]
            rfl
          unfold collectEach
          rw [run_bind_of_ok first, run_bind_of_ok (ihAfter outer)]
          rfl

end Shows

/-- The tree below a document. -/
structure ShowsDocument (heap : Heap) (document : NodeRef) (nodes : Nodes) : Prop where
  shows : Shows heap (heap.links.children document) nodes
  nodup : nodes.references.Nodup
  low : nodes.references.length ≤ heap.nextRef
  mem_iff : ∀ node, node ∈ nodes.references ↔ Relation.TransGen heap.links.Child node document

theorem Coherent.exists_showsDocument {heap : Heap} (coherent : Coherent heap) (document : NodeRef) :
    ∃ nodes, ShowsDocument heap document nodes := by
  have siblings : ∀ child ∈ heap.links.children document, heap.links.parent child = some document :=
    fun child => (coherent.forest.mem_children_iff child document).mp
  obtain ⟨nodes, shows⟩ := coherent.exists_shows (heap.links.children document)
    fun child member => Heap.live_of_parent (siblings child member)
  have nodup := shows.nodup_references coherent.forest (coherent.forest.nodup document) siblings
  refine ⟨nodes, shows, nodup, ?_, ?_⟩
  · exact length_le_of_nodup nodup fun node member => coherent.bounded node (shows.live node member)
  · intro node
    rw [shows.mem_references_iff coherent.forest]
    constructor
    · intro found
      obtain ⟨child, member, path⟩ := found
      exact Relation.TransGen.tail' path (siblings child member)
    · intro path
      obtain ⟨child, before, isChild⟩ := Relation.TransGen.tail'_iff.mp path
      exact ⟨child, (coherent.forest.mem_children_iff child document).mpr isChild, before⟩

/-- `depth_first` lists the nodes of the tree. -/
theorem ShowsDocument.run_depthFirst {heap : Heap} {document : NodeRef} {nodes : Nodes}
    (shown : ShowsDocument heap document nodes) (isLive : heap.live document) :
    (depthFirst document).run heap = (.ok nodes.references, heap) := by
  obtain ⟨node, found⟩ := Heap.exists_node isLive
  have shows := shown.shows
  rw [Heap.links_children_of_nodes found] at shows
  unfold depthFirst
  rw [run_read_bind]
  unfold collectDepthFirst
  rw [run_bind_of_ok (run_deref found)]
  exact shows.run_collectDepthFirst (nodes.height_le.trans shown.low)

end XmlParser.Dom
