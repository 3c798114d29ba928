import XmlParser.AtomicMutation
import XmlParser.DocumentOrder

/-! The siblings of a node, and the order in which `depth_first` lists a tree. -/

set_option autoImplicit false

namespace XmlParser.Dom

open XmlParser.Computation Comp Forest

/-! ## Siblings -/

def previousSibling (this : NodeRef) : DomM (Option NodeRef) := do
  match (← deref this).parent with
  | none => pure none
  | some parent =>
      let siblings := (← deref parent).children
      let found := siblings.idxOf this
      if found == 0 || found == siblings.length then
        pure none
      else
        pure siblings[found - 1]?

def nextSibling (this : NodeRef) : DomM (Option NodeRef) := do
  match (← deref this).parent with
  | none => pure none
  | some parent =>
      let siblings := (← deref parent).children
      let found := siblings.idxOf this
      if found == siblings.length || found + 1 == siblings.length then
        pure none
      else
        pure siblings[found + 1]?

/-- `while (cursor != nullptr) { …; cursor = cursor->next_sibling(); }` of a client. -/
def siblingsFrom : Nat → Option NodeRef → DomM (List NodeRef)
  | _, none => pure []
  | 0, some _ => Comp.throw .outOfFuel
  | fuel + 1, some cursor => do
      let rest ← siblingsFrom fuel (← nextSibling cursor)
      pure (cursor :: rest)

/-- From the first child on. -/
def walkChildren (fuel : Nat) (this : NodeRef) : DomM (List NodeRef) := do
  siblingsFrom fuel (← deref this).children.head?

section Siblings

variable {heap : Heap} (coherent : Coherent heap) {this parent : NodeRef}

theorem idxOf_of_split {siblings before rest : List NodeRef} (distinct : siblings.Nodup)
    (split : siblings = before ++ this :: rest) : siblings.idxOf this = before.length := by
  subst split
  have unlisted : this ∉ before := by
    intro listed
    exact (List.nodup_append.mp distinct).2.2 this listed this List.mem_cons_self rfl
  rw [List.idxOf_append_of_notMem unlisted, List.idxOf_cons_self, Nat.add_zero]

theorem run_nextSibling_root (isLive : heap.live this) (root : heap.links.parent this = none) :
    (nextSibling this).run heap = (.ok none, heap) := by
  obtain ⟨node, found⟩ := Heap.exists_node isLive
  rw [Heap.links_parent_of_nodes found] at root
  unfold nextSibling
  rw [run_bind_of_ok (run_deref found), root]
  rfl

theorem run_previousSibling_root (isLive : heap.live this) (root : heap.links.parent this = none) :
    (previousSibling this).run heap = (.ok none, heap) := by
  obtain ⟨node, found⟩ := Heap.exists_node isLive
  rw [Heap.links_parent_of_nodes found] at root
  unfold previousSibling
  rw [run_bind_of_ok (run_deref found), root]
  rfl

include coherent

/-- `next_sibling` goes to what follows in the children of the parent. -/
theorem run_nextSibling {before rest : List NodeRef} (linked : heap.links.parent this = some parent)
    (split : heap.links.children parent = before ++ this :: rest) :
    (nextSibling this).run heap = (.ok rest.head?, heap) := by
  obtain ⟨node, found⟩ := Heap.exists_node (Heap.live_of_parent linked)
  obtain ⟨parentNode, parentFound⟩ := Heap.exists_node (coherent.live_parent linked)
  have place := idxOf_of_split (coherent.forest.nodup parent) split
  rw [Heap.links_parent_of_nodes found] at linked
  rw [Heap.links_children_of_nodes parentFound] at place split
  unfold nextSibling
  rw [run_bind_of_ok (run_deref found), linked]
  dsimp only
  rw [run_bind_of_ok (run_deref parentFound), place, split]
  cases rest with
  | nil => simp
  | cons next rest => simp

theorem run_previousSibling {before rest : List NodeRef} (linked : heap.links.parent this = some parent)
    (split : heap.links.children parent = before ++ this :: rest) :
    (previousSibling this).run heap = (.ok before.getLast?, heap) := by
  obtain ⟨node, found⟩ := Heap.exists_node (Heap.live_of_parent linked)
  obtain ⟨parentNode, parentFound⟩ := Heap.exists_node (coherent.live_parent linked)
  have place := idxOf_of_split (coherent.forest.nodup parent) split
  rw [Heap.links_parent_of_nodes found] at linked
  rw [Heap.links_children_of_nodes parentFound] at place split
  unfold previousSibling
  rw [run_bind_of_ok (run_deref found), linked]
  dsimp only
  rw [run_bind_of_ok (run_deref parentFound), place, split]
  cases before using List.reverseRecOn with
  | nil => simp
  | append_singleton before previous => simp

theorem Coherent.split_of_parent (linked : heap.links.parent this = some parent) :
    ∃ before rest, heap.links.children parent = before ++ this :: rest :=
  List.append_of_mem ((coherent.forest.mem_children_iff this parent).mpr linked)

theorem exists_run_nextSibling (isLive : heap.live this) :
    ∃ answer, (nextSibling this).run heap = (.ok answer, heap) := by
  cases linked : heap.links.parent this with
  | none => exact ⟨none, run_nextSibling_root isLive linked⟩
  | some parent =>
      obtain ⟨before, rest, split⟩ := coherent.split_of_parent linked
      exact ⟨rest.head?, run_nextSibling coherent linked split⟩

theorem exists_run_previousSibling (isLive : heap.live this) :
    ∃ answer, (previousSibling this).run heap = (.ok answer, heap) := by
  cases linked : heap.links.parent this with
  | none => exact ⟨none, run_previousSibling_root isLive linked⟩
  | some parent =>
      obtain ⟨before, rest, split⟩ := coherent.split_of_parent linked
      exact ⟨before.getLast?, run_previousSibling coherent linked split⟩

theorem run_nextSibling_eq_some_iff (isLive : heap.live this) (other : NodeRef) :
    (nextSibling this).run heap = (.ok (some other), heap) ↔
      ∃ parent before rest, heap.links.children parent = before ++ this :: other :: rest := by
  constructor
  · intro ran
    cases linked : heap.links.parent this with
    | none => cases (run_nextSibling_root isLive linked).symm.trans ran
    | some parent =>
        obtain ⟨before, rest, split⟩ := coherent.split_of_parent linked
        have same := (run_nextSibling coherent linked split).symm.trans ran
        cases rest with
        | nil => cases same
        | cons next rest =>
            cases same
            exact ⟨parent, before, rest, split⟩
  · rintro ⟨parent, before, rest, split⟩
    have linked : heap.links.parent this = some parent := by
      apply (coherent.forest.mem_children_iff this parent).mp
      simp [split]
    exact run_nextSibling coherent linked split

theorem run_previousSibling_eq_some_iff (isLive : heap.live this) (other : NodeRef) :
    (previousSibling this).run heap = (.ok (some other), heap) ↔
      ∃ parent before rest, heap.links.children parent = before ++ other :: this :: rest := by
  constructor
  · intro ran
    cases linked : heap.links.parent this with
    | none => cases (run_previousSibling_root isLive linked).symm.trans ran
    | some parent =>
        obtain ⟨before, rest, split⟩ := coherent.split_of_parent linked
        have same := (run_previousSibling coherent linked split).symm.trans ran
        cases before using List.reverseRecOn with
        | nil => cases same
        | append_singleton before previous =>
            rw [List.getLast?_concat] at same
            cases same
            exact ⟨parent, before, rest, by simpa using split⟩
  · rintro ⟨parent, before, rest, split⟩
    have linked : heap.links.parent this = some parent := by
      apply (coherent.forest.mem_children_iff this parent).mp
      simp [split]
    have ran := run_previousSibling coherent linked (by simpa using split : _ = (before ++ [other]) ++ this :: rest)
    rwa [List.getLast?_concat] at ran

/-- The walk from a child on lists what is left of the children. -/
theorem run_siblingsFrom {before rest : List NodeRef} {fuel : Nat} (high : rest.length ≤ fuel)
    (split : heap.links.children parent = before ++ rest) :
    (siblingsFrom fuel rest.head?).run heap = (.ok rest, heap) := by
  induction rest generalizing before fuel with
  | nil => cases fuel <;> rfl
  | cons child rest ih =>
      cases fuel with
      | zero => cases high
      | succ fuel =>
          have linked : heap.links.parent child = some parent := by
            apply (coherent.forest.mem_children_iff child parent).mp
            simp [split]
          have after := ih (Nat.le_of_succ_le_succ high) (by simpa using split : _ = (before ++ [child]) ++ rest)
          rw [List.head?_cons]
          unfold siblingsFrom
          rw [run_bind_of_ok (run_nextSibling coherent linked split), run_bind_of_ok after]
          rfl

theorem run_walkChildren (isLive : heap.live this) {fuel : Nat}
    (high : (heap.links.children this).length ≤ fuel) :
    (walkChildren fuel this).run heap = (.ok (heap.links.children this), heap) := by
  obtain ⟨node, found⟩ := Heap.exists_node isLive
  have walked := run_siblingsFrom coherent high (List.nil_append (heap.links.children this)).symm
  unfold walkChildren
  rw [run_bind_of_ok (run_deref found), ← Heap.links_children_of_nodes found]
  exact walked

end Siblings

/-! ## Document order -/

/-- One element stands in front of another one. -/
def Precedes {α : Type} (listed : List α) (first second : α) : Prop := [first, second].Sublist listed

section Precedes

variable {α : Type} {one other : List α} {first second : α}

theorem precedes_cons (member : second ∈ one) : Precedes (first :: one) first second :=
  (List.singleton_sublist.mpr member).cons_cons first

theorem precedes_append (left : first ∈ one) (right : second ∈ other) : Precedes (one ++ other) first second :=
  (List.singleton_sublist.mpr left).append (List.singleton_sublist.mpr right)

theorem Precedes.mono (order : Precedes one first second) (within : one.Sublist other) :
    Precedes other first second :=
  List.Sublist.trans order within

end Precedes

namespace Shows

variable {heap : Heap} {refs : List NodeRef} {nodes : Nodes} (forest : heap.links.IsForest)

include forest

/-- Everything at or below a reference stands in front of the references listed behind it. -/
theorem precedes_of_listed (shows : Shows heap refs nodes) {earlier later node : NodeRef}
    (order : Precedes refs earlier later) (path : Relation.ReflTransGen heap.links.Child node earlier) :
    Precedes nodes.references node later := by
  induction shows with
  | nil => cases order
  | @cons reference children refs payload below rest found inside after ihInside ihAfter =>
      cases order with
      | cons _ order =>
          apply (ihAfter order).mono
          simp [Nodes.references]
      | cons_cons _ single =>
          have behind : later ∈ rest.references :=
            (after.mem_references_iff forest later).mpr ⟨later, List.singleton_sublist.mp single, .refl⟩
          have tree : Shows heap [earlier] (.cons earlier payload below .nil) := .cons found inside .nil
          have inTree := (tree.mem_references_iff forest node).mpr ⟨earlier, List.mem_singleton_self earlier, path⟩
          simp only [Nodes.references, List.append_nil] at inTree
          exact precedes_append inTree behind

theorem precedes_of_parent (shows : Shows heap refs nodes) {node parent : NodeRef}
    (listed : parent ∈ nodes.references) (linked : heap.links.parent node = some parent) :
    Precedes nodes.references parent node := by
  induction shows with
  | nil => cases listed
  | @cons reference children refs payload below rest found inside after ihInside ihAfter =>
      have isChild := (forest.mem_children_iff node parent).mpr linked
      simp only [Nodes.references, List.mem_cons, List.mem_append] at listed
      rcases listed with rfl | inBelow | inRest
      · rw [Heap.children_of_content found] at isChild
        have inTree := (inside.mem_references_iff forest node).mpr ⟨node, isChild, .refl⟩
        exact precedes_cons (List.mem_append_left _ inTree)
      · apply (ihInside inBelow).mono
        simp [Nodes.references]
      · apply (ihAfter inRest).mono
        simp [Nodes.references]

/-- The same for the children of the nodes of the tree. -/
theorem precedes_of_siblings (shows : Shows heap refs nodes) {parent earlier later node : NodeRef}
    (listed : parent ∈ nodes.references) (order : Precedes (heap.links.children parent) earlier later)
    (path : Relation.ReflTransGen heap.links.Child node earlier) : Precedes nodes.references node later := by
  induction shows with
  | nil => cases listed
  | @cons reference children refs payload below rest found inside after ihInside ihAfter =>
      simp only [Nodes.references, List.mem_cons, List.mem_append] at listed
      rcases listed with rfl | inBelow | inRest
      · rw [Heap.children_of_content found] at order
        apply (inside.precedes_of_listed forest order path).mono
        simp [Nodes.references]
      · apply (ihInside inBelow).mono
        simp [Nodes.references]
      · apply (ihAfter inRest).mono
        simp [Nodes.references]

end Shows

/-- What a traversal in document order lists. -/
structure ListsTree (heap : Heap) (document : NodeRef) (listed : List NodeRef) : Prop where
  nodup : listed.Nodup
  mem_iff : ∀ node, node ∈ listed ↔ Relation.TransGen heap.links.Child node document
  parentFirst : ∀ node ∈ listed, ∀ parent, heap.links.parent node = some parent →
    parent = document ∨ Precedes listed parent node
  siblingsFirst : ∀ later ∈ listed, ∀ parent earlier, heap.links.parent later = some parent →
    Precedes (heap.links.children parent) earlier later →
    ∀ node, Relation.ReflTransGen heap.links.Child node earlier → Precedes listed node later

theorem ShowsDocument.listsTree {heap : Heap} {document : NodeRef} {nodes : Nodes}
    (shown : ShowsDocument heap document nodes) (forest : heap.links.IsForest) :
    ListsTree heap document nodes.references := by
  -- The parent of a listed node is the document or a listed node.
  have parents : ∀ node ∈ nodes.references, ∀ parent, heap.links.parent node = some parent →
      parent = document ∨ parent ∈ nodes.references := by
    intro node member parent linked
    have below := (shown.mem_iff node).mp member
    obtain ⟨above, edge, path⟩ := Relation.TransGen.head'_iff.mp below
    have same : above = parent := Option.some.inj (edge.symm.trans linked)
    subst same
    rcases Relation.reflTransGen_iff_eq_or_transGen.mp path with rfl | path
    · exact .inl rfl
    · exact .inr ((shown.mem_iff above).mpr path)
  constructor
  · exact shown.nodup
  · exact shown.mem_iff
  · intro node member parent linked
    rcases parents node member parent linked with isDocument | listed
    · exact .inl isDocument
    · exact .inr (shown.shows.precedes_of_parent forest listed linked)
  · intro later member parent earlier linked order node path
    rcases parents later member parent linked with rfl | listed
    · exact shown.shows.precedes_of_listed forest order path
    · exact shown.shows.precedes_of_siblings forest listed order path

/-- The traversals of a state follow its links. -/
structure TraversalsAgree (heap : Heap) : Prop where
  documentOrder : ∀ document, heap.isDocument document →
    ∃ listed, (depthFirst document).run heap = (.ok listed, heap) ∧ ListsTree heap document listed
  returned : ∀ node, heap.live node →
    (∃ answer, (nextSibling node).run heap = (.ok answer, heap)) ∧
      ∃ answer, (previousSibling node).run heap = (.ok answer, heap)
  siblings : ∀ node other, heap.live node → heap.live other →
    ((nextSibling node).run heap = (.ok (some other), heap) ↔
      (previousSibling other).run heap = (.ok (some node), heap))
  children : ∀ node, heap.live node → ∀ fuel, (heap.links.children node).length ≤ fuel →
    (walkChildren fuel node).run heap = (.ok (heap.links.children node), heap)

theorem Coherent.traversalsAgree {heap : Heap} (coherent : Coherent heap) : TraversalsAgree heap := by
  constructor
  · intro document isDocument
    obtain ⟨nodes, shown⟩ := coherent.exists_showsDocument document
    exact ⟨nodes.references, shown.run_depthFirst (Heap.live_of_isDocument isDocument),
      shown.listsTree coherent.forest⟩
  · intro node isLive
    exact ⟨exists_run_nextSibling coherent isLive, exists_run_previousSibling coherent isLive⟩
  · intro node other nodeLive otherLive
    rw [run_nextSibling_eq_some_iff coherent nodeLive, run_previousSibling_eq_some_iff coherent otherLive]
  · intro node isLive fuel high
    exact run_walkChildren coherent isLive high

/-- In every reachable state. -/
theorem traversals_agree {heap : Heap} (reachable : Reachable heap) : TraversalsAgree heap :=
  reachable.coherent.traversalsAgree

/-- A child is moved behind its sibling. -/
theorem traversals_agree_sample :
    TraversalsAgree (reached [.newDocument, .createElement 0 (ascii "a") [] [], .createText 0 (ascii "b"),
      .createText 0 (ascii "c"), .appendChild 0 1, .appendChild 1 2, .appendChild 1 3, .appendChild 1 2]) :=
  traversals_agree (reachable_reached _)

end XmlParser.Dom
