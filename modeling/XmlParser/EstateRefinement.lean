import XmlParser.AtomicMutation
import XmlParser.Estates

/-! The heap of nodes does what the trees of the estates do, on every run of the
client: every call ends alike, and what is seen of a document is its tree. -/

set_option autoImplicit false

namespace XmlParser.Dom

open XmlParser.Computation Comp Forest

/-! ## Trees in a heap that changes -/

@[simp] theorem Payload.isDocument_visible (payload : Payload) :
    payload.visible.isDocument = payload.isDocument := by
  cases payload <;> rfl

@[simp] theorem Payload.isElement_visible (payload : Payload) :
    payload.visible.isElement = payload.isElement := by
  cases payload <;> rfl

theorem Relinks.content {before after : Heap} (relinks : Relinks before after) (reference : NodeRef) :
    after.content reference =
      (before.content reference).map fun content => (after.links.children reference, content.2) := by
  have same := relinks.nodes reference
  unfold Heap.content
  cases found : after.nodes reference with
  | none =>
      rw [found] at same
      rw [Option.map_eq_none_iff.mp same.symm]
      rfl
  | some node =>
      rw [found] at same
      obtain ⟨old, isOld, pair⟩ := Option.map_eq_some_iff.mp same.symm
      rw [isOld, Heap.links_children_of_nodes found, Option.map_some, Option.map_some, Option.map_some,
        (Prod.mk.inj pair).2]

namespace Shows

variable {heap after : Heap} {refs : List NodeRef} {nodes : Nodes}

theorem tops_eq (shows : Shows heap refs nodes) : nodes.tops = refs := by
  induction shows with
  | nil => rfl
  | cons _ _ _ _ ih => rw [Nodes.tops, ih]

theorem elements_eq (shows : Shows heap refs nodes) :
    nodes.elements = refs.filter fun reference => heap.payloadIs Payload.isElement reference := by
  induction shows with
  | nil => rfl
  | cons found _ _ _ ih => simp [Nodes.elements, ih, List.filter_cons, (payloadIs_of_content found).1]

theorem of_find? (shows : Shows heap refs nodes) {wanted : NodeRef} {payload : Payload} {below : Nodes}
    (found : nodes.find? wanted = some (payload, below)) :
    ∃ children, heap.content wanted = some (children, payload) ∧ Shows heap children below := by
  induction shows with
  | nil => cases found
  | @cons reference children refs _ _ _ content inside _ ihInside ihAfter =>
      unfold Nodes.find? at found
      by_cases same : reference = wanted
      · rw [if_pos same] at found
        cases found
        exact ⟨children, same ▸ content, inside⟩
      · rw [if_neg same, Option.or_eq_some_iff] at found
        rcases found with here | ⟨_, later⟩
        · exact ihInside here
        · exact ihAfter later

theorem repaint (shows : Shows heap refs nodes) {this : NodeRef} {payload : Payload}
    (same : ∀ reference, after.content reference = (heap.content reference).map fun content =>
      (content.1, if reference = this then payload else content.2)) :
    Shows after refs (nodes.repaint this payload) := by
  induction shows with
  | nil => exact .nil
  | cons found _ _ ihInside ihAfter => exact .cons (by rw [same, found]; rfl) ihInside ihAfter

theorem without (shows : Shows heap refs nodes) {child : NodeRef}
    (same : ∀ reference, after.content reference = (heap.content reference).map fun content =>
      (content.1.filter (· ≠ child), content.2)) :
    Shows after (refs.filter (· ≠ child)) (nodes.without child) := by
  induction shows with
  | nil => exact .nil
  | @cons reference children refs payload below rest found _ _ ihInside ihAfter =>
      unfold Nodes.without
      by_cases isChild : reference = child
      · rw [if_pos isChild, List.filter_cons_of_neg (by simpa using isChild)]
        exact ihAfter
      · rw [if_neg isChild, List.filter_cons_of_pos (by simpa using isChild)]
        exact .cons (by rw [same, found]; rfl) ihInside ihAfter

theorem graft (shows : Shows heap refs nodes) {this child : NodeRef} {tree : Nodes}
    (same : ∀ reference, after.content reference = (heap.content reference).map fun content =>
      (if reference = this then content.1 ++ [child] else content.1, content.2))
    (placed : Shows after [child] tree) : Shows after refs (nodes.graft this tree) := by
  induction shows with
  | nil => exact .nil
  | @cons reference children refs payload below rest found _ _ ihInside ihAfter =>
      unfold Nodes.graft
      by_cases isThis : reference = this
      · rw [if_pos isThis]
        refine .cons ?_ (ihInside.append placed) ihAfter
        rw [same, found, Option.map_some, if_pos isThis]
      · rw [if_neg isThis]
        refine .cons ?_ ihInside ihAfter
        rw [same, found, Option.map_some, if_neg isThis]

end Shows

/-! ## What a heap is to the estates -/

theorem Coherent.exists_root {heap : Heap} (coherent : Coherent heap) (reference : NodeRef) :
    ∃ root, Relation.ReflTransGen heap.links.Child reference root ∧ heap.links.parent root = none := by
  obtain ⟨rank, above, bounded⟩ := coherent.forest.acyclic.exists_rank (Finset.range heap.nextRef)
    fun node parent child => Finset.mem_range.mpr (coherent.bounded node (Heap.live_of_parent child))
  -- The induction is on how far the rank is below its bound.
  induction distance : (Finset.range heap.nextRef).card - rank reference using Nat.strong_induction_on
    generalizing reference with
  | _ distance ih =>
      cases linked : heap.links.parent reference with
      | none => exact ⟨reference, .refl, linked⟩
      | some parent =>
          have higher := above reference parent linked
          have high := bounded parent
          obtain ⟨root, path, top⟩ := ih _ (by omega) parent rfl
          exact ⟨root, .head linked path, top⟩

theorem Coherent.ownerOf_path {heap : Heap} (coherent : Coherent heap) {reference above : NodeRef}
    (path : Relation.ReflTransGen heap.links.Child reference above) :
    heap.ownerOf reference = heap.ownerOf above := by
  induction path with
  | refl => rfl
  | tail _ edge ih => exact ih.trans (coherent.sameOwner _ _ edge)

theorem Coherent.isDocument_of_owner {heap : Heap} (coherent : Coherent heap) {reference owner : NodeRef}
    (owns : heap.ownerOf reference = some owner) : heap.isDocument owner := by
  by_cases document : heap.isDocument reference
  · rw [(coherent.document reference document).1] at owns
    cases owns
    exact document
  · obtain ⟨other, owned, isDocument, _⟩ := coherent.owned reference (live_of_owner owns) document
    rw [owns] at owned
    cases owned
    exact isDocument

/-- The row of a document: its own tree, and the trees of its loose nodes. -/
structure ShowsRow (heap : Heap) (document : NodeRef) (loose : List NodeRef) (nodes : Nodes) : Prop where
  shows : Shows heap (document :: loose) nodes
  mem_iff : ∀ reference, reference ∈ loose ↔
    reference ≠ document ∧ heap.ownerOf reference = some document ∧ heap.links.parent reference = none

structure Represents (heap : Heap) (estate : Estate) : Prop where
  nextRef : heap.nextRef = estate.nextRef
  absent : ∀ document, ¬ heap.isDocument document → estate.owned document = .nil
  shown : ∀ document, heap.isDocument document → ∃ loose, ShowsRow heap document loose (estate.owned document)

section Represented

variable {heap : Heap} {estate : Estate} (represents : Represents heap estate) (coherent : Coherent heap)

include represents coherent

theorem Represents.mem_references_iff (document reference : NodeRef) :
    reference ∈ (estate.owned document).references ↔ heap.ownerOf reference = some document := by
  by_cases isDocument : heap.isDocument document
  · obtain ⟨loose, shows, isLoose⟩ := represents.shown document isDocument
    obtain ⟨owned, top⟩ := coherent.document document isDocument
    rw [shows.mem_references_iff coherent.forest]
    constructor
    · rintro ⟨root, member, path⟩
      rw [coherent.ownerOf_path path]
      rcases List.mem_cons.mp member with rfl | listed
      · exact owned
      · exact ((isLoose root).mp listed).2.1
    · intro owns
      obtain ⟨root, path, isRoot⟩ := coherent.exists_root reference
      refine ⟨root, ?_, path⟩
      by_cases same : root = document
      · exact same ▸ List.mem_cons_self
      · rw [coherent.ownerOf_path path] at owns
        exact List.mem_cons_of_mem _ ((isLoose root).mpr ⟨same, owns, isRoot⟩)
  · rw [represents.absent document isDocument]
    exact ⟨fun member => (nomatch member), fun owns => absurd (coherent.isDocument_of_owner owns) isDocument⟩

theorem Represents.siteIn_eq {reference document : NodeRef} {site : Site}
    (found : estate.siteIn reference document = some site) :
    site.owner = document ∧ heap.ownerOf reference = some document ∧
      ∃ node, heap.nodes reference = some node ∧ site.payload = node.payload.visible ∧
        Shows heap node.children site.below := by
  obtain ⟨⟨payload, below⟩, isThere, rfl⟩ := Option.map_eq_some_iff.mp found
  have member := (Nodes.find?_isSome reference _).mp (Option.isSome_of_eq_some isThere)
  have owns := (represents.mem_references_iff coherent document reference).mp member
  obtain ⟨loose, shows, _⟩ := represents.shown document (coherent.isDocument_of_owner owns)
  obtain ⟨children, content, inside⟩ := shows.of_find? isThere
  obtain ⟨node, isNode, same⟩ := Option.map_eq_some_iff.mp content
  cases same
  exact ⟨rfl, owns, node, isNode, rfl, inside⟩

/-- A live node has a site. -/
theorem Represents.exists_site {reference : NodeRef} {node : Node} (found : heap.nodes reference = some node) :
    ∃ site, estate.site? reference = some site ∧ node.owner = some site.owner ∧
      heap.isDocument site.owner ∧ site.payload = node.payload.visible ∧ Shows heap node.children site.below := by
  have owned : ∃ owner, heap.ownerOf reference = some owner := by
    by_cases document : heap.isDocument reference
    · exact ⟨_, (coherent.document reference document).1⟩
    · obtain ⟨owner, owns, _⟩ := coherent.owned reference (Heap.live_of_nodes found) document
      exact ⟨owner, owns⟩
  obtain ⟨owner, owns⟩ := owned
  have document := coherent.isDocument_of_owner owns
  have member := (represents.mem_references_iff coherent owner reference).mpr owns
  have low : owner < estate.nextRef := by
    rw [← represents.nextRef]
    exact coherent.bounded owner (Heap.live_of_isDocument document)
  have some : (estate.site? reference).isSome = true := by
    unfold Estate.site?
    rw [List.findSome?_isSome_iff]
    refine ⟨owner, List.mem_range.mpr low, ?_⟩
    unfold Estate.siteIn
    rw [Option.isSome_map, Nodes.find?_isSome]
    exact member
  obtain ⟨site, isSite⟩ := Option.isSome_iff_exists.mp some
  obtain ⟨other, _, inOther⟩ := List.exists_of_findSome?_eq_some isSite
  obtain ⟨rfl, owns, again, isAgain, payload, inside⟩ := represents.siteIn_eq coherent inOther
  cases found.symm.trans isAgain
  rw [Heap.ownerOf_of_nodes found] at owns
  exact ⟨site, isSite, owns, coherent.isDocument_of_owner (Heap.ownerOf_of_nodes found ▸ owns), payload, inside⟩

theorem Represents.no_site {reference : NodeRef} (dead : heap.nodes reference = none) :
    estate.site? reference = none := by
  unfold Estate.site?
  rw [List.findSome?_eq_none_iff]
  intro document _
  cases found : estate.siteIn reference document with
  | none => rfl
  | some site =>
      obtain ⟨_, _, node, isNode, _⟩ := represents.siteIn_eq coherent found
      rw [dead] at isNode
      cases isNode

end Represented

/-! ## One row changes -/

/-- A call ends on a heap as it does on the estates. -/
def EndsAs (heap : Heap) (ran : Except Halt Unit × Heap) : Except Halt Estate → Prop
  | .ok after => ran.1 = .ok () ∧ Represents ran.2 after
  | .error halt => ran = (.error halt, heap)

theorem Represents.grant {heap after : Heap} {estate : Estate} (represents : Represents heap estate)
    (coherent : Coherent heap) {owner : NodeRef} {nodes : Nodes} {loose : List NodeRef}
    (isDocument : heap.isDocument owner) (nextRef : after.nextRef = heap.nextRef)
    (documents : ∀ reference, after.isDocument reference ↔ heap.isDocument reference)
    (owners : ∀ reference, after.ownerOf reference = heap.ownerOf reference)
    (elsewhere : ∀ reference, heap.ownerOf reference ≠ some owner →
      after.content reference = heap.content reference ∧
        after.links.parent reference = heap.links.parent reference)
    (row : ShowsRow after owner loose nodes) : Represents after (estate.grant owner nodes) where
  nextRef := nextRef.trans represents.nextRef
  absent document none := by
    rw [documents] at none
    have other : document ≠ owner := fun same => none (same ▸ isDocument)
    exact (Function.update_of_ne other ..).trans (represents.absent document none)
  shown document isThere := by
    rw [documents] at isThere
    unfold Estate.grant
    dsimp only
    by_cases same : document = owner
    · subst same
      rw [Function.update_self]
      exact ⟨loose, row⟩
    rw [Function.update_of_ne same]
    obtain ⟨others, shows, isLoose⟩ := represents.shown document isThere
    refine ⟨others, shows.frame fun reference member => ?_, fun reference => ?_⟩
    · have owns := (represents.mem_references_iff coherent document reference).mp member
      exact (elsewhere reference (owns ▸ fun equal => same (Option.some.inj equal))).1
    · rw [isLoose, owners]
      refine and_congr_right fun _ => and_congr_right fun owns => ?_
      rw [(elsewhere reference (owns ▸ fun equal => same (Option.some.inj equal))).2]

/-! ## Contents -/

theorem run_of_dead {α : Type} {heap : Heap} {this : NodeRef} {rest : Node → DomM α}
    (dead : heap.nodes this = none) :
    (deref this >>= rest).run heap = (.error .undefinedBehavior, heap) := by
  unfold deref
  rw [run_bind, run_read_bind, dead]
  rfl

theorem isDocument_setPayload {heap : Heap} {this : NodeRef} {node : Node} {payload : Payload}
    (found : heap.nodes this = some node) (same : payload.isDocument = node.payload.isDocument)
    (reference : NodeRef) :
    (heap.update this (Node.setPayload payload)).isDocument reference ↔ heap.isDocument reference := by
  unfold Heap.isDocument Heap.payloadIs Heap.update
  by_cases isThis : reference = this
  · subst isThis
    simp [found, Node.setPayload, same]
  · simp [Function.update_of_ne isThis]

/-- A change of the payload that does not look at what no client sees. -/
structure Repaints (change : Payload → Option Payload) : Prop where
  visible : ∀ payload, change payload.visible = change payload
  inner : ∀ payload repainted, change payload = some repainted →
    repainted.visible = repainted ∧ repainted.isDocument = payload.isDocument

theorem Represents.repaint {heap : Heap} {estate : Estate} (represents : Represents heap estate)
    (coherent : Coherent heap) {this : NodeRef} {change : Payload → Option Payload} (repaints : Repaints change)
    {rest : Node → DomM Unit}
    (ran : ∀ node, heap.nodes this = some node → (rest node).run heap =
      match change node.payload with
      | some payload => (.ok (), heap.update this (Node.setPayload payload))
      | none => (.error .undefinedBehavior, heap)) :
    EndsAs heap ((deref this >>= rest).run heap) (estate.repaint this change) := by
  unfold Estate.repaint
  cases found : heap.nodes this with
  | none =>
      rw [represents.no_site coherent found]
      exact run_of_dead found
  | some node =>
  obtain ⟨site, isSite, owned, document, payload, _⟩ := represents.exists_site coherent found
  rw [isSite, run_bind_of_ok (run_deref found), ran node found]
  dsimp only
  rw [payload, repaints.visible]
  cases changed : change node.payload with
  | none => rfl
  | some repainted =>
  obtain ⟨plain, sameClass⟩ := repaints.inner _ _ changed
  obtain ⟨loose, shows, isLoose⟩ := represents.shown site.owner document
  have content : ∀ reference, (heap.update this (Node.setPayload repainted)).content reference =
      (heap.content reference).map fun content =>
        (content.1, if reference = this then repainted else content.2) := by
    intro reference
    rw [content_update]
    by_cases isThis : reference = this
    · subst isThis
      rw [if_pos rfl, found, Heap.content_of_nodes found]
      simp [Node.setPayload, plain]
    · simp [isThis]
  have links : (heap.update this (Node.setPayload repainted)).links.parent = heap.links.parent := by
    funext reference
    unfold Heap.links Heap.update
    by_cases isThis : reference = this
    · subst isThis
      simp [found, Node.setPayload]
    · simp [Function.update_of_ne isThis]
  have owners : ∀ reference, (heap.update this (Node.setPayload repainted)).ownerOf reference =
      heap.ownerOf reference := by
    intro reference
    unfold Heap.ownerOf Heap.update
    by_cases isThis : reference = this
    · subst isThis
      simp [found, Node.setPayload]
    · simp [Function.update_of_ne isThis]
  refine ⟨rfl, represents.grant coherent document rfl (isDocument_setPayload found sameClass) owners ?_
    ⟨shows.repaint content, fun reference => ?_⟩⟩
  · intro reference other
    have notThis : reference ≠ this := by
      rintro rfl
      exact other ((Heap.ownerOf_of_nodes found).trans owned)
    rw [content, links]
    simp [notThis]
  · rw [isLoose, owners, links]

/-! ## Loose nodes -/

theorem Heap.orphan_of_parent {heap : Heap} {this child : NodeRef}
    (linked : heap.links.parent child = some this) : heap.orphan child = heap.unlink this child := by
  unfold Heap.orphan
  rw [linked]

theorem Heap.relinks_orphan (heap : Heap) (child : NodeRef) : Relinks heap (heap.orphan child) := by
  unfold Heap.orphan
  cases heap.links.parent child with
  | none => exact ⟨rfl, fun _ => rfl⟩
  | some parent => exact Heap.relinks_unlink parent child heap

section Orphans

variable {heap : Heap} (coherent : Coherent heap) {child : NodeRef}

include coherent

theorem Coherent.content_orphan (reference : NodeRef) :
    (heap.orphan child).content reference = (heap.content reference).map fun content =>
      (content.1.filter (· ≠ child), content.2) := by
  have children : ∀ content, heap.content reference = some content →
      heap.links.children reference = content.1 := fun content found => Heap.children_of_content found
  cases linked : heap.links.parent child with
  | none =>
      have stays : heap.links.parent child ≠ some reference := by
        rw [linked]
        exact nofun
      unfold Heap.orphan
      rw [linked]
      cases found : heap.content reference with
      | none => rfl
      | some content =>
          have kept := coherent.filter_of_other stays
          rw [children content found] at kept
          rw [Option.map_some, kept]
  | some parent =>
      have exactly := removesExactly coherent ((coherent.forest.mem_children_iff child parent).mpr linked)
      rw [Heap.orphan_of_parent linked, exactly.rest.content]
      cases found : heap.content reference with
      | none => rfl
      | some content =>
          rw [Option.map_some, Option.map_some, exactly.children]
          by_cases isParent : reference = parent
          · rw [if_pos isParent, ← isParent, children content found]
          · have stays : heap.links.parent child ≠ some reference := by
              rw [linked]
              exact fun equal => isParent (Option.some.inj equal).symm
            rw [if_neg isParent, ← coherent.filter_of_other stays, children content found]

theorem Coherent.parent_orphan (reference : NodeRef) :
    (heap.orphan child).links.parent reference =
      if reference = child then none else heap.links.parent reference := by
  cases linked : heap.links.parent child with
  | none =>
      unfold Heap.orphan
      rw [linked]
      by_cases same : reference = child
      · simp [same, linked]
      · simp [same]
  | some parent =>
      rw [Heap.orphan_of_parent linked]
      exact (removesExactly coherent ((coherent.forest.mem_children_iff child parent).mpr linked)).parents reference

/-- What is below a node stays as it is while the node comes loose. -/
theorem Coherent.shows_orphan {node : Node} {below : Nodes} (found : heap.nodes child = some node)
    (inside : Shows heap node.children below) :
    Shows (heap.orphan child) [child] (.cons child node.payload.visible below .nil) := by
  have shows : Shows heap [child] (.cons child node.payload.visible below .nil) :=
    .cons (Heap.content_of_nodes found) inside .nil
  refine shows.frame fun reference member => ?_
  obtain ⟨root, isChild, path⟩ := (shows.mem_references_iff coherent.forest reference).mp member
  cases List.mem_singleton.mp isChild
  have stays : heap.links.parent child ≠ some reference :=
    fun linked => coherent.forest.acyclic child (Relation.TransGen.head' linked path)
  rw [coherent.content_orphan]
  cases content : heap.content reference with
  | none => rfl
  | some pair =>
      have kept := coherent.filter_of_other stays
      rw [Heap.children_of_content content] at kept
      rw [Option.map_some, kept]

/-- Nothing happens to the nodes of other documents. -/
theorem Coherent.orphan_elsewhere {owner reference : NodeRef} (owns : heap.ownerOf child = some owner)
    (other : heap.ownerOf reference ≠ some owner) :
    (heap.orphan child).content reference = heap.content reference ∧
      (heap.orphan child).links.parent reference = heap.links.parent reference := by
  have notChild : reference ≠ child := fun same => other (same ▸ owns)
  have stays : heap.links.parent child ≠ some reference :=
    fun linked => other ((coherent.sameOwner child reference linked).symm.trans owns)
  rw [coherent.parent_orphan, if_neg notChild, coherent.content_orphan]
  refine ⟨?_, rfl⟩
  cases content : heap.content reference with
  | none => rfl
  | some pair =>
      have kept := coherent.filter_of_other stays
      rw [Heap.children_of_content content] at kept
      rw [Option.map_some, kept]

theorem ShowsRow.without {owner : NodeRef} {loose : List NodeRef} {nodes : Nodes}
    (row : ShowsRow heap owner loose nodes) (notOwner : child ≠ owner) :
    Shows (heap.orphan child) (owner :: loose.filter (· ≠ child)) (nodes.without child) := by
  have without : Shows (heap.orphan child) ((owner :: loose).filter (· ≠ child)) (nodes.without child) :=
    row.shows.without coherent.content_orphan
  rwa [List.filter_cons_of_pos (by simpa using notOwner.symm)] at without

end Orphans

/-! ## Links -/

section Linked

variable {heap : Heap} {estate : Estate} (represents : Represents heap estate) (coherent : Coherent heap)

include represents coherent

theorem Represents.removeChild (this child : NodeRef) :
    EndsAs heap ((Dom.removeChild this child).run heap) (estate.removeChild this child) := by
  unfold Estate.removeChild
  cases found : heap.nodes this with
  | none =>
      rw [represents.no_site coherent found]
      exact run_of_dead found
  | some node =>
  obtain ⟨parent, isParent, owned, document, _, below⟩ := represents.exists_site coherent found
  rw [isParent]
  dsimp only
  rw [below.tops_eq]
  by_cases listed : child ∈ node.children
  · rw [if_neg (not_not.mpr listed)]
    have isChild : child ∈ heap.links.children this := Heap.links_children_of_nodes found ▸ listed
    have linked := (coherent.forest.mem_children_iff child this).mp isChild
    obtain ⟨childNode, childFound⟩ := Heap.exists_node (Heap.live_of_parent linked)
    obtain ⟨site, isSite, childOwned, _, payload, inside⟩ := represents.exists_site coherent childFound
    rw [isSite, run_removeChild isChild (Heap.live_of_nodes found)]
    refine ⟨rfl, ?_⟩
    dsimp only
    rw [← Heap.orphan_of_parent linked, payload]
    obtain ⟨loose, row⟩ := represents.shown parent.owner document
    have relinks := heap.relinks_orphan child
    have owns : heap.ownerOf child = some parent.owner := by
      rw [coherent.sameOwner child this linked, Heap.ownerOf_of_nodes found, owned]
    have notOwner : child ≠ parent.owner := by
      rintro rfl
      rw [(coherent.document _ document).2] at linked
      cases linked
    have loosened := (row.without coherent notOwner).append (coherent.shows_orphan childFound inside)
    refine represents.grant coherent document relinks.nextRef relinks.isDocument relinks.ownerOf
      (fun reference => coherent.orphan_elsewhere owns) ⟨loosened, fun reference => ?_⟩
    refine List.mem_append.trans ?_
    rw [List.mem_filter, row.mem_iff, List.mem_singleton, relinks.ownerOf, coherent.parent_orphan]
    by_cases same : reference = child
    · subst same
      simp [owns, notOwner]
    · simp [same]
  · rw [if_pos listed]
    unfold Dom.removeChild
    rw [run_bind_of_ok (run_deref found), if_pos (by simpa using listed)]
    rfl

/-- The row of a document once the child is at the end of the children. -/
theorem Represents.grantLinked {this child owner : NodeRef} {node childNode : Node} {below : Nodes}
    (found : heap.nodes this = some node) (owned : node.owner = some owner) (document : heap.isDocument owner)
    (childFound : heap.nodes child = some childNode) (childOwned : childNode.owner = some owner)
    (inner : ¬ childNode.payload.isDocument = true) (inside : Shows heap childNode.children below)
    (outside : this ∉ (Nodes.cons child childNode.payload.visible below .nil).references) :
    Represents ((heap.orphan child).link this child) (estate.grant owner
      (((estate.owned owner).without child).graft this (.cons child childNode.payload.visible below .nil))) := by
  obtain ⟨loose, row⟩ := represents.shown owner document
  have relinks := (heap.relinks_orphan child).trans (Heap.relinks_link this child _)
  have exactly := appendsExactly coherent (Heap.live_of_nodes found) (Heap.live_of_nodes childFound)
  have owns : heap.ownerOf child = some owner := (Heap.ownerOf_of_nodes childFound).trans childOwned
  have notOwner : child ≠ owner := by
    rintro rfl
    exact inner ((Heap.isDocument_of_nodes childFound).mp document)
  have placed : Shows ((heap.orphan child).link this child) [child]
      (.cons child childNode.payload.visible below .nil) := by
    refine (coherent.shows_orphan childFound inside).frame fun reference member => ?_
    have notThis : reference ≠ this := fun same => outside (same ▸ member)
    rw [content_link]
    simp [notThis]
  have grafted := (row.without coherent notOwner).graft (content_link (heap.orphan child) this child) placed
  refine represents.grant coherent document relinks.nextRef relinks.isDocument relinks.ownerOf ?_
    ⟨grafted, fun reference => ?_⟩
  · intro reference other
    have notThis : reference ≠ this := by
      rintro rfl
      exact other ((Heap.ownerOf_of_nodes found).trans owned)
    have notChild : reference ≠ child := fun same => other (same ▸ owns)
    rw [content_link, exactly.parents, if_neg notChild]
    simp [notThis, (coherent.orphan_elsewhere owns other).1]
  · rw [List.mem_filter, row.mem_iff, relinks.ownerOf, exactly.parents]
    by_cases same : reference = child
    · simp [same]
    · simp [same]

theorem Represents.appendChild (this child : NodeRef) :
    EndsAs heap ((Dom.appendChild this child).run heap) (estate.appendChild this child) := by
  unfold Estate.appendChild Dom.appendChild
  cases found : heap.nodes this with
  | none =>
      rw [represents.no_site coherent found]
      exact run_of_dead found
  | some node =>
  rw [run_bind_of_ok (run_deref found)]
  obtain ⟨parent, isParent, owned, document, parentPayload, below⟩ := represents.exists_site coherent found
  rw [isParent]
  cases childFound : heap.nodes child with
  | none =>
      rw [represents.no_site coherent childFound]
      exact run_of_dead childFound
  | some childNode =>
  rw [run_bind_of_ok (run_deref childFound)]
  obtain ⟨site, isSite, childOwned, _, payload, inside⟩ := represents.exists_site coherent childFound
  rw [isSite]
  dsimp only
  rw [payload, parentPayload, childOwned, owned, Payload.isDocument_visible, Payload.isDocument_visible,
    Payload.isElement_visible]
  by_cases isDocument : childNode.payload.isDocument = true
  · rw [if_pos isDocument, if_pos isDocument]
    rfl
  rw [if_neg isDocument, if_neg isDocument]
  by_cases sameOwner : site.owner = parent.owner
  case neg =>
    rw [if_pos (by simp [sameOwner]), if_pos sameOwner]
    rfl
  rw [if_neg (by simp [sameOwner]), if_neg (not_not.mpr sameOwner)]
  obtain ⟨answer, ran, means⟩ := coherent.run_isAncestorOf child (Heap.live_of_nodes found)
  have tree : Shows heap [child] (.cons child childNode.payload.visible site.below .nil) :=
    .cons (Heap.content_of_nodes childFound) inside .nil
  have cycle : this ∈ (Nodes.cons child childNode.payload.visible site.below .nil).references ↔
      child = this ∨ answer = true := by
    rw [tree.mem_references_iff coherent.forest, means]
    simp [Relation.reflTransGen_iff_eq_or_transGen]
  by_cases same : child = this
  · rw [if_pos (beq_iff_eq.mpr same), if_pos (cycle.mpr (.inl same))]
    rfl
  rw [if_neg (mt beq_iff_eq.mp same), run_bind_of_ok ran]
  by_cases above : answer = true
  · rw [if_pos above, if_pos (cycle.mpr (.inr above))]
    rfl
  have outside := mt cycle.mp (not_or.mpr ⟨same, above⟩)
  rw [if_neg above, if_neg outside, run_read_bind, below.elements_eq]
  have seconds : (node.payload.isDocument && childNode.payload.isElement &&
      node.children.any fun existing =>
        existing != child && heap.payloadIs Payload.isElement existing) = true ↔
      node.payload.isDocument = true ∧ childNode.payload.isElement = true ∧
        ∃ existing ∈ node.children.filter fun reference => heap.payloadIs Payload.isElement reference,
          existing ≠ child := by
    simp only [Bool.and_eq_true, List.any_eq_true, bne_iff_ne, List.mem_filter, and_assoc]
    exact and_congr_right fun _ => and_congr_right fun _ =>
      exists_congr fun existing => and_congr_right fun _ => and_comm
  dsimp only [id_eq]
  by_cases second : node.payload.isDocument = true ∧ childNode.payload.isElement = true ∧
      ∃ existing ∈ node.children.filter fun reference => heap.payloadIs Payload.isElement reference,
        existing ≠ child
  · rw [if_pos second, if_pos (seconds.mpr second)]
    rfl
  rw [if_neg second, if_neg (mt seconds.mp second), run_linkChild coherent (Heap.live_of_nodes childFound)]
  exact ⟨rfl, represents.grantLinked coherent found owned document childFound (sameOwner ▸ childOwned) isDocument
    inside outside⟩

end Linked

/-! ## New nodes -/

theorem Coherent.fresh_ownerOf {heap : Heap} (coherent : Coherent heap) : heap.ownerOf heap.nextRef = none := by
  unfold Heap.ownerOf
  rw [coherent.fresh]
  rfl

theorem Coherent.fresh_isDocument {heap : Heap} (coherent : Coherent heap) : ¬ heap.isDocument heap.nextRef := by
  unfold Heap.isDocument Heap.payloadIs
  rw [coherent.fresh]
  exact Bool.false_ne_true

theorem Represents.extend {heap after : Heap} {estate : Estate} (represents : Represents heap estate)
    (coherent : Coherent heap) {node : Node} (extended : Extends heap after heap.nextRef node)
    (contents : ∀ reference, after.content reference =
      if reference = heap.nextRef then some ([], node.payload.visible) else heap.content reference)
    {document : NodeRef} (owns : node.owner = some document) (isDocument : after.isDocument document)
    {loose : List NodeRef} {nodes : Nodes} (row : ShowsRow after document loose nodes) :
    Represents after ⟨Function.update estate.owned document nodes, estate.nextRef + 1⟩ := by
  have documents : ∀ other, other ≠ heap.nextRef → (after.isDocument other ↔ heap.isDocument other) := by
    intro other old
    unfold Heap.isDocument
    rw [extended.payloadIs _ _ (.inl rfl), if_neg old]
  refine ⟨?_, fun other none => ?_, fun other isThere => ?_⟩
  · rw [extended.nextRef.1, represents.nextRef]
  · have notDocument : other ≠ document := fun same => none (same ▸ isDocument)
    refine (Function.update_of_ne notDocument ..).trans (represents.absent other ?_)
    by_cases new : other = heap.nextRef
    · exact new ▸ coherent.fresh_isDocument
    · exact mt (documents other new).mpr none
  · by_cases same : other = document
    · subst same
      dsimp only
      rw [Function.update_self]
      exact ⟨loose, row⟩
    have old : other ≠ heap.nextRef := by
      rintro rfl
      have isNew := isThere
      unfold Heap.isDocument at isNew
      rw [extended.payloadIs _ _ (.inl rfl), if_pos rfl] at isNew
      have owner := extended.owner
      rw [if_pos isNew, owns] at owner
      exact same (Option.some.inj owner).symm
    obtain ⟨others, shows, isLoose⟩ := represents.shown other ((documents other old).mp isThere)
    dsimp only
    rw [Function.update_of_ne same]
    refine ⟨others, shows.frame fun reference member => ?_, fun reference => ?_⟩
    · have notNew : reference ≠ heap.nextRef := by
        rintro rfl
        have owned := (represents.mem_references_iff coherent other _).mp member
        rw [coherent.fresh_ownerOf] at owned
        cases owned
      rw [contents, if_neg notNew]
    · rw [isLoose, extended.links, extended.ownerOf]
      by_cases new : reference = heap.nextRef
      · subst new
        simp [coherent.fresh_ownerOf, owns, Ne.symm same]
      · simp [new]

theorem Represents.newDocument {heap : Heap} {estate : Estate} (represents : Represents heap estate)
    (coherent : Coherent heap) :
    Represents (heap.insert { owner := some heap.nextRef, payload := .document [] }) estate.newDocument := by
  have extended := extends_newDocument coherent.fresh rfl
  have contents : ∀ reference,
      (heap.insert { owner := some heap.nextRef, payload := .document [] }).content reference =
        if reference = heap.nextRef then some ([], .document []) else heap.content reference := by
    intro reference
    unfold Heap.content
    rw [Heap.nodes_insert]
    by_cases new : reference = heap.nextRef
    · rw [if_pos new, if_pos new]
      rfl
    · rw [if_neg new, if_neg new]
  unfold Estate.newDocument
  rw [← represents.nextRef]
  have isDocument : (heap.insert { owner := some heap.nextRef, payload := .document [] }).isDocument
      heap.nextRef := by
    unfold Heap.isDocument
    rw [extended.payloadIs _ _ (.inl rfl), if_pos rfl]
    rfl
  have row : ShowsRow (heap.insert { owner := some heap.nextRef, payload := .document [] }) heap.nextRef []
      (.cons heap.nextRef (.document []) .nil .nil) := by
    refine ⟨.cons ?_ .nil .nil, fun reference => ?_⟩
    · rw [contents, if_pos rfl]
    · refine iff_of_false List.not_mem_nil fun here => ?_
      have owned := here.2.1
      rw [extended.ownerOf, if_neg here.1] at owned
      exact coherent.fresh_isDocument (coherent.isDocument_of_owner owned)
  have extends' := represents.extend coherent extended contents rfl isDocument row
  rwa [← represents.nextRef] at extends'

theorem run_derefDocument_of_not {heap : Heap} {reference : NodeRef} (none : ¬ heap.isDocument reference) :
    (derefDocument reference).run heap = (.error .undefinedBehavior, heap) := by
  unfold derefDocument
  cases found : heap.nodes reference with
  | none => exact run_of_dead found
  | some node =>
      rw [Heap.isDocument_of_nodes found] at none
      rw [run_bind_of_ok (run_deref found)]
      cases payload : node.payload with
      | document storage =>
          rw [payload] at none
          exact absurd rfl none
      | _ => rfl

theorem Heap.exists_document {heap : Heap} {reference : NodeRef} (document : heap.isDocument reference) :
    ∃ node storage, heap.nodes reference = some node ∧ node.payload = .document storage := by
  obtain ⟨node, found⟩ := Heap.exists_node (Heap.live_of_isDocument document)
  rw [Heap.isDocument_of_nodes found] at document
  cases payload : node.payload with
  | document storage => exact ⟨node, storage, found, payload⟩
  | _ =>
      rw [payload] at document
      cases document

/-- A document has a row, which its own tree leads. -/
theorem ShowsRow.eq_cons {heap : Heap} {document : NodeRef} {loose : List NodeRef} {nodes : Nodes}
    (row : ShowsRow heap document loose nodes) :
    ∃ children payload below rest, nodes = .cons document payload below rest ∧
      heap.content document = some (children, payload) ∧ Shows heap children below ∧ Shows heap loose rest := by
  obtain ⟨shows, _⟩ := row
  cases shows with
  | cons found inside after => exact ⟨_, _, _, _, rfl, found, inside, after⟩

theorem Represents.create {heap : Heap} {estate : Estate} (represents : Represents heap estate)
    (coherent : Coherent heap) (this : NodeRef) {payload : Payload} (inner : payload.isDocument = false)
    (plain : payload.visible = payload) :
    EndsAs heap ((makeNode this payload >>= fun _ => pure ()).run heap) (estate.create this payload) := by
  unfold Estate.create
  by_cases document : heap.isDocument this
  case neg =>
    rw [represents.absent this document]
    unfold makeNode
    rw [bind_assoc, run_bind_of_error (run_derefDocument_of_not document)]
    rfl
  obtain ⟨node, storage, found, stores⟩ := Heap.exists_document document
  obtain ⟨loose, row⟩ := represents.shown this document
  obtain ⟨_, _, _, _, isCons, _⟩ := row.eq_cons
  rw [run_bind_of_ok (run_makeNode found stores payload)]
  have extended := extends_makeNode coherent.fresh found stores inner rfl
  have contents := content_withNode coherent.fresh found stores payload
  have different : heap.nextRef ≠ this := fun same => coherent.fresh_isDocument (same ▸ document)
  have stillDocument : (heap.withNode this storage payload).isDocument this := by
    unfold Heap.isDocument
    rw [extended.payloadIs _ _ (.inl rfl), if_neg different.symm]
    exact document
  have framed : Shows (heap.withNode this storage payload) (this :: loose) (estate.owned this) := by
    refine row.shows.frame fun reference member => ?_
    have notNew : reference ≠ heap.nextRef := by
      rintro rfl
      have owned := (represents.mem_references_iff coherent this _).mp member
      rw [coherent.fresh_ownerOf] at owned
      cases owned
    rw [contents, if_neg notNew]
  have added : Shows (heap.withNode this storage payload) [heap.nextRef]
      (.cons heap.nextRef payload .nil .nil) := by
    refine .cons ?_ .nil .nil
    rw [contents, if_pos rfl, plain]
  have longer : ShowsRow (heap.withNode this storage payload) this (loose ++ [heap.nextRef])
      ((estate.owned this).append (.cons heap.nextRef payload .nil .nil)) := by
    refine ⟨framed.append added, fun reference => ?_⟩
    rw [List.mem_append, row.mem_iff, List.mem_singleton, extended.ownerOf, extended.links]
    by_cases new : reference = heap.nextRef
    · subst new
      have root : heap.links.parent heap.nextRef = none := by
        unfold Heap.links
        dsimp only
        rw [coherent.fresh]
        rfl
      simp [root, different]
    · simp [new]
  have extends' := represents.extend coherent extended contents rfl stillDocument longer
  rw [isCons] at extends' ⊢
  rw [represents.nextRef] at extends'
  exact ⟨rfl, extends'⟩

/-! ## Moves -/

namespace Exchange

variable {heap : Heap} {this other : NodeRef} {thisNode otherNode : Node} {replaced storage : List NodeRef}
  (exchange : Exchange heap this other thisNode otherNode replaced storage) (coherent : Coherent heap)

include exchange

theorem content_moved (reference : NodeRef) :
    (heap.moved this other thisNode otherNode replaced storage).content reference =
      if reference = this then heap.content other
      else if reference = other then some ([], .document [])
      else if reference ∈ replaced then none
      else heap.content reference := by
  unfold Heap.content Heap.moved
  dsimp only
  by_cases isThis : reference = this
  · rw [if_pos isThis, if_pos isThis, exchange.otherFound, Option.map_some, Option.map_some, exchange.otherStores]
    rfl
  rw [if_neg isThis, if_neg isThis]
  by_cases isOther : reference = other
  · rw [if_pos isOther, if_pos isOther]
    rfl
  rw [if_neg isOther, if_neg isOther]
  by_cases gone : reference ∈ replaced
  · rw [if_pos gone, if_pos gone]
    rfl
  rw [if_neg gone, if_neg gone]
  split
  · rw [Option.map_map]
    rfl
  · rfl

include coherent

theorem owner_replaced {reference : NodeRef} (owns : heap.ownerOf reference = some this) (notThis : reference ≠ this) :
    reference ∈ replaced := by
  have inner : ¬ heap.isDocument reference := by
    intro document
    rw [(coherent.document reference document).1] at owns
    exact notThis (Option.some.inj owns)
  obtain ⟨owner, owned, _, member⟩ := coherent.owned reference (live_of_owner owns) inner
  cases owns.symm.trans owned
  exact exchange.mem_replaced_iff.mpr member

theorem owner_stored {reference : NodeRef} (owns : heap.ownerOf reference = some other)
    (notOther : reference ≠ other) : reference ∈ storage := by
  have inner : ¬ heap.isDocument reference := by
    intro document
    rw [(coherent.document reference document).1] at owns
    exact notOther (Option.some.inj owns)
  obtain ⟨owner, owned, _, member⟩ := coherent.owned reference (live_of_owner owns) inner
  cases owns.symm.trans owned
  exact exchange.mem_storage_iff.mpr member

theorem ownerOf_moved (reference : NodeRef) :
    (heap.moved this other thisNode otherNode replaced storage).ownerOf reference =
      if reference ∈ replaced then none
      else if reference ∈ storage then some this else heap.ownerOf reference := by
  by_cases gone : reference ∈ replaced
  · obtain ⟨notThis, notOther, _⟩ := exchange.of_mem_replaced coherent gone
    unfold Heap.ownerOf Heap.moved
    dsimp only
    rw [if_neg notThis, if_neg notOther, if_pos gone, if_pos gone]
    rfl
  · rw [if_neg gone, exchange.moved_ownerOf coherent gone]

end Exchange

/-- What one document owned goes to another one, whose own nodes are gone. -/
theorem Represents.moved {heap : Heap} {estate : Estate} (represents : Represents heap estate)
    (coherent : Coherent heap) {this other : NodeRef} {thisNode otherNode : Node}
    {replaced storage : List NodeRef}
    (exchange : Exchange heap this other thisNode otherNode replaced storage) :
    Represents (heap.moved this other thisNode otherNode replaced storage)
      ((estate.grant this ((estate.owned other).headed this)).grant other
        (.cons other (.document []) .nil .nil)) := by
  have different := exchange.different
  refine ⟨represents.nextRef, fun document none => ?_, fun document isThere => ?_⟩
  · rw [exchange.moved_isDocument coherent] at none
    have notThis : document ≠ this := fun same => none (same ▸ exchange.thisDocument)
    have notOther : document ≠ other := fun same => none (same ▸ exchange.otherDocument)
    unfold Estate.grant
    dsimp only
    rw [Function.update_of_ne notOther, Function.update_of_ne notThis]
    exact represents.absent document none
  rw [exchange.moved_isDocument coherent] at isThere
  unfold Estate.grant
  dsimp only
  by_cases isOther : document = other
  · subst isOther
    rw [Function.update_self]
    refine ⟨[], .cons ?_ .nil .nil, fun reference => ?_⟩
    · rw [exchange.content_moved, if_neg different.symm, if_pos rfl]
    · refine iff_of_false List.not_mem_nil fun here => ?_
      have owned := here.2.1
      rw [exchange.ownerOf_moved coherent] at owned
      split at owned
      · cases owned
      split at owned
      · exact different (Option.some.inj owned)
      · rename_i unstored
        exact unstored (exchange.owner_stored coherent owned here.1)
  rw [Function.update_of_ne isOther]
  by_cases isThis : document = this
  · subst isThis
    rw [Function.update_self]
    obtain ⟨loose, row⟩ := represents.shown other exchange.otherDocument
    obtain ⟨children, payload, below, rest, isCons, found, inside, after⟩ := row.eq_cons
    have root := (coherent.document other exchange.otherDocument).2
    have carried : ∀ reference, reference ≠ other → heap.ownerOf reference = some other →
        (heap.moved document other thisNode otherNode replaced storage).content reference =
          heap.content reference := by
      intro reference notOther owns
      obtain ⟨_, notThis, _, kept, _⟩ :=
        exchange.of_mem_storage coherent (exchange.owner_stored coherent owns notOther)
      rw [exchange.content_moved, if_neg notThis, if_neg notOther, if_neg kept]
    have owned : ∀ reference, reference ∈ (estate.owned other).references →
        heap.ownerOf reference = some other :=
      fun reference => (represents.mem_references_iff coherent other reference).mp
    rw [isCons] at owned
    refine ⟨loose, ?_, fun reference => ?_⟩
    · rw [isCons]
      refine .cons ?_ (inside.frame fun reference member => ?_) (after.frame fun reference member => ?_)
      · rw [exchange.content_moved, if_pos rfl]
        exact found
      · refine carried reference ?_ (owned reference (List.mem_cons_of_mem _ (List.mem_append_left _ member)))
        rintro rfl
        obtain ⟨child, listed, path⟩ := (inside.mem_references_iff coherent.forest reference).mp member
        rw [← Heap.children_of_content found, coherent.forest.mem_children_iff] at listed
        exact coherent.forest.acyclic reference (Relation.TransGen.tail' path listed)
      · refine carried reference ?_ (owned reference (List.mem_cons_of_mem _ (List.mem_append_right _ member)))
        rintro rfl
        obtain ⟨top, listed, path⟩ := (after.mem_references_iff coherent.forest reference).mp member
        rcases Relation.ReflTransGen.cases_head path with same | ⟨parent, linked, _⟩
        · exact ((row.mem_iff top).mp listed).1 same.symm
        · rw [Links.Child, root] at linked
          cases linked
    · rw [row.mem_iff, exchange.ownerOf_moved coherent, exchange.moved_parent coherent]
      constructor
      · rintro ⟨notOther, owns, isRoot⟩
        have moves := exchange.owner_stored coherent owns notOther
        obtain ⟨_, notThis, _, kept, _⟩ := exchange.of_mem_storage coherent moves
        have unlisted : reference ∉ otherNode.children := by
          simp [exchange.mem_otherChildren_iff, coherent.forest.mem_children_iff, isRoot]
        rw [if_neg kept, if_pos moves, if_neg kept, if_neg unlisted]
        exact ⟨notThis, rfl, isRoot⟩
      · rintro ⟨notThis, owns, isRoot⟩
        split at owns
        · cases owns
        rename_i kept
        split at owns
        · rename_i moves
          obtain ⟨_, _, notOther, _, owned⟩ := exchange.of_mem_storage coherent moves
          rw [if_neg kept] at isRoot
          split at isRoot
          · cases isRoot
          · exact ⟨notOther, owned, isRoot⟩
        · exact absurd (exchange.owner_replaced coherent owns notThis) kept
  · rw [Function.update_of_ne isThis]
    obtain ⟨loose, row⟩ := represents.shown document isThere
    have untouched : ∀ reference, heap.ownerOf reference = some document →
        reference ≠ this ∧ reference ≠ other ∧ reference ∉ replaced ∧ reference ∉ storage := by
      intro reference owns
      refine ⟨?_, ?_, fun gone => ?_, fun moves => ?_⟩
      · rintro rfl
        rw [(coherent.document _ exchange.thisDocument).1] at owns
        exact isThis (Option.some.inj owns).symm
      · rintro rfl
        rw [(coherent.document _ exchange.otherDocument).1] at owns
        exact isOther (Option.some.inj owns).symm
      · rw [(exchange.of_mem_replaced coherent gone).2.2] at owns
        exact isThis (Option.some.inj owns).symm
      · rw [(exchange.of_mem_storage coherent moves).2.2.2.2] at owns
        exact isOther (Option.some.inj owns).symm
    refine ⟨loose, row.shows.frame fun reference member => ?_, fun reference => ?_⟩
    · obtain ⟨notThis, notOther, kept, _⟩ :=
        untouched reference ((represents.mem_references_iff coherent document reference).mp member)
      rw [exchange.content_moved, if_neg notThis, if_neg notOther, if_neg kept]
    · rw [row.mem_iff, exchange.ownerOf_moved coherent, exchange.moved_parent coherent]
      refine and_congr_right fun _ => ⟨fun here => ?_, fun here => ?_⟩
      · obtain ⟨_, _, kept, fixed⟩ := untouched reference here.1
        rw [if_neg kept, if_neg fixed, if_neg kept, if_neg fun child => fixed (exchange.children_stored coherent child)]
        exact here
      · obtain ⟨owns, isRoot⟩ := here
        split at owns
        · cases owns
        rename_i kept
        split at owns
        · exact absurd (Option.some.inj owns).symm isThis
        rename_i fixed
        rw [if_neg kept, if_neg fun child => fixed (exchange.children_stored coherent child)] at isRoot
        exact ⟨owns, isRoot⟩

section Calls

variable {heap : Heap} {estate : Estate} (represents : Represents heap estate) (coherent : Coherent heap)

include represents coherent

theorem Represents.takeContents {this other : NodeRef} (different : this ≠ other) :
    EndsAs heap ((Dom.takeContents this other).run heap) (estate.takeContents this other) := by
  unfold Estate.takeContents
  by_cases thisDocument : heap.isDocument this
  case neg =>
    rw [represents.absent this thisDocument]
    exact run_bind_of_error (run_derefDocument_of_not thisDocument) _
  obtain ⟨thisNode, replaced, thisFound, thisStores⟩ := Heap.exists_document thisDocument
  obtain ⟨_, thisRow⟩ := represents.shown this thisDocument
  obtain ⟨_, _, _, _, isCons, _⟩ := thisRow.eq_cons
  rw [isCons]
  by_cases otherDocument : heap.isDocument other
  case neg =>
    rw [represents.absent other otherDocument]
    unfold Dom.takeContents
    rw [run_bind_of_ok (run_derefDocument thisFound thisStores)]
    exact run_bind_of_error (run_derefDocument_of_not otherDocument) _
  obtain ⟨otherNode, storage, otherFound, otherStores⟩ := Heap.exists_document otherDocument
  have exchange : Exchange heap this other thisNode otherNode replaced storage :=
    ⟨different, thisFound, thisStores, otherFound, otherStores⟩
  have moved := represents.moved coherent exchange
  obtain ⟨_, otherRow⟩ := represents.shown other otherDocument
  obtain ⟨_, _, _, _, otherCons, _⟩ := otherRow.eq_cons
  rw [exchange.run_takeContents coherent]
  rw [otherCons] at moved ⊢
  exact ⟨rfl, moved⟩

theorem Represents.moveConstruct (other : NodeRef) :
    EndsAs heap ((Dom.moveConstruct other >>= fun _ => pure ()).run heap)
      (estate.moveConstruct other) := by
  unfold Estate.moveConstruct
  by_cases document : heap.isDocument other
  case neg =>
    rw [represents.absent other document]
    unfold Dom.moveConstruct
    rw [bind_assoc, run_bind_of_error (run_derefDocument_of_not document)]
    rfl
  obtain ⟨node, storage, found, stores⟩ := Heap.exists_document document
  obtain ⟨_, row⟩ := represents.shown other document
  obtain ⟨_, _, _, _, isCons, _⟩ := row.eq_cons
  have different : heap.nextRef ≠ other := fun same => coherent.fresh_isDocument (same ▸ document)
  have taken := (represents.newDocument coherent).takeContents coherent.newDocument different
  unfold Dom.moveConstruct
  rw [bind_assoc, run_bind_of_ok (run_derefDocument found stores), bind_assoc]
  have made : Dom.newDocument.run heap = (.ok heap.nextRef,
      heap.insert { owner := some heap.nextRef, payload := .document [] }) := rfl
  rw [run_bind_of_ok made, bind_assoc, isCons, ← represents.nextRef]
  dsimp only
  cases outcome : estate.newDocument.takeContents heap.nextRef other with
  | ok after =>
      rw [outcome] at taken
      obtain ⟨returned, represented⟩ := taken
      rw [run_bind_of_ok (Prod.ext returned rfl)]
      exact ⟨rfl, represented⟩
  | error halt =>
      -- Both documents are there.
      have owned : estate.newDocument.owned other = estate.owned other :=
        Function.update_of_ne (represents.nextRef ▸ different.symm) ..
      have new : estate.newDocument.owned heap.nextRef = .cons heap.nextRef (.document []) .nil .nil := by
        rw [represents.nextRef]
        exact Function.update_self ..
      unfold Estate.takeContents at outcome
      rw [owned, new, isCons] at outcome
      cases outcome

theorem Represents.moveAssign (this other : NodeRef) :
    EndsAs heap ((Dom.moveAssign this other).run heap) (estate.moveAssign this other) := by
  unfold Dom.moveAssign Estate.moveAssign
  by_cases same : this = other
  · rw [if_pos same, if_pos (beq_iff_eq.mpr same)]
    exact ⟨rfl, represents⟩
  · rw [if_neg same, if_neg (mt beq_iff_eq.mp same)]
    exact represents.takeContents coherent same

theorem Represents.setText (this : NodeRef) (text : Bytes) :
    EndsAs heap ((Dom.setText this text).run heap) (estate.repaint this (Estate.texted text)) := by
  have repaints : Repaints (Estate.texted text) := by
    refine ⟨fun payload => by cases payload <;> rfl, fun payload repainted changed => ?_⟩
    cases payload <;> cases changed
    exact ⟨rfl, rfl⟩
  refine represents.repaint coherent repaints fun node _ => ?_
  cases node.payload <;> rfl

theorem Represents.setAttributeNs (this : NodeRef) (namespaceUri localName qualifiedName value : Bytes) :
    EndsAs heap ((Dom.setAttributeNs this namespaceUri localName qualifiedName value).run heap)
      (estate.repaint this (Estate.attributed ⟨namespaceUri, localName, qualifiedName, value⟩)) := by
  have repaints : Repaints (Estate.attributed ⟨namespaceUri, localName, qualifiedName, value⟩) := by
    refine ⟨fun payload => by cases payload <;> rfl, fun payload repainted changed => ?_⟩
    cases payload <;> cases changed
    exact ⟨rfl, rfl⟩
  refine represents.repaint coherent repaints fun node _ => ?_
  cases node.payload <;> rfl

theorem Represents.perform (operation : Operation) :
    EndsAs heap (operation.perform.run heap) (estate.perform operation) := by
  cases operation with
  | newDocument => exact ⟨rfl, represents.newDocument coherent⟩
  | createElement this qualifiedName namespaceUri localName => exact represents.create coherent this rfl rfl
  | createText this text => exact represents.create coherent this rfl rfl
  | createComment this text => exact represents.create coherent this rfl rfl
  | createProcessingInstruction this target data => exact represents.create coherent this rfl rfl
  | createCdataSection this text => exact represents.create coherent this rfl rfl
  | appendChild this child => exact represents.appendChild coherent this child
  | removeChild this child => exact represents.removeChild coherent this child
  | setText this text => exact represents.setText coherent this text
  | setAttribute this name value => exact represents.setAttributeNs coherent this [] name name value
  | setAttributeNs this namespaceUri localName qualifiedName value =>
      exact represents.setAttributeNs coherent this namespaceUri localName qualifiedName value
  | moveConstruct other => exact represents.moveConstruct coherent other
  | moveAssign this other => exact represents.moveAssign coherent this other

/-- One call ends alike on both levels. -/
theorem Represents.step (operation : Operation) :
    (operation.perform.run heap).1 = (estate.step operation).1 ∧
      Represents (operation.perform.run heap).2 (estate.step operation).2 := by
  have ends := represents.perform coherent operation
  unfold Estate.step
  cases outcome : estate.perform operation with
  | ok after =>
      rw [outcome] at ends
      exact ends
  | error halt =>
      rw [outcome] at ends
      have ran : operation.perform.run heap = (.error halt, heap) := ends
      rw [ran]
      exact ⟨rfl, represents⟩

/-- So does every run. -/
theorem Represents.run (operations : List Operation) :
    (runAll heap operations).1 = (estate.run operations).1 ∧
      Represents (runAll heap operations).2 (estate.run operations).2 := by
  induction operations generalizing heap estate with
  | nil => exact ⟨rfl, represents⟩
  | cons operation rest ih =>
      obtain ⟨outcome, represented⟩ := represents.step coherent operation
      obtain ⟨outcomes, final⟩ := ih represented (coherent_after coherent operation)
      unfold runAll Estate.run
      exact ⟨congrArg₂ List.cons outcome outcomes, final⟩

end Calls

end XmlParser.Dom
