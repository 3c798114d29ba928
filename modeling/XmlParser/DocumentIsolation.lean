import XmlParser.EstateRefinement
import XmlParser.WrittenEvents

/-! What clients see of documents: the trees of the estates, which calls on other
documents leave alone and which a move carries over. -/

set_option autoImplicit false

namespace XmlParser.Dom

open XmlParser.Computation Comp Forest

/-! ## Answers about a document -/

/-- A document shows a tree: its nodes in document order, the events it stands
for, and what serializing it writes. -/
structure Displays (heap : Heap) (document : NodeRef) (tree : Nodes) : Prop where
  order : (depthFirst document).run heap = (.ok tree.references, heap)
  events : (flatten document).run heap = (.ok tree.events, heap)
  text : (serialize document).run heap = (.ok (.call document :: tree.written), heap)

theorem ShowsDocument.displays {heap : Heap} {document : NodeRef} {tree : Nodes}
    (shown : ShowsDocument heap document tree) (isDocument : heap.isDocument document) :
    Displays heap document tree := by
  refine ⟨shown.run_depthFirst (Heap.live_of_isDocument isDocument), ?_, shown.run_serialize isDocument⟩
  obtain ⟨node, storage, found, stores⟩ := Heap.exists_document isDocument
  have content := Heap.content_of_nodes found
  have shows := shown.shows
  rw [Heap.children_of_content content] at shows
  rw [run_flatten content shows shown.low, stores]
  simp [Payload.visible, Payload.opening, Payload.closing]

/-- All that clients can ask about nodes and documents is answered by the estates. -/
structure Refines (heap : Heap) (estate : Estate) : Prop where
  documents : ∀ document, heap.isDocument document ↔ estate.owned document ≠ .nil
  owners : ∀ document reference,
    heap.ownerOf reference = some document ↔ reference ∈ (estate.owned document).references
  nodes : ∀ reference, heap.content reference =
    (estate.site? reference).map fun site => (site.below.tops, site.payload)
  displays : ∀ document, heap.isDocument document → Displays heap document (estate.tree document)

section Represented

variable {heap : Heap} {estate : Estate} (represents : Represents heap estate) (coherent : Coherent heap)

include represents

theorem Represents.owned_of_isDocument {document : NodeRef} (isDocument : heap.isDocument document) :
    ∃ payload rest, estate.owned document = .cons document payload (estate.tree document) rest ∧
      Shows heap (heap.links.children document) (estate.tree document) := by
  obtain ⟨loose, row⟩ := represents.shown document isDocument
  obtain ⟨children, payload, below, rest, isCons, found, inside, _⟩ := row.eq_cons
  unfold Estate.tree
  rw [isCons, Heap.children_of_content found]
  exact ⟨payload, rest, rfl, inside⟩

include coherent

theorem Represents.displays {document : NodeRef} (isDocument : heap.isDocument document) :
    Displays heap document (estate.tree document) := by
  obtain ⟨tree, shown⟩ := coherent.exists_showsDocument document
  obtain ⟨_, _, _, shows⟩ := represents.owned_of_isDocument isDocument
  cases shown.shows.unique shows
  exact shown.displays isDocument

theorem Represents.refines : Refines heap estate where
  documents document := by
    constructor
    · intro isDocument none
      obtain ⟨_, _, isCons, _⟩ := represents.owned_of_isDocument isDocument
      rw [none] at isCons
      cases isCons
    · intro some
      by_contra none
      exact some (represents.absent document none)
  owners document reference := (represents.mem_references_iff coherent document reference).symm
  nodes reference := by
    cases found : heap.nodes reference with
    | none =>
        rw [represents.no_site coherent found]
        unfold Heap.content
        rw [found]
        rfl
    | some node =>
        obtain ⟨site, isSite, _, _, payload, inside⟩ := represents.exists_site coherent found
        rw [isSite, Heap.content_of_nodes found, Option.map_some, payload, inside.tops_eq]
  displays document := represents.displays coherent

end Represented

theorem represents_empty : Represents {} {} where
  nextRef := rfl
  absent _ _ := rfl
  shown _ isDocument := nomatch isDocument

theorem runAll_state (heap : Heap) (operations : List Operation) :
    (runAll heap operations).2 = operations.foldl Operation.after heap := by
  induction operations generalizing heap with
  | nil => rfl
  | cons operation rest ih => exact ih (operation.after heap)

theorem coherent_runAll {heap : Heap} (coherent : Coherent heap) (operations : List Operation) :
    Coherent (runAll heap operations).2 := by
  rw [runAll_state]
  exact coherent_foldl coherent operations

/-- Whatever the client calls, on however many documents: every call returns or
throws as it does on the trees, and leaves what it leaves there. -/
theorem calls_refined (operations : List Operation) :
    (runAll {} operations).1 = (Estate.run {} operations).1 ∧
      Refines (runAll {} operations).2 (Estate.run {} operations).2 := by
  obtain ⟨outcomes, represents⟩ := represents_empty.run coherent_empty operations
  exact ⟨outcomes, represents.refines (coherent_runAll coherent_empty operations)⟩

/-! ## Estates of any state -/

theorem Coherent.mem_storageOf_iff {heap : Heap} (coherent : Coherent heap) (document reference : NodeRef) :
    reference ∈ heap.storageOf document ↔
      reference ≠ document ∧ heap.ownerOf reference = some document := by
  constructor
  · intro member
    obtain ⟨_, inner, owns⟩ := coherent.stored document reference member
    exact ⟨fun same => inner (same ▸ coherent.isDocument_of_owner owns), owns⟩
  · rintro ⟨different, owns⟩
    by_cases isDocument : heap.isDocument reference
    · rw [(coherent.document reference isDocument).1] at owns
      exact absurd (Option.some.inj owns) different
    · obtain ⟨owner, owned, _, member⟩ := coherent.owned reference (live_of_owner owns) isDocument
      cases owns.symm.trans owned
      exact member

theorem Coherent.exists_represents {heap : Heap} (coherent : Coherent heap) :
    ∃ estate, Represents heap estate := by
  have rows : ∀ document, ∃ nodes, (¬ heap.isDocument document → nodes = .nil) ∧
      (heap.isDocument document → ∃ loose, ShowsRow heap document loose nodes) := by
    intro document
    by_cases isDocument : heap.isDocument document
    case neg => exact ⟨.nil, fun _ => rfl, fun isThere => absurd isThere isDocument⟩
    have isLoose : ∀ reference,
        reference ∈ (heap.storageOf document).filter (fun node => (heap.links.parent node).isNone) ↔
          reference ≠ document ∧ heap.ownerOf reference = some document ∧
            heap.links.parent reference = none := by
      intro reference
      rw [List.mem_filter, coherent.mem_storageOf_iff, Option.isNone_iff_eq_none, and_assoc]
    obtain ⟨nodes, shows⟩ := coherent.exists_shows
      (document :: (heap.storageOf document).filter fun node => (heap.links.parent node).isNone) fun reference member => by
        rcases List.mem_cons.mp member with rfl | listed
        · exact Heap.live_of_isDocument isDocument
        · exact live_of_owner ((isLoose reference).mp listed).2.1
    exact ⟨nodes, fun none => absurd isDocument none, fun _ => ⟨_, shows, isLoose⟩⟩
  choose owned absent shown using rows
  exact ⟨⟨owned, heap.nextRef⟩, rfl, absent, shown⟩

/-! ## Isolation -/

namespace Operation

/-- The documents that a call is made on or takes something from. -/
def concerns (heap : Heap) : Operation → List NodeRef
  | newDocument => []
  | createElement this _ _ _ => [this]
  | createText this _ => [this]
  | createComment this _ => [this]
  | createProcessingInstruction this _ _ => [this]
  | createCdataSection this _ => [this]
  | appendChild this _ => (heap.ownerOf this).toList
  | removeChild this _ => (heap.ownerOf this).toList
  | setText this _ => (heap.ownerOf this).toList
  | setAttribute this _ _ => (heap.ownerOf this).toList
  | setAttributeNs this _ _ _ _ => (heap.ownerOf this).toList
  | moveConstruct other => [other]
  | moveAssign this other => [this, other]

end Operation

/-- No call of the client concerns the document, each in the state that it is made in. -/
def Spares (document : NodeRef) : Heap → List Operation → Prop
  | _, [] => True
  | heap, operation :: rest =>
      document ∉ operation.concerns heap ∧ Spares document (operation.after heap) rest

instance decidableSpares (document : NodeRef) :
    (heap : Heap) → (operations : List Operation) → Decidable (Spares document heap operations)
  | _, [] => inferInstanceAs (Decidable True)
  | heap, operation :: rest =>
      have := decidableSpares document (operation.after heap) rest
      inferInstanceAs (Decidable (_ ∧ _))

namespace Estate

variable {estate after : Estate} {document this : NodeRef}

theorem owned_grant {owner : NodeRef} (other : document ≠ owner) (nodes : Nodes) :
    (estate.grant owner nodes).owned document = estate.owned document :=
  Function.update_of_ne other ..

theorem owned_create {payload : Payload} (other : document ≠ this)
    (created : estate.create this payload = .ok after) : after.owned document = estate.owned document := by
  unfold create at created
  split at created
  · cases created
  · cases created
    exact Function.update_of_ne other ..

theorem owned_appendChild {child : NodeRef} (other : ∀ site, estate.site? this = some site → document ≠ site.owner)
    (appended : estate.appendChild this child = .ok after) :
    after.owned document = estate.owned document := by
  unfold appendChild at appended
  split at appended
  · rename_i parent site isParent isSite
    dsimp only at appended
    repeat
      split at appended
      · cases appended
    cases appended
    exact owned_grant (other parent isParent) _
  · cases appended

theorem owned_removeChild {child : NodeRef} (other : ∀ site, estate.site? this = some site → document ≠ site.owner)
    (removed : estate.removeChild this child = .ok after) :
    after.owned document = estate.owned document := by
  unfold removeChild at removed
  split at removed
  · cases removed
  rename_i parent isParent
  split at removed
  · cases removed
  split at removed
  · cases removed
  · cases removed
    exact owned_grant (other parent isParent) _

theorem owned_repaint {change : Payload → Option Payload}
    (other : ∀ site, estate.site? this = some site → document ≠ site.owner)
    (repainted : estate.repaint this change = .ok after) : after.owned document = estate.owned document := by
  unfold repaint at repainted
  split at repainted
  · cases repainted
  rename_i site isSite
  split at repainted
  · cases repainted
  · cases repainted
    exact owned_grant (other site isSite) _

/-- What a move between documents leaves. -/
theorem takeContents_eq {other : NodeRef} (taken : estate.takeContents this other = .ok after) :
    after = (estate.grant this ((estate.owned other).headed this)).grant other
      (.cons other (.document []) .nil .nil) := by
  unfold takeContents at taken
  split at taken
  · cases taken
  · cases taken
  · cases taken
    rfl

end Estate

section Steps

variable {heap : Heap} {estate : Estate} (represents : Represents heap estate) (coherent : Coherent heap)

include represents coherent

theorem Represents.owner_of_site {reference : NodeRef} {site : Site} (isSite : estate.site? reference = some site) :
    heap.ownerOf reference = some site.owner := by
  cases found : heap.nodes reference with
  | none =>
      rw [represents.no_site coherent found] at isSite
      cases isSite
  | some node =>
      obtain ⟨other, again, owned, _⟩ := represents.exists_site coherent found
      cases isSite.symm.trans again
      exact (Heap.ownerOf_of_nodes found).trans owned

/-- A node is found in the row of its owner. -/
theorem Represents.site?_eq {reference document : NodeRef} (owns : heap.ownerOf reference = some document) :
    estate.site? reference = estate.siteIn reference document := by
  obtain ⟨node, found⟩ := Heap.exists_node (live_of_owner owns)
  obtain ⟨site, isSite, _⟩ := represents.exists_site coherent found
  obtain ⟨owner, _, inRow⟩ := List.exists_of_findSome?_eq_some isSite
  obtain ⟨_, owned, _⟩ := represents.siteIn_eq coherent inRow
  cases owns.symm.trans owned
  rw [isSite, inRow]

/-- A call leaves the trees of a document alone that it does not concern. -/
theorem Represents.owned_perform {operation : Operation} {document : NodeRef} {after : Estate}
    (isDocument : heap.isDocument document) (spared : document ∉ operation.concerns heap)
    (performed : estate.perform operation = .ok after) : after.owned document = estate.owned document := by
  have sites : ∀ {this : NodeRef}, document ∉ (heap.ownerOf this).toList →
      ∀ site, estate.site? this = some site → document ≠ site.owner := by
    rintro this unowned site isSite rfl
    rw [represents.owner_of_site coherent isSite] at unowned
    exact unowned (List.mem_singleton_self _)
  have old : document ≠ estate.nextRef := by
    rw [← represents.nextRef]
    rintro rfl
    exact coherent.fresh_isDocument isDocument
  cases operation with
  | newDocument =>
      cases performed
      exact Function.update_of_ne old ..
  | createElement this qualifiedName namespaceUri localName =>
      exact Estate.owned_create (mt List.mem_singleton.mpr spared) performed
  | createText this text => exact Estate.owned_create (mt List.mem_singleton.mpr spared) performed
  | createComment this text => exact Estate.owned_create (mt List.mem_singleton.mpr spared) performed
  | createProcessingInstruction this target data =>
      exact Estate.owned_create (mt List.mem_singleton.mpr spared) performed
  | createCdataSection this text => exact Estate.owned_create (mt List.mem_singleton.mpr spared) performed
  | appendChild this child => exact Estate.owned_appendChild (sites spared) performed
  | removeChild this child => exact Estate.owned_removeChild (sites spared) performed
  | setText this text => exact Estate.owned_repaint (sites spared) performed
  | setAttribute this name value => exact Estate.owned_repaint (sites spared) performed
  | setAttributeNs this namespaceUri localName qualifiedName value =>
      exact Estate.owned_repaint (sites spared) performed
  | moveConstruct other =>
      have notOther : document ≠ other := mt List.mem_singleton.mpr spared
      unfold Estate.perform Estate.moveConstruct at performed
      dsimp only at performed
      split at performed
      · cases performed
      rw [Estate.takeContents_eq performed, Estate.owned_grant notOther, Estate.owned_grant old]
      exact Function.update_of_ne old ..
  | moveAssign this other =>
      obtain ⟨notThis, notOther⟩ := not_or.mp (mt List.mem_cons.mpr spared)
      rw [List.mem_singleton] at notOther
      unfold Estate.perform Estate.moveAssign at performed
      dsimp only at performed
      split at performed
      · cases performed
        rfl
      · rw [Estate.takeContents_eq performed, Estate.owned_grant notOther, Estate.owned_grant notThis]

theorem Represents.owned_step {operation : Operation} {document : NodeRef} (isDocument : heap.isDocument document)
    (spared : document ∉ operation.concerns heap) :
    (estate.step operation).2.owned document = estate.owned document := by
  unfold Estate.step
  cases performed : estate.perform operation with
  | ok after => exact represents.owned_perform coherent isDocument spared performed
  | error halt => rfl

theorem Represents.owned_run {operations : List Operation} {document : NodeRef}
    (isDocument : heap.isDocument document) (spares : Spares document heap operations) :
    (estate.run operations).2.owned document = estate.owned document := by
  induction operations generalizing heap estate with
  | nil => rfl
  | cons operation rest ih =>
      obtain ⟨_, represented⟩ := represents.step coherent operation
      have next := coherent_after coherent operation
      have kept := represents.owned_step coherent isDocument spares.1
      have stillThere : (operation.after heap).isDocument document := by
        refine ((represented.refines next).documents document).mpr ?_
        rw [kept]
        exact ((represents.refines coherent).documents document).mp isDocument
      exact (ih represented next stillThere spares.2).trans kept

end Steps

/-- A document in two states, between which it has not changed. -/
structure Unchanged (before after : Heap) (document : NodeRef) : Prop where
  isDocument : after.isDocument document
  displays : ∃ tree, Displays before document tree ∧ Displays after document tree
  owns : ∀ reference, after.ownerOf reference = some document ↔ before.ownerOf reference = some document
  contents : ∀ reference, before.ownerOf reference = some document →
    after.content reference = before.content reference

/-- The row of a document decides all that is seen of it. -/
theorem Represents.unchanged {heap after : Heap} {estate final : Estate} (represents : Represents heap estate)
    (coherent : Coherent heap) (represented : Represents after final) (coherentAfter : Coherent after)
    {document : NodeRef} (isDocument : heap.isDocument document)
    (kept : final.owned document = estate.owned document) : Unchanged heap after document := by
  have refined := represents.refines coherent
  have refinedAfter := represented.refines coherentAfter
  have sameTree : final.tree document = estate.tree document := by
    unfold Estate.tree
    rw [kept]
  have isThere : after.isDocument document := by
    rw [refinedAfter.documents, kept]
    exact (refined.documents document).mp isDocument
  have owns : ∀ reference, after.ownerOf reference = some document ↔ heap.ownerOf reference = some document := by
    intro reference
    rw [refinedAfter.owners, kept, refined.owners]
  refine ⟨isThere, ⟨estate.tree document, refined.displays document isDocument, ?_⟩, owns, ?_⟩
  · rw [← sameTree]
    exact refinedAfter.displays document isThere
  · intro reference owned
    have sameSite : final.siteIn reference document = estate.siteIn reference document := by
      unfold Estate.siteIn
      rw [kept]
    rw [refinedAfter.nodes, refined.nodes, represented.site?_eq coherentAfter ((owns reference).mpr owned),
      represents.site?_eq coherent owned, sameSite]

/-- However long the client works on other documents, returning or throwing, it
does not change what a document shows, nor what it owns. -/
theorem documents_isolated {heap : Heap} (reachable : Reachable heap) {document : NodeRef}
    (isDocument : heap.isDocument document) {operations : List Operation}
    (spares : Spares document heap operations) : Unchanged heap (runAll heap operations).2 document := by
  have coherent := reachable.coherent
  obtain ⟨estate, represents⟩ := coherent.exists_represents
  obtain ⟨_, represented⟩ := represents.run coherent operations
  exact represents.unchanged coherent represented (coherent_runAll coherent operations) isDocument
    (represents.owned_run coherent isDocument spares)

/-- The calls on one document while another one is built, cut and moved. -/
theorem documents_isolated_sample :
    let heap := reached [.newDocument, .createElement 0 (ascii "a") [] [], .appendChild 0 1, .newDocument]
    let operations : List Operation := [.createElement 2 (ascii "b") [] [], .appendChild 2 3, .appendChild 3 1,
      .removeChild 2 3, .moveConstruct 2, .moveAssign 2 4]
    Spares 0 heap operations ∧ Unchanged heap (runAll heap operations).2 0 := by
  intro heap operations
  have isDocument : heap.isDocument 0 := rfl
  have spares : Spares 0 heap operations := by decide
  exact ⟨spares, documents_isolated (reachable_reached _) isDocument spares⟩

/-! ## Moves -/

/-- The new document has all that the other one had, which is empty. -/
structure Carries (before after : Heap) (this other : NodeRef) : Prop where
  displays : ∃ tree, Displays before other tree ∧ Displays after this tree
  emptied : Displays after other .nil
  owners : ∀ reference, reference ≠ other → before.ownerOf reference = some other →
    after.ownerOf reference = some this
  contents : ∀ reference, reference ≠ other → before.ownerOf reference = some other →
    after.content reference = before.content reference
  replaced : ∀ reference, reference ≠ this → before.ownerOf reference = some this → ¬ after.live reference

/-- Two trees that one document shows are told apart by nothing. -/
theorem Displays.same {heap after : Heap} {document target : NodeRef} {tree other : Nodes}
    (displays : Displays heap document tree) (again : Displays heap document other)
    (shown : Displays after target other) :
    Displays after target tree := by
  have order := displays.order.symm.trans again.order
  have events := displays.events.symm.trans again.events
  have text := displays.text.symm.trans again.text
  simp only [Prod.mk.injEq, Except.ok.injEq, and_true, List.cons.injEq, true_and] at order events text
  exact ⟨order ▸ shown.order, events ▸ shown.events, text ▸ shown.text⟩

theorem Exchange.carries {heap : Heap} (coherent : Coherent heap) {this other : NodeRef}
    {thisNode otherNode : Node} {replaced storage : List NodeRef}
    (exchange : Exchange heap this other thisNode otherNode replaced storage) :
    Carries heap (heap.moved this other thisNode otherNode replaced storage) this other := by
  obtain ⟨estate, represents⟩ := coherent.exists_represents
  have represented := represents.moved coherent exchange
  have final := exchange.moved_coherent coherent
  have thisThere := (exchange.moved_isDocument coherent).mpr exchange.thisDocument
  have otherThere := (exchange.moved_isDocument coherent).mpr exchange.otherDocument
  obtain ⟨payload, rest, isCons, _⟩ := represents.owned_of_isDocument exchange.otherDocument
  have thisShows := represented.displays final thisThere
  have otherShows := represented.displays final otherThere
  unfold Estate.tree Estate.grant at thisShows otherShows
  dsimp only at thisShows otherShows
  rw [Function.update_of_ne exchange.different, Function.update_self, isCons] at thisShows
  rw [Function.update_self] at otherShows
  refine ⟨⟨_, represents.displays coherent exchange.otherDocument, thisShows⟩, otherShows, ?_, ?_, ?_⟩
  · intro reference notOther owns
    have moves := exchange.owner_stored coherent owns notOther
    rw [exchange.ownerOf_moved coherent, if_neg (exchange.of_mem_storage coherent moves).2.2.2.1, if_pos moves]
  · intro reference notOther owns
    obtain ⟨_, notThis, _, kept, _⟩ :=
      exchange.of_mem_storage coherent (exchange.owner_stored coherent owns notOther)
    rw [exchange.content_moved, if_neg notThis, if_neg notOther, if_neg kept]
  · intro reference notThis owns live
    exact ((exchange.moved_live coherent).mp live).2 (exchange.owner_replaced coherent owns notThis)

/-- A move, into a new document or over an existing one, takes all that the other
document shows and owns, attached or loose, to its target; what the target owned is gone. -/
theorem moves_carry {heap : Heap} (reachable : Reachable heap) {other : NodeRef}
    (isDocument : heap.isDocument other) :
    (∃ after, (moveConstruct other).run heap = (.ok heap.nextRef, after) ∧
      Carries heap after heap.nextRef other) ∧
    ∀ this, heap.isDocument this → this ≠ other →
      ∃ after, (moveAssign this other).run heap = (.ok (), after) ∧ Carries heap after this other := by
  have coherent := reachable.coherent
  obtain ⟨otherNode, storage, otherFound, otherStores⟩ := Heap.exists_document isDocument
  constructor
  · have made := coherent.newDocument
    have old : other ≠ heap.nextRef := fun same => coherent.fresh_isDocument (same ▸ isDocument)
    have exchange : Exchange (heap.insert { owner := some heap.nextRef, payload := .document [] }) heap.nextRef
        other { owner := some heap.nextRef, payload := .document [] } otherNode [] storage := by
      refine ⟨old.symm, ?_, rfl, ?_, otherStores⟩
      · rw [Heap.nodes_insert, if_pos rfl]
      · rw [Heap.nodes_insert, if_neg old]
        exact otherFound
    refine ⟨Heap.moved heap.nextRef other { owner := some heap.nextRef, payload := .document [] } otherNode []
      storage (heap.insert { owner := some heap.nextRef, payload := .document [] }), ?_, ?_⟩
    · unfold moveConstruct
      rw [run_bind_of_ok (run_derefDocument otherFound otherStores)]
      have created : newDocument.run heap = (.ok heap.nextRef,
          heap.insert { owner := some heap.nextRef, payload := .document [] }) := rfl
      rw [run_bind_of_ok created, run_bind_of_ok (exchange.run_takeContents made), run_pure]
    · obtain ⟨⟨tree, here, there⟩, emptied, owners, contents, _⟩ := exchange.carries made
      obtain ⟨estate, represents⟩ := coherent.exists_represents
      have kept : (estate.step .newDocument).2.owned other = estate.owned other :=
        represents.owned_step coherent isDocument List.not_mem_nil
      obtain ⟨_, ⟨shown, before, beside⟩, owns, same⟩ :=
        represents.unchanged coherent (represents.newDocument coherent) made isDocument kept
      refine ⟨⟨shown, before, beside.same here there⟩, emptied, ?_, ?_, ?_⟩
      · exact fun reference notOther owned => owners reference notOther ((owns reference).mpr owned)
      · exact fun reference notOther owned =>
          (contents reference notOther ((owns reference).mpr owned)).trans (same reference owned)
      · intro reference _ owned
        exact absurd (coherent.isDocument_of_owner owned) coherent.fresh_isDocument
  · intro this thisDocument different
    obtain ⟨thisNode, replaced, thisFound, thisStores⟩ := Heap.exists_document thisDocument
    have exchange : Exchange heap this other thisNode otherNode replaced storage :=
      ⟨different, thisFound, thisStores, otherFound, otherStores⟩
    refine ⟨_, ?_, exchange.carries coherent⟩
    unfold moveAssign
    rw [if_neg (mt beq_iff_eq.mp different), exchange.run_takeContents coherent]

/-- A document with a loose node, moved over one that had an element. -/
theorem moves_carry_sample :
    let heap := reached [.newDocument, .createElement 0 (ascii "a") [] [], .appendChild 0 1,
      .createText 0 (ascii "loose"), .newDocument, .createElement 3 (ascii "b") [] [], .appendChild 3 4]
    (∃ after, (moveConstruct 0).run heap = (.ok 5, after) ∧ Carries heap after 5 0) ∧
      ∃ after, (moveAssign 3 0).run heap = (.ok (), after) ∧ Carries heap after 3 0 := by
  intro heap
  have isDocument : heap.isDocument 0 := rfl
  have target : heap.isDocument 3 := rfl
  obtain ⟨constructs, assigns⟩ := moves_carry (reachable_reached _) isDocument
  exact ⟨constructs, assigns 3 target (by decide)⟩

end XmlParser.Dom
