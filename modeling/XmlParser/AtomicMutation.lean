import XmlParser.LooserLimits

/-! `append_child` and `remove_child`: when they throw, and exactly what they change
when they do not. -/

set_option autoImplicit false

namespace XmlParser.Dom

open XmlParser.Computation Comp Forest

/-! ## The states of a client -/

/-- Nothing yet, a parsed document, and what calls make of these; a call may throw. -/
inductive Reachable : Heap → Prop where
  | empty : Reachable {}
  | parsed {xml : Bytes} {options : ParserOptions} {document : NodeRef} {heap : Heap}
      (returned : parseDocument xml options = (.ok document, heap)) : Reachable heap
  | call {heap : Heap} (before : Reachable heap) (operation : Operation) : Reachable (operation.after heap)

theorem Reachable.coherent {heap : Heap} (reachable : Reachable heap) : Coherent heap := by
  induction reachable with
  | empty => exact coherent_empty
  | parsed returned =>
      obtain ⟨fits, accepted⟩ := accepted_of_parseDocument (congrArg Prod.fst returned)
      obtain ⟨_, _, _, _, again, holds⟩ := parseDocument_holds fits accepted
      cases returned.symm.trans again
      exact holds.coherent
  | call _ operation ih => exact coherent_after ih operation

theorem reachable_reached (operations : List Operation) : Reachable (reached operations) := by
  have calls : ∀ heap, Reachable heap → Reachable (operations.foldl Operation.after heap) := by
    induction operations with
    | nil => exact fun _ => id
    | cons operation rest ih => exact fun heap before => ih _ (.call before operation)
  exact calls {} .empty

/-! ## What the calls refuse -/

/-- What `append_child` throws for. -/
def RefusesAppend (heap : Heap) (this child : NodeRef) : Prop :=
  heap.isDocument child ∨ heap.ownerOf child ≠ heap.ownerOf this ∨ child = this ∨
    Relation.TransGen heap.links.Child this child ∨
    heap.isDocument this ∧ heap.payloadIs Payload.isElement child = true ∧
      ∃ existing ∈ heap.links.children this,
        existing ≠ child ∧ heap.payloadIs Payload.isElement existing = true

/-- What `remove_child` throws for. -/
def RefusesRemove (heap : Heap) (this child : NodeRef) : Prop := child ∉ heap.links.children this

/-- The call throws an exception. -/
def Throws {α : Type} (source : DomM α) (heap : Heap) : Prop :=
  ∃ exception after, source.run heap = (.error (.thrown exception), after)

section Refusal

variable {heap : Heap} {this child : NodeRef}

theorem insertable_iff (thisLive : heap.live this) (childLive : heap.live child) :
    Insertable heap this child ↔ ¬ RefusesAppend heap this child := by
  constructor
  · rintro ⟨_, _, owned, inner, outside, single⟩
    rintro (isDocument | otherOwner | same | above | ⟨isDocument, isElement, existing, listed, other, element⟩)
    · exact inner isDocument
    · exact otherOwner owned
    · exact outside (same ▸ .refl)
    · exact outside above.to_reflTransGen
    · exact other (single isDocument isElement existing (List.mem_filter.mpr ⟨listed, element⟩))
  · intro accepts
    unfold RefusesAppend at accepts
    push Not at accepts
    obtain ⟨inner, owned, different, notAbove, single⟩ := accepts
    refine ⟨thisLive, childLive, owned, inner, ?_, ?_⟩
    · intro path
      rcases Relation.reflTransGen_iff_eq_or_transGen.mp path with same | above
      · exact different same
      · exact notAbove above
    · intro isDocument isElement existing member
      obtain ⟨listed, element⟩ := List.mem_filter.mp member
      by_contra other
      exact absurd element (single isDocument isElement existing listed other)

/-- Between live nodes nothing but an exception of the library ends the call early. -/
theorem thrown_of_appendChild (coherent : Coherent heap) (thisLive : heap.live this) (childLive : heap.live child)
    {halt : Halt} {after : Heap} (failed : (appendChild this child).run heap = (.error halt, after)) :
    ∃ exception, halt = .thrown exception := by
  have thrown : ∀ message : String, (domError message : DomM Unit).run heap = (.error halt, after) →
      ∃ exception, halt = .thrown exception := by
    intro message ran
    cases ran
    exact ⟨_, rfl⟩
  obtain ⟨node, found⟩ := Heap.exists_node thisLive
  obtain ⟨childNode, childFound⟩ := Heap.exists_node childLive
  obtain ⟨answer, ran, _⟩ := coherent.run_isAncestorOf child thisLive
  unfold appendChild at failed
  rw [run_bind_of_ok (run_deref found), run_bind_of_ok (run_deref childFound)] at failed
  split at failed
  · exact thrown _ failed
  split at failed
  · exact thrown _ failed
  split at failed
  · exact thrown _ failed
  rw [run_bind_of_ok ran] at failed
  split at failed
  · exact thrown _ failed
  rw [run_read_bind] at failed
  split at failed
  · exact thrown _ failed
  rw [run_linkChild coherent childLive] at failed
  cases failed

theorem run_removeChild_refused (thisLive : heap.live this) (refuses : RefusesRemove heap this child) :
    ∃ exception, (removeChild this child).run heap = (.error (.thrown exception), heap) := by
  obtain ⟨node, found⟩ := Heap.exists_node thisLive
  unfold RefusesRemove at refuses
  rw [Heap.links_children_of_nodes found] at refuses
  unfold removeChild
  rw [run_bind_of_ok (run_deref found), if_pos (by simpa using refuses)]
  exact ⟨_, rfl⟩

end Refusal

/-! ## What the calls change -/

/-- The child has moved to the end of the children, and nothing else has changed. -/
structure AppendsExactly (before after : Heap) (this child : NodeRef) : Prop where
  rest : Relinks before after
  parents : ∀ node, after.links.parent node = if node = child then some this else before.links.parent node
  children : ∀ node, after.links.children node =
    if node = this then (before.links.children this).filter (· ≠ child) ++ [child]
    else if before.links.parent child = some node then (before.links.children node).filter (· ≠ child)
    else before.links.children node

/-- The child has left its parent, and nothing else has changed. -/
structure RemovesExactly (before after : Heap) (this child : NodeRef) : Prop where
  rest : Relinks before after
  parents : ∀ node, after.links.parent node = if node = child then none else before.links.parent node
  children : ∀ node, after.links.children node =
    if node = this then (before.links.children this).filter (· ≠ child) else before.links.children node

section Changes

variable {heap : Heap} (coherent : Coherent heap) {this child : NodeRef}

include coherent

theorem Coherent.filter_of_parent (parent : NodeRef) :
    (heap.links.children parent).filter (· ≠ child) = (heap.links.children parent).erase child := by
  rw [(coherent.forest.nodup parent).erase_eq_filter]
  apply List.filter_congr
  intro node _
  by_cases same : node = child <;> simp [same]

theorem Coherent.filter_of_other {other : NodeRef} (isOther : heap.links.parent child ≠ some other) :
    (heap.links.children other).filter (· ≠ child) = heap.links.children other := by
  apply List.filter_eq_self.mpr
  intro node member
  rw [decide_eq_true_eq]
  rintro rfl
  exact isOther ((coherent.forest.mem_children_iff node other).mp member)

theorem removesExactly (isChild : child ∈ heap.links.children this) :
    RemovesExactly heap (heap.unlink this child) this child := by
  have linked := (coherent.forest.mem_children_iff child this).mp isChild
  have links := Heap.links_unlink (coherent.live_parent linked) (Heap.live_of_parent linked)
  refine ⟨Heap.relinks_unlink this child heap, ?_, ?_⟩
  · intro node
    rw [links, Links.parent_detach]
  · intro node
    rw [links, Links.children_detach, coherent.filter_of_parent]

theorem appendsExactly (thisLive : heap.live this) (childLive : heap.live child) :
    AppendsExactly heap ((heap.orphan child).link this child) this child := by
  unfold Heap.orphan
  cases linked : heap.links.parent child with
  | none =>
      have links := Heap.links_link thisLive childLive
      have stays : heap.links.parent child ≠ some this := by
        rw [linked]
        exact nofun
      refine ⟨Heap.relinks_link this child heap, ?_, ?_⟩
      · intro node
        rw [links, Links.parent_attach]
      · intro node
        rw [links, Links.children_attach, coherent.filter_of_other stays, linked]
        rfl
  | some parent =>
      have relinks := Heap.relinks_unlink parent child heap
      have unlinked := Heap.links_unlink (coherent.live_parent linked) childLive
      have links := Heap.links_link ((relinks.live this).mpr thisLive) ((relinks.live child).mpr childLive)
      refine ⟨relinks.trans (Heap.relinks_link this child _), ?_, ?_⟩
      · intro node
        dsimp only
        rw [links, unlinked, Links.parent_attach, Links.parent_detach]
        split <;> rfl
      · intro node
        dsimp only
        rw [links, unlinked, Links.children_attach, Links.children_detach, Links.children_detach, linked]
        by_cases isThis : node = this
        · subst isThis
          rw [if_pos rfl, if_pos rfl]
          by_cases same : node = parent
          · subst same
            rw [if_pos rfl, coherent.filter_of_parent]
          · have isOther : heap.links.parent child ≠ some node := by
              rw [linked]
              exact fun equal => same (Option.some.inj equal).symm
            rw [if_neg same, coherent.filter_of_other isOther]
        · rw [if_neg isThis, if_neg isThis]
          by_cases same : node = parent
          · subst same
            rw [if_pos rfl, if_pos rfl, coherent.filter_of_parent]
          · rw [if_neg same, if_neg fun equal => same (Option.some.inj equal).symm]

end Changes

/-! ## Calls on reachable states -/

/-- What `append_child` does in a state. -/
structure AppendsAtomically (heap : Heap) (this child : NodeRef) : Prop where
  throws : Throws (appendChild this child) heap ↔ RefusesAppend heap this child
  kept : ∀ halt after, (appendChild this child).run heap = (.error halt, after) → after = heap
  inner : ∀ parent, heap.links.parent child = some parent → ¬ Throws (removeChild parent child) heap
  exactly : ¬ RefusesAppend heap this child →
    ∃ after, (appendChild this child).run heap = (.ok (), after) ∧ AppendsExactly heap after this child

/-- What `remove_child` does in a state. -/
structure RemovesAtomically (heap : Heap) (this child : NodeRef) : Prop where
  throws : Throws (removeChild this child) heap ↔ RefusesRemove heap this child
  kept : ∀ halt after, (removeChild this child).run heap = (.error halt, after) → after = heap
  exactly : ¬ RefusesRemove heap this child →
    ∃ after, (removeChild this child).run heap = (.ok (), after) ∧ RemovesExactly heap after this child

section Reached

variable {heap : Heap} {this child : NodeRef}

theorem not_throws_of_ok {α : Type} {source : DomM α} {value : α} {after : Heap}
    (ran : source.run heap = (.ok value, after)) : ¬ Throws source heap := by
  rintro ⟨exception, final, threw⟩
  cases ran.symm.trans threw

theorem removesAtomically (coherent : Coherent heap) (thisLive : heap.live this) :
    RemovesAtomically heap this child := by
  by_cases refuses : RefusesRemove heap this child
  · obtain ⟨exception, ran⟩ := run_removeChild_refused thisLive refuses
    refine ⟨iff_of_true ⟨exception, heap, ran⟩ refuses, ?_, absurd refuses⟩
    intro halt after failed
    cases ran.symm.trans failed
    rfl
  · have isChild := not_not.mp refuses
    have ran := run_removeChild isChild thisLive
    refine ⟨iff_of_false (not_throws_of_ok ran) refuses, ?_, fun _ => ⟨_, ran, removesExactly coherent isChild⟩⟩
    intro halt after failed
    cases ran.symm.trans failed

theorem appendsAtomically (coherent : Coherent heap) (thisLive : heap.live this) (childLive : heap.live child) :
    AppendsAtomically heap this child := by
  have inner : ∀ parent, heap.links.parent child = some parent → ¬ Throws (removeChild parent child) heap := by
    intro parent linked
    have isChild := (coherent.forest.mem_children_iff child parent).mpr linked
    exact not_throws_of_ok (run_removeChild isChild (coherent.live_parent linked))
  by_cases refuses : RefusesAppend heap this child
  · have notInsertable : ¬ Insertable heap this child :=
      fun insertable => (insertable_iff thisLive childLive).mp insertable refuses
    rcases appendChild_ends coherent this child with ⟨_, insertable⟩ | ⟨halt, ran, _⟩
    · exact absurd insertable notInsertable
    · obtain ⟨exception, rfl⟩ := thrown_of_appendChild coherent thisLive childLive ran
      refine ⟨iff_of_true ⟨exception, heap, ran⟩ refuses, ?_, inner, absurd refuses⟩
      intro halt after failed
      cases ran.symm.trans failed
      rfl
  · have ran := run_appendChild coherent ((insertable_iff thisLive childLive).mpr refuses)
    refine ⟨iff_of_false (not_throws_of_ok ran) refuses, ?_, inner, fun _ => ⟨_, ran, ?_⟩⟩
    · intro halt after failed
      cases ran.symm.trans failed
    · exact appendsExactly coherent thisLive childLive

/-- In every reachable state both calls are atomic and exact. -/
theorem mutations_atomic (reachable : Reachable heap) (thisLive : heap.live this) (childLive : heap.live child) :
    AppendsAtomically heap this child ∧ RemovesAtomically heap this child :=
  ⟨appendsAtomically reachable.coherent thisLive childLive, removesAtomically reachable.coherent thisLive⟩

end Reached

/-- A subtree is moved under its own leaf, which is refused. -/
theorem mutations_atomic_sample :
    let heap := reached [.newDocument, .createElement 0 (ascii "a") [] [], .createElement 0 (ascii "b") [] [],
      .appendChild 1 2]
    RefusesAppend heap 2 1 ∧ AppendsAtomically heap 2 1 ∧ RemovesAtomically heap 2 1 := by
  intro heap
  have above : heap.links.parent 2 = some 1 := rfl
  have refuses : RefusesAppend heap 2 1 := .inr (.inr (.inr (.inl (.single above))))
  exact ⟨refuses, mutations_atomic (reachable_reached _) rfl rfl⟩

end XmlParser.Dom
