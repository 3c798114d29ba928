import Mathlib.Data.Finset.Card
import Mathlib.Data.Finset.Filter
import Mathlib.Data.List.Basic
import Mathlib.Logic.Relation

/-! Forests whose links are kept in both directions: every node names its
parent, and every parent lists its children. -/

set_option autoImplicit false

namespace XmlParser.Forest

/-! ## Acyclic relations -/

section Acyclic

variable {α : Type} {relation wider : α → α → Prop}

def Acyclic (relation : α → α → Prop) : Prop := ∀ node, ¬ Relation.TransGen relation node node

theorem Acyclic.mono (acyclic : Acyclic wider) (included : ∀ a b, relation a b → wider a b) :
    Acyclic relation :=
  fun node cycle => acyclic node (Relation.TransGen.mono included node node cycle)

theorem Acyclic.swap (acyclic : Acyclic relation) : Acyclic fun a b => relation b a :=
  fun node cycle => acyclic node (Relation.transGen_swap.mp cycle)

/-- Only the edges whose end has an edge of its own can be on a cycle. -/
theorem Acyclic.of_inner (acyclic : Acyclic wider)
    (inner : ∀ a b c, relation a b → relation b c → wider a b) : Acyclic relation := by
  have lift : ∀ a b, Relation.TransGen relation a b → ∀ c, relation b c →
      Relation.TransGen wider a b := by
    intro a b path
    induction path with
    | single edge => exact fun c next => .single (inner _ _ c edge next)
    | tail path edge ih => exact fun c next => .tail (ih _ edge) (inner _ _ c edge next)
  intro node cycle
  obtain ⟨next, first, _⟩ := Relation.TransGen.head'_iff.mp cycle
  exact acyclic node (lift node node cycle next first)

/-- A new edge closes no cycle unless its end already leads to its start. -/
theorem Acyclic.add_edge (acyclic : Acyclic relation) {start finish : α}
    (open' : ¬ Relation.ReflTransGen relation finish start)
    (edges : ∀ a b, wider a b → relation a b ∨ (a = start ∧ b = finish)) : Acyclic wider := by
  have split : ∀ a b, Relation.TransGen wider a b → Relation.TransGen relation a b ∨
      (Relation.ReflTransGen relation a start ∧ Relation.ReflTransGen relation finish b) := by
    intro a b path
    induction path with
    | single edge =>
        cases edges _ _ edge with
        | inl old => exact .inl (.single old)
        | inr new =>
            obtain ⟨rfl, rfl⟩ := new
            exact .inr ⟨.refl, .refl⟩
    | tail path edge ih =>
        cases edges _ _ edge with
        | inl old =>
            cases ih with
            | inl before => exact .inl (before.tail old)
            | inr through => exact .inr ⟨through.1, through.2.tail old⟩
        | inr new =>
            obtain ⟨rfl, rfl⟩ := new
            cases ih with
            | inl before => exact .inr ⟨before.to_reflTransGen, .refl⟩
            | inr through => exact absurd through.2 open'
  intro node cycle
  cases split node node cycle with
  | inl old => exact acyclic node old
  | inr through => exact open' (through.2.trans through.1)

/-- An acyclic relation on finitely many nodes increases a rank. -/
theorem Acyclic.exists_rank (acyclic : Acyclic relation) (nodes : Finset α)
    (inside : ∀ a b, relation a b → a ∈ nodes) :
    ∃ rank : α → Nat, (∀ a b, relation a b → rank a < rank b) ∧ ∀ a, rank a ≤ nodes.card := by
  classical
  refine ⟨fun node => (nodes.filter fun before => Relation.TransGen relation before node).card, ?_, ?_⟩
  · intro a b edge
    refine Finset.card_lt_card (Finset.ssubset_iff_of_subset ?_ |>.mpr ⟨a, ?_, ?_⟩)
    · intro before member
      rw [Finset.mem_filter] at member ⊢
      exact ⟨member.1, member.2.tail edge⟩
    · exact Finset.mem_filter.mpr ⟨inside a b edge, .single edge⟩
    · exact fun member => acyclic a (Finset.mem_filter.mp member).2
  · exact fun node => Finset.card_filter_le _ _

end Acyclic

/-! ## Links in both directions -/

structure Links (α : Type) where
  parent : α → Option α
  children : α → List α

namespace Links

variable {α : Type}

def Child (links : Links α) (node parent : α) : Prop := links.parent node = some parent

/-- Both directions agree, no child is listed twice, and nothing is above itself. -/
structure IsForest (links : Links α) : Prop where
  mem_children_iff : ∀ node parent, node ∈ links.children parent ↔ links.parent node = some parent
  nodup : ∀ parent, (links.children parent).Nodup
  acyclic : Acyclic links.Child

variable [DecidableEq α]

/-- The parent forgets the node, and the node its parent. -/
def detach (links : Links α) (parent node : α) : Links α where
  parent := Function.update links.parent node none
  children := Function.update links.children parent ((links.children parent).erase node)

def attach (links : Links α) (parent node : α) : Links α where
  parent := Function.update links.parent node (some parent)
  children := Function.update links.children parent (links.children parent ++ [node])

section Updated

variable (links : Links α) (parent node other : α)

theorem parent_detach :
    (links.detach parent node).parent other = if other = node then none else links.parent other :=
  Function.update_apply ..

theorem children_detach :
    (links.detach parent node).children other =
      if other = parent then (links.children parent).erase node else links.children other :=
  Function.update_apply ..

theorem parent_attach :
    (links.attach parent node).parent other = if other = node then some parent else links.parent other :=
  Function.update_apply ..

theorem children_attach :
    (links.attach parent node).children other =
      if other = parent then links.children parent ++ [node] else links.children other :=
  Function.update_apply ..

end Updated

variable {links : Links α}

theorem IsForest.detach (forest : links.IsForest) {parent node : α}
    (child : links.parent node = some parent) : (links.detach parent node).IsForest := by
  refine ⟨?_, ?_, ?_⟩
  · intro other above
    unfold Links.detach
    dsimp only
    by_cases sameParent : above = parent
    · subst sameParent
      rw [Function.update_self, (forest.nodup above).mem_erase_iff, forest.mem_children_iff]
      by_cases sameNode : other = node
      · subst sameNode
        rw [Function.update_self]
        exact ⟨fun both => absurd rfl both.1, nofun⟩
      · rw [Function.update_of_ne sameNode]
        exact ⟨fun both => both.2, fun kept => ⟨sameNode, kept⟩⟩
    · rw [Function.update_of_ne sameParent, forest.mem_children_iff]
      by_cases sameNode : other = node
      · subst sameNode
        rw [Function.update_self, child]
        exact ⟨fun same => absurd (Option.some.inj same).symm sameParent, nofun⟩
      · rw [Function.update_of_ne sameNode]
  · intro above
    unfold Links.detach
    dsimp only
    by_cases sameParent : above = parent
    · subst sameParent
      rw [Function.update_self]
      exact (forest.nodup above).erase node
    · rw [Function.update_of_ne sameParent]
      exact forest.nodup above
  · refine forest.acyclic.mono fun other above edge => ?_
    unfold Child Links.detach at edge
    dsimp only at edge
    by_cases sameNode : other = node
    · subst sameNode
      rw [Function.update_self] at edge
      cases edge
    · rw [Function.update_of_ne sameNode] at edge
      exact edge

theorem IsForest.attach (forest : links.IsForest) {parent node : α}
    (root : links.parent node = none)
    (outside : ¬ Relation.ReflTransGen links.Child parent node) :
    (links.attach parent node).IsForest := by
  refine ⟨?_, ?_, ?_⟩
  · intro other above
    unfold Links.attach
    dsimp only
    by_cases sameNode : other = node
    · subst sameNode
      rw [Function.update_self]
      by_cases sameParent : above = parent
      · subst sameParent
        rw [Function.update_self]
        exact ⟨fun _ => rfl, fun _ => List.mem_append_right _ (List.mem_singleton_self _)⟩
      · rw [Function.update_of_ne sameParent, forest.mem_children_iff, root]
        exact ⟨nofun, fun same => absurd (Option.some.inj same).symm sameParent⟩
    · rw [Function.update_of_ne sameNode, ← forest.mem_children_iff]
      by_cases sameParent : above = parent
      · subst sameParent
        rw [Function.update_self, List.mem_append, List.mem_singleton]
        exact ⟨fun either => either.resolve_right sameNode, .inl⟩
      · rw [Function.update_of_ne sameParent]
  · intro above
    unfold Links.attach
    dsimp only
    by_cases sameParent : above = parent
    · subst sameParent
      rw [Function.update_self]
      refine List.Nodup.append (forest.nodup above) (List.nodup_singleton node) ?_
      intro other listed added
      rw [List.mem_singleton.mp added, forest.mem_children_iff, root] at listed
      cases listed
    · rw [Function.update_of_ne sameParent]
      exact forest.nodup above
  · refine forest.acyclic.add_edge outside fun other above edge => ?_
    unfold Child Links.attach at edge
    dsimp only at edge
    by_cases sameNode : other = node
    · subst sameNode
      rw [Function.update_self] at edge
      exact .inr ⟨rfl, (Option.some.inj edge).symm⟩
    · rw [Function.update_of_ne sameNode] at edge
      exact .inl edge

omit [DecidableEq α] in
/-- No node is below two siblings. -/
theorem IsForest.siblings_disjoint (forest : links.IsForest) {parent first second node : α}
    (one : links.parent first = some parent) (other : links.parent second = some parent)
    (different : first ≠ second) (below : Relation.ReflTransGen links.Child node first) :
    ¬ Relation.ReflTransGen links.Child node second := by
  -- A path from one sibling to the other one leads over their parent.
  have apart : ∀ {start finish : α}, links.parent start = some parent →
      links.parent finish = some parent → start ≠ finish →
      ¬ Relation.ReflTransGen links.Child start finish := by
    intro start finish first last different path
    rcases Relation.ReflTransGen.cases_head path with same | ⟨next, step, rest⟩
    · exact different same
    · have isParent : next = parent := Option.some.inj (step.symm.trans first)
      subst isParent
      exact forest.acyclic next (Relation.TransGen.tail' rest last)
  intro belowOther
  have unique : Relator.RightUnique links.Child :=
    fun _ _ _ first second => Option.some.inj (first.symm.trans second)
  rcases Relation.ReflTransGen.total_of_right_unique unique below belowOther with path | path
  · exact apart one other different path
  · exact apart other one different.symm path

end Links

end XmlParser.Forest
