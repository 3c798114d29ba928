import Mathlib.Data.List.Basic
import Mathlib.Logic.Relation

/-! Texts with macro calls. A call is a name between an opening and a closing
symbol; it stands for a constant, or for the expansion of the body of the name. -/

set_option autoImplicit false

namespace Macros

variable {α : Type}

/-- Two texts that end before the same mark. -/
theorem append_cons_inj {mark : α} {first second before after : List α} (closed : mark ∉ first)
    (ended : mark ∉ second) (same : first ++ mark :: before = second ++ mark :: after) :
    first = second ∧ before = after := by
  induction first generalizing second with
  | nil =>
      cases second with
      | nil => exact ⟨rfl, List.tail_eq_of_cons_eq same⟩
      | cons a second =>
          cases same
          exact absurd List.mem_cons_self ended
  | cons a first ih =>
      cases second with
      | nil =>
          cases same
          exact absurd List.mem_cons_self closed
      | cons b second =>
          rw [List.mem_cons, not_or] at closed ended
          simp only [List.cons_append, List.cons.injEq] at same
          obtain ⟨rfl, same⟩ := same
          obtain ⟨rfl, rfl⟩ := ih closed.2 ended.2 same
          exact ⟨rfl, rfl⟩

/-- A notation for calls, and what names stand for. The body of a name with a
constant is never asked for. -/
structure System (α : Type) where
  opening : α
  closing : α
  constant : List α → Option (List α)
  body : List α → Option (List α)

/-- How a text is expanded, from left to right. -/
inductive Expansion (α : Type) where
  | nil
  | symbol (a : α) (rest : Expansion α)
  | constant (name value : List α) (rest : Expansion α)
  | call (name : List α) (inner rest : Expansion α)

namespace Expansion

/-- What the text is expanded to. -/
def value : Expansion α → List α
  | nil => []
  | symbol a rest => a :: rest.value
  | constant _ value rest => value ++ rest.value
  | call _ inner rest => inner.value ++ rest.value

/-- The number of calls, those in the bodies of names included. -/
def calls : Expansion α → Nat
  | nil => 0
  | symbol _ rest => rest.calls
  | constant _ _ rest => 1 + rest.calls
  | call _ inner rest => 1 + inner.calls + rest.calls

/-- The symbols of the text itself that are copied. -/
def symbols : Expansion α → List α
  | nil => []
  | symbol a rest => a :: rest.symbols
  | constant _ _ rest | call _ _ rest => rest.symbols

/-- All symbols that are copied, those of the bodies included. -/
def copied : Expansion α → List α
  | nil => []
  | symbol a rest => a :: rest.copied
  | constant _ _ rest => rest.copied
  | call _ inner rest => inner.copied ++ rest.copied

/-- The names that constants have been put for, those in the bodies included. -/
def constants : Expansion α → List (List α)
  | nil => []
  | symbol _ rest => rest.constants
  | constant name _ rest => name :: rest.constants
  | call _ inner rest => inner.constants ++ rest.constants

/-- The expansion of one text behind another. -/
def append : Expansion α → Expansion α → Expansion α
  | nil, others => others
  | symbol a rest, others => symbol a (rest.append others)
  | constant name value rest, others => constant name value (rest.append others)
  | call name inner rest, others => call name inner (rest.append others)

/-- The expansion of a text with symbols behind it. -/
def followedBy (tail : List α) (expansion : Expansion α) : Expansion α :=
  expansion.append (tail.foldr symbol nil)

theorem value_foldr_symbol (tail : List α) : (tail.foldr symbol nil).value = tail := by
  induction tail with
  | nil => rfl
  | cons a tail ih => exact congrArg (a :: ·) ih

theorem calls_foldr_symbol (tail : List α) : (tail.foldr symbol nil).calls = 0 := by
  induction tail with
  | nil => rfl
  | cons a tail ih => exact ih

@[simp] theorem value_append (expansion others : Expansion α) :
    (expansion.append others).value = expansion.value ++ others.value := by
  induction expansion with
  | nil => rfl
  | symbol a rest ih => simp [append, value, ih]
  | constant name value rest ih => simp [append, Expansion.value, ih]
  | call name inner rest _ ih => simp [append, value, ih]

@[simp] theorem calls_append (expansion others : Expansion α) :
    (expansion.append others).calls = expansion.calls + others.calls := by
  induction expansion with
  | nil => simp [append, calls]
  | symbol a rest ih => exact ih
  | constant name value rest ih => simp [append, calls, ih, Nat.add_assoc]
  | call name inner rest _ ih => simp [append, calls, ih, Nat.add_assoc]

@[simp] theorem value_followedBy (expansion : Expansion α) (tail : List α) :
    (expansion.followedBy tail).value = expansion.value ++ tail := by
  rw [followedBy, value_append, value_foldr_symbol]

@[simp] theorem calls_followedBy (expansion : Expansion α) (tail : List α) :
    (expansion.followedBy tail).calls = expansion.calls := by
  rw [followedBy, calls_append, calls_foldr_symbol, Nat.add_zero]

end Expansion

namespace System

variable (system : System α)

/-- The symbols of a call. -/
def reference (name : List α) : List α := system.opening :: (name ++ [system.closing])

/-- The text that is expanded. -/
def text : Expansion α → List α
  | .nil => []
  | .symbol a rest => a :: text rest
  | .constant name _ rest | .call name _ rest => system.reference name ++ text rest

variable {system} in
/-- A text without opening symbols has no calls. -/
theorem calls_eq_zero {expansion : Expansion α} (plain : system.opening ∉ system.text expansion) :
    expansion.calls = 0 := by
  induction expansion with
  | nil => rfl
  | symbol a rest ih => exact ih fun member => plain (List.mem_cons_of_mem _ member)
  | constant name value rest ih => exact absurd (List.mem_append_left _ List.mem_cons_self) plain
  | call name inner rest ihInner ih => exact absurd (List.mem_append_left _ List.mem_cons_self) plain

/-- Every name ends at its first closing symbol and stands for what it is replaced by. -/
def Valid : Expansion α → Prop
  | .nil => True
  | .symbol a rest => a ≠ system.opening ∧ Valid rest
  | .constant name value rest =>
      system.closing ∉ name ∧ system.constant name = some value ∧ Valid rest
  | .call name inner rest =>
      system.closing ∉ name ∧ system.constant name = none ∧
        system.body name = some (system.text inner) ∧ Valid inner ∧ Valid rest

/-- A call of the name stands in the text. -/
inductive Mentions (name : List α) : List α → Prop where
  | here (rest : List α) : system.closing ∉ name → Mentions name (system.reference name ++ rest)
  | symbol {a : α} {rest : List α} :
      a ≠ system.opening → Mentions name rest → Mentions name (a :: rest)
  | call {other rest : List α} :
      system.closing ∉ other → Mentions name rest → Mentions name (system.reference other ++ rest)

/-- Expanding a call of the first name reaches a call of the second. -/
def Refers (first second : List α) : Prop :=
  system.constant first = none ∧ ∃ body, system.body first = some body ∧ system.Mentions second body

/-- The body of the first name has a call of the second. -/
def Leads (first second : List α) : Prop :=
  ∃ body, system.body first = some body ∧ system.Mentions second body

/-- The bodies lead from a call in the text to the name. -/
def Reaches (text name : List α) : Prop :=
  ∃ first, system.Mentions first text ∧ Relation.ReflTransGen system.Leads first name

/-- The bodies lead from a call in the text to one with this symbol. -/
def Brings (a : α) (text : List α) : Prop :=
  ∃ name body, system.Reaches text name ∧ system.body name = some body ∧ a ∈ body

variable {system}

theorem reference_append_inj {first second before after : List α}
    (closed : system.closing ∉ first) (ended : system.closing ∉ second)
    (same : system.reference first ++ before = system.reference second ++ after) :
    first = second ∧ before = after := by
  simp only [reference, List.cons_append, List.cons.injEq, true_and, List.append_assoc,
    List.nil_append] at same
  exact append_cons_inj closed ended same

/-- The names in a text that starts with a call. -/
theorem Mentions.of_reference {name other rest : List α}
    (mentions : system.Mentions name (system.reference other ++ rest))
    (closed : system.closing ∉ other) : name = other ∨ system.Mentions name rest := by
  generalize spelled : system.reference other ++ rest = text at mentions
  cases mentions with
  | here after ended => exact .inl (reference_append_inj closed ended spelled).1.symm
  | symbol differs _ =>
      cases spelled
      exact absurd rfl differs
  | call ended later =>
      obtain ⟨rfl, rfl⟩ := reference_append_inj closed ended spelled
      exact .inr later

/-- The names in a text that starts with another symbol. -/
theorem Mentions.of_symbol {name rest : List α} {a : α}
    (mentions : system.Mentions name (a :: rest)) (differs : a ≠ system.opening) :
    system.Mentions name rest := by
  generalize spelled : a :: rest = text at mentions
  cases mentions with
  | here after _ =>
      cases spelled
      exact absurd rfl differs
  | symbol _ later =>
      cases spelled
      exact later
  | call _ _ =>
      cases spelled
      exact absurd rfl differs

/-- A name in an expanded text is one of the constants, or its body has been expanded
on the way. -/
theorem Valid.stands {expansion : Expansion α} (valid : system.Valid expansion) {name : List α}
    (mentions : system.Mentions name (system.text expansion)) :
    name ∈ expansion.constants ∨
      ∃ inner, system.body name = some (system.text inner) ∧ system.Valid inner ∧
        inner.copied ⊆ expansion.copied ∧ inner.constants ⊆ expansion.constants := by
  induction expansion with
  | nil => cases mentions
  | symbol a rest ih =>
      rcases ih valid.2 (mentions.of_symbol valid.1) with put | ⟨inner, declared, validInner, copied, constants⟩
      · exact .inl put
      · exact .inr ⟨inner, declared, validInner, List.subset_cons_of_subset a copied, constants⟩
  | constant other value rest ih =>
      obtain ⟨closed, _, validRest⟩ := valid
      rcases mentions.of_reference closed with rfl | later
      · exact .inl List.mem_cons_self
      · rcases ih validRest later with put | ⟨inner, declared, validInner, copied, constants⟩
        · exact .inl (List.mem_cons_of_mem other put)
        · exact .inr ⟨inner, declared, validInner, copied, List.subset_cons_of_subset other constants⟩
  | call other inner rest _ ih =>
      obtain ⟨closed, _, declared, validInner, validRest⟩ := valid
      rcases mentions.of_reference closed with rfl | later
      · exact .inr ⟨inner, declared, validInner, List.subset_append_left _ _, List.subset_append_left _ _⟩
      · rcases ih validRest later with put | ⟨found, isBody, validFound, copied, constants⟩
        · exact .inl (List.mem_append_right _ put)
        · exact .inr ⟨found, isBody, validFound, List.Subset.trans copied (List.subset_append_right _ _),
            List.Subset.trans constants (List.subset_append_right _ _)⟩

theorem mentions_reference {name : List α} (closed : system.closing ∉ name) :
    system.Mentions name (system.reference name) := by
  have here : system.Mentions name (system.reference name ++ []) := .here [] closed
  rwa [List.append_nil] at here

theorem Valid.closed_of_mem_constants {expansion : Expansion α} (valid : system.Valid expansion) {name : List α}
    (put : name ∈ expansion.constants) : system.closing ∉ name := by
  induction expansion with
  | nil => cases put
  | symbol a rest ih => exact ih valid.2 put
  | constant other value rest ih =>
      rcases List.mem_cons.mp put with rfl | later
      · exact valid.1
      · exact ih valid.2.2 later
  | call other inner rest ihInner ih =>
      obtain ⟨_, _, _, validInner, validRest⟩ := valid
      rcases List.mem_append.mp put with inside | later
      · exact ihInner validInner inside
      · exact ih validRest later

section Symbols

variable {a : α}

theorem symbols_subset_text (expansion : Expansion α) : expansion.symbols ⊆ system.text expansion := by
  induction expansion with
  | nil => exact List.Subset.refl _
  | symbol b rest ih => exact List.cons_subset_cons b ih
  | constant name value rest ih => exact List.Subset.trans ih (List.subset_append_right _ _)
  | call name inner rest _ ih => exact List.Subset.trans ih (List.subset_append_right _ _)

/-- Where names are spelled without a symbol, a text with it has it copied. -/
theorem Valid.mem_copied {expansion : Expansion α} (valid : system.Valid expansion)
    (unspelled : ∀ name, system.constant name ≠ none ∨ system.body name ≠ none → a ∉ system.reference name)
    (member : a ∈ system.text expansion) : a ∈ expansion.copied := by
  induction expansion with
  | nil => cases member
  | symbol b rest ih =>
      rcases List.mem_cons.mp member with rfl | later
      · exact List.mem_cons_self
      · exact List.mem_cons_of_mem b (ih valid.2 later)
  | constant name value rest ih =>
      obtain ⟨_, known, validRest⟩ := valid
      rcases List.mem_append.mp member with inName | later
      · exact absurd inName (unspelled name (.inl (by simp [known])))
      · exact ih validRest later
  | call name inner rest _ ih =>
      obtain ⟨_, _, declared, _, validRest⟩ := valid
      rcases List.mem_append.mp member with inName | later
      · exact absurd inName (unspelled name (.inr (by simp [declared])))
      · exact List.mem_append_right _ (ih validRest later)

/-- What a text reaches beyond its constants is copied. -/
theorem Valid.mem_copied_of_brings {expansion : Expansion α} (valid : system.Valid expansion)
    (unspelled : ∀ name, system.constant name ≠ none ∨ system.body name ≠ none → a ∉ system.reference name)
    (brings : system.Brings a (system.text expansion)) :
    a ∈ expansion.copied ∨ ∃ name ∈ expansion.constants, system.Brings a (system.reference name) := by
  obtain ⟨name, body, ⟨first, mentions, leads⟩, found, member⟩ := brings
  induction leads using Relation.ReflTransGen.head_induction_on generalizing expansion with
  | refl =>
      rcases valid.stands mentions with put | ⟨inner, declared, validInner, copied, _⟩
      · have reaches : system.Reaches (system.reference name) name :=
          ⟨name, mentions_reference (valid.closed_of_mem_constants put), .refl⟩
        exact .inr ⟨name, put, name, body, reaches, found, member⟩
      · rw [declared] at found
        cases found
        exact .inl (copied (validInner.mem_copied unspelled member))
  | @head first next leads others ih =>
      rcases valid.stands mentions with put | ⟨inner, declared, validInner, copied, constants⟩
      · have reaches : system.Reaches (system.reference first) name :=
          ⟨first, mentions_reference (valid.closed_of_mem_constants put), .head leads others⟩
        exact .inr ⟨first, put, name, body, reaches, found, member⟩
      · obtain ⟨text, isBody, inBody⟩ := leads
        rw [declared] at isBody
        cases isBody
        rcases ih validInner inBody with inCopied | ⟨constant, put, brings⟩
        · exact .inl (copied inCopied)
        · exact .inr ⟨constant, constants put, brings⟩

theorem Brings.of_mentions {text other : List α} (brings : system.Brings a text)
    (mentioned : ∀ name, system.Mentions name text → system.Mentions name other) : system.Brings a other := by
  obtain ⟨name, body, ⟨first, mentions, leads⟩, found⟩ := brings
  exact ⟨name, body, ⟨first, mentioned first mentions, leads⟩, found⟩

/-- What is copied from bodies, or lies behind constants, is reached by the text. -/
theorem Valid.brings_of_mem_copied {expansion : Expansion α} (valid : system.Valid expansion)
    (absent : a ∉ expansion.symbols)
    (met : a ∈ expansion.copied ∨ ∃ name ∈ expansion.constants, system.Brings a (system.reference name)) :
    system.Brings a (system.text expansion) := by
  induction expansion with
  | nil => simp [Expansion.copied, Expansion.constants] at met
  | symbol b rest ih =>
      obtain ⟨differs, validRest⟩ := valid
      rw [Expansion.symbols, List.mem_cons, not_or] at absent
      refine (ih validRest absent.2 ?_).of_mentions fun name => .symbol differs
      rcases met with copied | behind
      · exact .inl ((List.mem_cons.mp copied).resolve_left absent.1)
      · exact .inr behind
  | constant other value rest ih =>
      obtain ⟨closed, known, validRest⟩ := valid
      have behind : system.Brings a (system.text rest) → system.Brings a (system.reference other ++ system.text rest) :=
        fun brings => brings.of_mentions fun name => .call closed
      rcases met with copied | ⟨name, put, brings⟩
      · exact behind (ih validRest absent (.inl copied))
      · rcases List.mem_cons.mp put with rfl | later
        · refine brings.of_mentions fun first mentions => ?_
          have alone : system.Mentions first (system.reference name ++ []) := by rwa [List.append_nil]
          rcases alone.of_reference closed with rfl | nowhere
          · exact .here _ closed
          · cases nowhere
        · exact behind (ih validRest absent (.inr ⟨name, later, brings⟩))
  | call other inner rest ihInner ih =>
      obtain ⟨closed, unknown, declared, validInner, validRest⟩ := valid
      have behind : system.Brings a (system.text rest) → system.Brings a (system.reference other ++ system.text rest) :=
        fun brings => brings.of_mentions fun name => .call closed
      have below : (a ∈ inner.copied ∨ ∃ name ∈ inner.constants, system.Brings a (system.reference name)) →
          system.Brings a (system.reference other ++ system.text rest) := by
        intro inside
        by_cases written : a ∈ system.text inner
        · exact ⟨other, system.text inner, ⟨other, .here _ closed, .refl⟩, declared, written⟩
        · have brings := ihInner validInner (fun here => written (symbols_subset_text inner here)) inside
          obtain ⟨name, body, ⟨first, mentions, leads⟩, found⟩ := brings
          exact ⟨name, body, ⟨other, .here _ closed, .head ⟨_, declared, mentions⟩ leads⟩, found⟩
      rcases met with copied | ⟨name, put, brings⟩
      · rcases List.mem_append.mp copied with inside | later
        · exact below (.inl inside)
        · exact behind (ih validRest absent (.inl later))
      · rcases List.mem_append.mp put with inside | later
        · exact below (.inr ⟨name, inside, brings⟩)
        · exact behind (ih validRest absent (.inr ⟨name, later, brings⟩))

end Symbols

theorem text_foldr_symbol (tail : List α) :
    system.text (tail.foldr Expansion.symbol .nil) = tail := by
  induction tail with
  | nil => rfl
  | cons a tail ih => exact congrArg (a :: ·) ih

theorem valid_foldr_symbol {tail : List α} (literal : system.opening ∉ tail) :
    system.Valid (tail.foldr Expansion.symbol .nil) := by
  induction tail with
  | nil => trivial
  | cons a tail ih =>
      rw [List.mem_cons, not_or] at literal
      exact ⟨Ne.symm literal.1, ih literal.2⟩

@[simp] theorem text_append (expansion others : Expansion α) :
    system.text (expansion.append others) = system.text expansion ++ system.text others := by
  induction expansion with
  | nil => rfl
  | symbol a rest ih => simp only [Expansion.append, text, ih, List.cons_append]
  | constant name value rest ih => simp only [Expansion.append, text, ih, List.append_assoc]
  | call name inner rest _ ih => simp only [Expansion.append, text, ih, List.append_assoc]

theorem Valid.append {expansion others : Expansion α} (valid : system.Valid expansion)
    (validOthers : system.Valid others) : system.Valid (expansion.append others) := by
  induction expansion with
  | nil => exact validOthers
  | symbol a rest ih => exact ⟨valid.1, ih valid.2⟩
  | constant name value rest ih => exact ⟨valid.1, valid.2.1, ih valid.2.2⟩
  | call name inner rest _ ih =>
      obtain ⟨closed, unknown, declared, validInner, validRest⟩ := valid
      exact ⟨closed, unknown, declared, validInner, ih validRest⟩

@[simp] theorem text_followedBy (expansion : Expansion α) (tail : List α) :
    system.text (expansion.followedBy tail) = system.text expansion ++ tail := by
  rw [Expansion.followedBy, text_append, text_foldr_symbol]

theorem Valid.followedBy {expansion : Expansion α} (valid : system.Valid expansion) {tail : List α}
    (literal : system.opening ∉ tail) : system.Valid (expansion.followedBy tail) :=
  valid.append (valid_foldr_symbol literal)

/-! ## Expansions that stop -/

/-- How many calls have been begun when the expansion of a text stops: behind a call, or
at a call that stands for nothing or may not be expanded, or inside the body of a call. -/
inductive Breaks (system : System α) : List α → Nat → Prop
  | behind (front : Expansion α) (rest : List α) :
      system.Valid front → Breaks system (system.text front ++ rest) front.calls
  | refused (front : Expansion α) {name : List α} (rest : List α) : system.Valid front → system.closing ∉ name →
      Breaks system (system.text front ++ (system.reference name ++ rest)) (front.calls + 1)
  | inside (front : Expansion α) {name body : List α} {begun : Nat} (rest : List α) :
      system.Valid front → system.closing ∉ name → system.constant name = none → system.body name = some body →
        Breaks system body begun →
          Breaks system (system.text front ++ (system.reference name ++ rest)) (front.calls + (1 + begun))

/-- What has been expanded in front of the text is counted as well. -/
theorem Breaks.after {text : List α} {begun : Nat} (breaks : system.Breaks text begun) {front : Expansion α}
    (valid : system.Valid front) : system.Breaks (system.text front ++ text) (front.calls + begun) := by
  cases breaks with
  | @behind more rest validMore =>
      have joined := Breaks.behind (front.append more) rest (valid.append validMore)
      rwa [text_append, List.append_assoc, Expansion.calls_append] at joined
  | @refused more name rest validMore closed =>
      have joined := Breaks.refused (front.append more) rest (valid.append validMore) closed
      rwa [text_append, List.append_assoc, Expansion.calls_append, Nat.add_assoc] at joined
  | @inside more name body begun rest validMore closed unknown declared inner =>
      have joined := Breaks.inside (front.append more) rest (valid.append validMore) closed unknown declared inner
      rwa [text_append, List.append_assoc, Expansion.calls_append, Nat.add_assoc] at joined

end System

end Macros
