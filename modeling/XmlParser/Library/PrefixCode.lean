import Mathlib.Data.List.Basic

/-! Codes in which no code word is the beginning of another one: a text has one
encoding, and a sequence has one longest part that encodes legal symbols. -/

set_option autoImplicit false

namespace XmlParser.PrefixCode

variable {α β : Type}

/-- Code words of symbols are not empty, and at most one of them begins a sequence. -/
structure PrefixFree (Symbol : α → Prop) (word : α → List β) : Prop where
  nonempty : ∀ symbol, Symbol symbol → word symbol ≠ []
  unique : ∀ left right code, Symbol left → Symbol right → word left <+: code → word right <+: code →
    left = right

def encode (word : α → List β) (text : List α) : List β := text.flatMap word

section Encode

variable (word : α → List β)

@[simp] theorem encode_nil : encode word [] = [] := rfl

@[simp] theorem encode_cons (symbol : α) (text : List α) :
    encode word (symbol :: text) = word symbol ++ encode word text := rfl

theorem encode_append (left right : List α) :
    encode word (left ++ right) = encode word left ++ encode word right := List.flatMap_append

end Encode

variable {Symbol Legal : α → Prop} {word : α → List β}

/-- No other text of legal symbols reaches further than one behind which no
legal symbol is encoded. -/
theorem PrefixFree.longest (free : PrefixFree Symbol word)
    (symbols : ∀ symbol, Legal symbol → Symbol symbol) {text other : List α} {rest : List β}
    (legal : ∀ symbol ∈ text, Legal symbol) (legalOther : ∀ symbol ∈ other, Legal symbol)
    (stuck : ∀ symbol, Legal symbol → ¬ word symbol <+: rest)
    (fits : encode word other <+: encode word text ++ rest) : other <+: text := by
  induction other generalizing text with
  | nil => exact List.nil_prefix
  | cons symbol other ih =>
      have legalSymbol := legalOther symbol List.mem_cons_self
      have first : word symbol <+: encode word text ++ rest :=
        (List.prefix_append _ _).trans fits
      cases text with
      | nil => exact absurd first (stuck symbol legalSymbol)
      | cons head text =>
          have second : word head <+: encode word (head :: text) ++ rest := by
            rw [encode_cons, List.append_assoc]
            exact List.prefix_append _ _
          have same := free.unique symbol head _ (symbols _ legalSymbol)
            (symbols _ (legal head List.mem_cons_self)) first second
          subst same
          rw [encode_cons, encode_cons, List.append_assoc, List.prefix_append_right_inj] at fits
          rw [List.cons_prefix_cons]
          exact ⟨rfl, ih (fun _ member => legal _ (List.mem_cons_of_mem _ member))
            (fun _ member => legalOther _ (List.mem_cons_of_mem _ member)) fits⟩

/-- A sequence is a longest legal text with what is left of it. -/
theorem PrefixFree.exists_split (free : PrefixFree Symbol word)
    (symbols : ∀ symbol, Legal symbol → Symbol symbol) (code : List β) :
    ∃ text rest, code = encode word text ++ rest ∧ (∀ symbol ∈ text, Legal symbol) ∧
      ∀ symbol, Legal symbol → ¬ word symbol <+: rest := by
  induction bound : code.length using Nat.strongRecOn generalizing code with
  | ind size ih =>
      by_cases more : ∃ symbol, Legal symbol ∧ word symbol <+: code
      · obtain ⟨symbol, legal, rest, rfl⟩ := more
        have positive := List.length_pos_of_ne_nil (free.nonempty symbol (symbols symbol legal))
        rw [List.length_append] at bound
        obtain ⟨text, remaining, rfl, legals, stuck⟩ := ih rest.length (by omega) rest rfl
        refine ⟨symbol :: text, remaining, by rw [encode_cons, List.append_assoc], ?_, stuck⟩
        exact List.forall_mem_cons.mpr ⟨legal, legals⟩
      · refine ⟨[], code, rfl, List.forall_mem_nil _, fun symbol legal fits => more ?_⟩
        exact ⟨symbol, legal, fits⟩

end XmlParser.PrefixCode
