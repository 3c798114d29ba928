import XmlParser.Library.Grammar
import Mathlib.Computability.RegularExpressions

/-! Content models of XML 1.0: how the production `children` is written, and the
regular language of lists of element names that it stands for. -/

set_option autoImplicit false

namespace XmlParser.Grammar

/-! ## Names, not restricted to ASCII -/

def FullNameStartChar (c : Nat) : Prop :=
  c = 0x3A ∨ (0x41 ≤ c ∧ c ≤ 0x5A) ∨ c = 0x5F ∨ (0x61 ≤ c ∧ c ≤ 0x7A) ∨ (0xC0 ≤ c ∧ c ≤ 0xD6) ∨
    (0xD8 ≤ c ∧ c ≤ 0xF6) ∨ (0xF8 ≤ c ∧ c ≤ 0x2FF) ∨ (0x370 ≤ c ∧ c ≤ 0x37D) ∨
    (0x37F ≤ c ∧ c ≤ 0x1FFF) ∨ (0x200C ≤ c ∧ c ≤ 0x200D) ∨ (0x2070 ≤ c ∧ c ≤ 0x218F) ∨
    (0x2C00 ≤ c ∧ c ≤ 0x2FEF) ∨ (0x3001 ≤ c ∧ c ≤ 0xD7FF) ∨ (0xF900 ≤ c ∧ c ≤ 0xFDCF) ∨
    (0xFDF0 ≤ c ∧ c ≤ 0xFFFD) ∨ (0x10000 ≤ c ∧ c ≤ 0xEFFFF)

def FullNameChar (c : Nat) : Prop :=
  FullNameStartChar c ∨ c = 0x2D ∨ c = 0x2E ∨ (0x30 ≤ c ∧ c ≤ 0x39) ∨ c = 0xB7 ∨
    (0x300 ≤ c ∧ c ≤ 0x36F) ∨ (0x203F ≤ c ∧ c ≤ 0x2040)

instance : DecidablePred FullNameStartChar := fun _ => inferInstanceAs (Decidable (_ ∨ _))

instance : DecidablePred FullNameChar := fun _ => inferInstanceAs (Decidable (_ ∨ _))

def FullName : Text → Prop
  | [] => False
  | first :: rest => FullNameStartChar first ∧ ∀ c ∈ rest, FullNameChar c

theorem FullName.chars {name : Text} (named : FullName name) : ∀ c ∈ name, FullNameChar c := by
  cases name with
  | nil => exact nofun
  | cons first rest =>
      intro c member
      cases List.mem_cons.mp member with
      | inl isFirst => exact .inl (isFirst ▸ named.1)
      | inr other => exact named.2 c other

/-! ## Syntax -/

inductive Occurrence where
  | once
  | optional
  | star
  | plus
  deriving DecidableEq, Repr

def Occurrence.mark : Occurrence → Text
  | .once => []
  | .optional => [0x3F]
  | .star => [0x2A]
  | .plus => [0x2B]

mutual

/-- A content particle. White space before and after an item of a group belongs to
its spelling. -/
inductive Particle where
  | name (name : Text) (occurs : Occurrence)
  | choice (before : Text) (first : Particle) (after : Text) (others : Particles) (occurs : Occurrence)
  | seq (items : Particles) (occurs : Occurrence)

inductive Particles where
  | last (before : Text) (item : Particle) (after : Text)
  | more (before : Text) (item : Particle) (after : Text) (others : Particles)

end

mutual

def Particle.render : Particle → Text
  | .name name occurs => name ++ occurs.mark
  | .choice before first after others occurs =>
      0x28 :: (before ++ first.render ++ after ++ 0x7C :: others.render 0x7C) ++ 0x29 :: occurs.mark
  | .seq items occurs => 0x28 :: items.render 0x2C ++ 0x29 :: occurs.mark

/-- The items with this separator between them. -/
def Particles.render (separator : Nat) : Particles → Text
  | .last before item after => before ++ item.render ++ after
  | .more before item after others =>
      before ++ item.render ++ after ++ separator :: others.render separator

end

mutual

/-- Names are names and white space is white space. -/
def Particle.Proper : Particle → Prop
  | .name name _ => FullName name
  | .choice before first after others _ => Spaces before ∧ first.Proper ∧ Spaces after ∧ others.Proper
  | .seq items _ => items.Proper

def Particles.Proper : Particles → Prop
  | .last before item after => Spaces before ∧ item.Proper ∧ Spaces after
  | .more before item after others => Spaces before ∧ item.Proper ∧ Spaces after ∧ others.Proper

end

/-- The particles of the production `children`. -/
def Particle.IsGroup : Particle → Prop
  | .name _ _ => False
  | _ => True

/-! ## Meaning -/

def Occurrence.apply (expression : RegularExpression Text) : Occurrence → RegularExpression Text
  | .once => expression
  | .optional => 1 + expression
  | .star => expression.star
  | .plus => expression * expression.star

mutual

def Particle.expression : Particle → RegularExpression Text
  | .name name occurs => occurs.apply (.char name)
  | .choice _ first _ others occurs => occurs.apply (first.expression + others.alternatives)
  | .seq items occurs => occurs.apply items.sequence

def Particles.alternatives : Particles → RegularExpression Text
  | .last _ item _ => item.expression
  | .more _ item _ others => item.expression + others.alternatives

def Particles.sequence : Particles → RegularExpression Text
  | .last _ item _ => item.expression
  | .more _ item _ others => item.expression * others.sequence

end

/-- The lists of element names that a particle stands for. -/
def Particle.language (particle : Particle) : Language Text := particle.expression.matches'

/-! ## Characters of a content model -/

/-- The characters between the names. -/
def Delimiter (c : Nat) : Prop :=
  c = 0x28 ∨ c = 0x29 ∨ c = 0x7C ∨ c = 0x2C ∨ c = 0x3F ∨ c = 0x2A ∨ c = 0x2B

def ModelChar (c : Nat) : Prop := IsSpace c ∨ FullNameChar c ∨ Delimiter c

theorem Occurrence.mark_chars (occurs : Occurrence) : ∀ c ∈ occurs.mark, ModelChar c := by
  cases occurs <;> simp [mark, ModelChar, Delimiter]

theorem Spaces.modelChars {space : Text} (spaces : Spaces space) : ∀ c ∈ space, ModelChar c :=
  fun c member => .inl (spaces c member)

mutual

theorem Particle.Proper.chars {particle : Particle} (proper : particle.Proper) :
    ∀ c ∈ particle.render, ModelChar c := by
  cases particle with
  | name name occurs =>
      exact List.forall_mem_append.mpr
        ⟨fun c member => .inr (.inl (FullName.chars proper c member)), occurs.mark_chars⟩
  | choice before first after others occurs =>
      obtain ⟨spaces, properFirst, gaps, properOthers⟩ := proper
      have inFirst := Particle.Proper.chars properFirst
      have inOthers := @Particles.Proper.chars 0x7C (by simp [Delimiter]) others properOthers
      simp only [Particle.render, List.cons_append, List.forall_mem_cons, List.forall_mem_append]
      exact ⟨by simp [ModelChar, Delimiter], ⟨⟨⟨Spaces.modelChars spaces, inFirst⟩, Spaces.modelChars gaps⟩,
        by simp [ModelChar, Delimiter], inOthers⟩, by simp [ModelChar, Delimiter], occurs.mark_chars⟩
  | seq items occurs =>
      have inItems := @Particles.Proper.chars 0x2C (by simp [Delimiter]) items proper
      simp only [Particle.render, List.cons_append, List.forall_mem_cons, List.forall_mem_append]
      exact ⟨by simp [ModelChar, Delimiter], inItems, by simp [ModelChar, Delimiter], occurs.mark_chars⟩

theorem Particles.Proper.chars {separator : Nat} (isDelimiter : Delimiter separator) {items : Particles}
    (proper : items.Proper) : ∀ c ∈ items.render separator, ModelChar c := by
  cases items with
  | last before item after =>
      obtain ⟨spaces, properItem, gaps⟩ := proper
      have inItem := Particle.Proper.chars properItem
      simp only [Particles.render, List.forall_mem_append]
      exact ⟨⟨Spaces.modelChars spaces, inItem⟩, Spaces.modelChars gaps⟩
  | more before item after others =>
      obtain ⟨spaces, properItem, gaps, properOthers⟩ := proper
      have inItem := Particle.Proper.chars properItem
      have inOthers := Particles.Proper.chars isDelimiter properOthers
      simp only [Particles.render, List.forall_mem_cons, List.forall_mem_append]
      exact ⟨⟨⟨Spaces.modelChars spaces, inItem⟩, Spaces.modelChars gaps⟩, .inr (.inr isDelimiter), inOthers⟩

end

/-! ## Words -/

/-- Every language here has a word of names. -/
def HasWord (expression : RegularExpression Text) : Prop :=
  ∃ word ∈ expression.matches', ∀ name ∈ word, FullName name

theorem HasWord.apply {expression : RegularExpression Text} (has : HasWord expression)
    (occurs : Occurrence) : HasWord (occurs.apply expression) := by
  obtain ⟨word, isWord, named⟩ := has
  cases occurs with
  | once => exact ⟨word, isWord, named⟩
  | optional => exact ⟨word, .inr isWord, named⟩
  | star =>
      refine ⟨word, ?_, named⟩
      rw [Occurrence.apply, RegularExpression.matches'_star]
      exact (le_kstar : expression.matches' ≤ _) isWord
  | plus =>
      refine ⟨word, ?_, named⟩
      rw [Occurrence.apply, RegularExpression.matches'_mul, RegularExpression.matches'_star]
      exact Language.mem_mul.mpr ⟨word, isWord, [], Language.nil_mem_kstar _, List.append_nil word⟩

theorem HasWord.mul {left right : RegularExpression Text} (first : HasWord left) (second : HasWord right) :
    HasWord (left * right) := by
  obtain ⟨word, isWord, named⟩ := first
  obtain ⟨other, isOther, others⟩ := second
  exact ⟨word ++ other, Language.append_mem_mul isWord isOther, List.forall_mem_append.mpr ⟨named, others⟩⟩

mutual

theorem Particle.Proper.hasWord {particle : Particle} (proper : particle.Proper) :
    HasWord particle.expression := by
  cases particle with
  | name name occurs =>
      have named : FullName name := proper
      have has : HasWord (.char name) := ⟨[name], rfl, by simpa using named⟩
      exact has.apply occurs
  | choice before first after others occurs =>
      obtain ⟨word, isWord, named⟩ := Particle.Proper.hasWord proper.2.1
      have has : HasWord (first.expression + others.alternatives) := ⟨word, .inl isWord, named⟩
      exact has.apply occurs
  | seq items occurs => exact HasWord.apply (Particles.Proper.hasWord proper) occurs

theorem Particles.Proper.hasWord {items : Particles} (proper : items.Proper) : HasWord items.sequence := by
  cases items with
  | last before item after => exact Particle.Proper.hasWord proper.2.1
  | more before item after others =>
      exact (Particle.Proper.hasWord proper.2.1).mul (Particles.Proper.hasWord proper.2.2.2)

end

/-! ## Sequences of names -/

def Particle.IsName : Particle → Prop
  | .name _ _ => True
  | _ => False

/-- A name that occurs once. -/
def Particle.IsPlain : Particle → Prop
  | .name _ occurs => occurs = .once
  | _ => False

/-- No item is a group. -/
def Particles.Flat : Particles → Prop
  | .last _ item _ => item.IsName
  | .more _ item _ others => item.IsName ∧ others.Flat

def Particles.Plain : Particles → Prop
  | .last _ item _ => item.IsPlain
  | .more _ item _ others => item.IsPlain ∧ others.Plain

/-- One sequence of names that occur once. -/
def Particle.IsPlainSequence (particle : Particle) : Prop :=
  ∃ items, particle = .seq items .once ∧ items.Plain

/-- The names among the items of a group. -/
def Particles.names : Particles → List Text
  | .last _ (.name name _) _ => [name]
  | .last _ _ _ => []
  | .more _ (.name name _) _ others => name :: others.names
  | .more _ _ _ others => others.names

theorem Particle.IsName.exists_eq {particle : Particle} (isName : particle.IsName) :
    ∃ name occurs, particle = .name name occurs := by
  cases particle with
  | name name occurs => exact ⟨name, occurs, rfl⟩
  | choice before first after others occurs => exact absurd isName id
  | seq items occurs => exact absurd isName id

theorem Particle.IsPlain.exists_eq {particle : Particle} (isPlain : particle.IsPlain) :
    ∃ name, particle = .name name .once := by
  cases particle with
  | name name occurs =>
      cases (isPlain : occurs = .once)
      exact ⟨name, rfl⟩
  | choice before first after others occurs => exact absurd isPlain id
  | seq items occurs => exact absurd isPlain id

theorem Particles.Plain.flat {items : Particles} (plain : items.Plain) : items.Flat := by
  cases items with
  | last before item after =>
      obtain ⟨name, rfl⟩ := Particle.IsPlain.exists_eq plain
      exact trivial
  | more before item after others =>
      obtain ⟨name, rfl⟩ := Particle.IsPlain.exists_eq plain.1
      exact ⟨trivial, Particles.Plain.flat plain.2⟩

/-- Names that occur once stand for one list. -/
theorem Particles.Plain.language {items : Particles} (plain : items.Plain) (word : List Text) :
    word ∈ items.sequence.matches' ↔ word = items.names := by
  cases items with
  | last before item after =>
      obtain ⟨name, rfl⟩ := Particle.IsPlain.exists_eq plain
      exact Iff.rfl
  | more before item after others =>
      obtain ⟨name, rfl⟩ := Particle.IsPlain.exists_eq plain.1
      have rest := Particles.Plain.language plain.2
      rw [Particles.sequence, RegularExpression.matches'_mul, Language.mem_mul]
      constructor
      · rintro ⟨first, isFirst, second, isSecond, rfl⟩
        cases (isFirst : first = [name])
        rw [(rest second).mp isSecond]
        rfl
      · rintro rfl
        exact ⟨[name], rfl, others.names, (rest _).mpr rfl, rfl⟩

/-- In a flat sequence every name can be there once. -/
theorem Particles.Flat.names_mem {items : Particles} (flat : items.Flat) :
    items.names ∈ items.sequence.matches' := by
  have once : ∀ (name : Text) (occurs : Occurrence),
      [name] ∈ (Particle.expression (.name name occurs)).matches' := by
    intro name occurs
    cases occurs with
    | once => exact rfl
    | optional => exact .inr rfl
    | star => exact (le_kstar : (RegularExpression.char name).matches' ≤ _) rfl
    | plus => exact Language.mem_mul.mpr ⟨[name], rfl, [], Language.nil_mem_kstar _, rfl⟩
  cases items with
  | last before item after =>
      obtain ⟨name, occurs, rfl⟩ := Particle.IsName.exists_eq flat
      exact once name occurs
  | more before item after others =>
      obtain ⟨name, occurs, rfl⟩ := Particle.IsName.exists_eq flat.1
      exact Language.append_mem_mul (once name occurs) (Particles.Flat.names_mem flat.2)

theorem Particles.Proper.names {items : Particles} (proper : items.Proper) (flat : items.Flat) :
    ∀ name ∈ items.names, FullName name := by
  cases items with
  | last before item after =>
      obtain ⟨name, occurs, rfl⟩ := Particle.IsName.exists_eq flat
      have named : FullName name := proper.2.1
      simpa [Particles.names] using named
  | more before item after others =>
      obtain ⟨name, occurs, rfl⟩ := Particle.IsName.exists_eq flat.1
      exact List.forall_mem_cons.mpr ⟨proper.2.1, Particles.Proper.names proper.2.2.2 flat.2⟩

/-- With an indicator there are lists of another length, too. -/
theorem Particles.Flat.exists_other {items : Particles} (flat : items.Flat) (proper : items.Proper)
    (indicated : ¬ items.Plain) :
    ∃ word ∈ items.sequence.matches', word.length ≠ items.names.length ∧ ∀ name ∈ word, FullName name := by
  have other : ∀ {name : Text} {occurs : Occurrence}, FullName name → occurs ≠ .once →
      ∃ word ∈ (Particle.expression (.name name occurs)).matches', word.length ≠ 1 ∧
        ∀ name ∈ word, FullName name := by
    intro name occurs named indicated
    cases occurs with
    | once => exact absurd rfl indicated
    | optional => exact ⟨[], .inl rfl, by decide, nofun⟩
    | star => exact ⟨[], Language.nil_mem_kstar _, by decide, nofun⟩
    | plus =>
        refine ⟨[name, name], Language.mem_mul.mpr ⟨[name], rfl, [name], ?_, rfl⟩, by simp, by simpa using named⟩
        exact (le_kstar : (RegularExpression.char name).matches' ≤ _) rfl
  cases items with
  | last before item after =>
      obtain ⟨name, occurs, rfl⟩ := Particle.IsName.exists_eq flat
      exact other proper.2.1 indicated
  | more before item after others =>
      obtain ⟨name, occurs, rfl⟩ := Particle.IsName.exists_eq flat.1
      by_cases plain : occurs = .once
      · obtain ⟨word, isWord, differs, named⟩ :=
          Particles.Flat.exists_other flat.2 proper.2.2.2 fun rest => indicated ⟨plain, rest⟩
        subst plain
        refine ⟨name :: word, Language.mem_mul.mpr ⟨[name], rfl, word, isWord, rfl⟩, ?_,
          List.forall_mem_cons.mpr ⟨proper.2.1, named⟩⟩
        exact fun same => differs (Nat.succ.inj same)
      · obtain ⟨word, isWord, differs, named⟩ := other proper.2.1 plain
        refine ⟨word ++ others.names, Language.append_mem_mul isWord flat.2.names_mem, ?_,
          List.forall_mem_append.mpr ⟨named, Particles.Proper.names proper.2.2.2 flat.2⟩⟩
        rw [List.length_append]
        intro same
        simp only [Particles.names, List.length_cons] at same
        omega

/-- A group inside a group shows. -/
theorem Particles.paren_mem_render {items : Particles} (nested : ¬ items.Flat) (separator : Nat) :
    0x28 ∈ items.render separator := by
  have inItem : ∀ {item : Particle}, ¬ item.IsName → 0x28 ∈ item.render := by
    intro item group
    cases item with
    | name name occurs => exact absurd trivial group
    | choice before first after others occurs => simp [Particle.render]
    | seq items occurs => simp [Particle.render]
  cases items with
  | last before item after => simp [Particles.render, inItem nested]
  | more before item after others =>
      by_cases isName : item.IsName
      · have rest := Particles.paren_mem_render (fun flat => nested ⟨isName, flat⟩) separator
        simp [Particles.render, rest]
      · simp [Particles.render, inItem isName]

end XmlParser.Grammar
