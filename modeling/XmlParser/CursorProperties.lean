import XmlParser.Cursor
import XmlParser.Utf8
import XmlParser.Library.Unambiguity
import Mathlib.Data.List.TakeWhile

/-! What the scanning members consume when they return. Each result is an
equivalence, so it serves reading a text and inverting a successful read. -/

set_option autoImplicit false

namespace XmlParser

open XmlParser.Computation Comp
open Grammar (Avoids avoids_pair_iff)

/-- The code points of located characters. -/
def values (chars : List DecodedChar) : List Nat := chars.map DecodedChar.value

@[simp] theorem values_nil : values [] = [] := rfl

@[simp] theorem values_cons (c : DecodedChar) (chars : List DecodedChar) :
    values (c :: chars) = c.value :: values chars := rfl

@[simp] theorem values_append (left right : List DecodedChar) :
    values (left ++ right) = values left ++ values right := List.map_append

@[simp] theorem values_length (chars : List DecodedChar) :
    (values chars).length = chars.length := List.length_map _

@[simp] theorem eof_nil : eof [] = true := rfl

@[simp] theorem eof_cons (c : DecodedChar) (rest : List DecodedChar) :
    eof (c :: rest) = false := rfl

@[simp] theorem peek_nil : peek [] = 0 := rfl

@[simp] theorem peek_cons (c : DecodedChar) (rest : List DecodedChar) :
    peek (c :: rest) = c.value := rfl

theorem startsWith_iff {text : List Nat} {rest : List DecodedChar} :
    startsWith text rest = true ↔ text <+: values rest := by
  simp [startsWith, values]

theorem startsWith_eq_false_iff {text : List Nat} {rest : List DecodedChar} :
    startsWith text rest = false ↔ ¬ text <+: values rest := by
  rw [← startsWith_iff, Bool.not_eq_true]

/-- A text in front of the cursor is the text of a prefix of the characters. -/
theorem values_eq_append {rest : List DecodedChar} {left right : List Nat}
    (split : values rest = left ++ right) :
    ∃ consumed after, rest = consumed ++ after ∧ values consumed = left ∧
      values after = right := by
  obtain ⟨consumed, after, rfl, first, second⟩ := List.map_eq_append_iff.mp split
  exact ⟨consumed, after, rfl, first, second⟩

theorem startsWith_split {text : List Nat} {rest : List DecodedChar}
    (starts : startsWith text rest = true) :
    ∃ consumed after, rest = consumed ++ after ∧ values consumed = text := by
  obtain ⟨tail, split⟩ := startsWith_iff.mp starts
  obtain ⟨consumed, after, rfl, same, _⟩ := values_eq_append split.symm
  exact ⟨consumed, after, rfl, same⟩

theorem startsWith_append (consumed after : List DecodedChar) :
    startsWith (values consumed) (consumed ++ after) = true :=
  startsWith_iff.mpr (by simp)

namespace Parser

variable (p : Parser)

@[simp] theorem run_fail {α : Type} (kind : ErrorKind) (message : String)
    (rest : List DecodedChar) :
    (p.fail kind message : Cursor α).run rest =
      (.error (.thrown (.xmlParse ⟨kind, p.location rest, message⟩)), rest) := rfl

@[simp] theorem run_advance_nil :
    p.advance.run [] =
      (.error (.thrown (.xmlParse
        ⟨.wellFormedness, p.endLocation, "unexpected end of XML input"⟩)), []) := rfl

@[simp] theorem run_advance_cons (c : DecodedChar) (rest : List DecodedChar) :
    p.advance.run (c :: rest) = (.ok (), rest) := rfl

theorem run_enforceTokenSize {σ : Type} (size : Nat) (start : SourceLocation) (state : σ) :
    (p.enforceTokenSize size start).run state =
      if size > p.options.maxTokenBytes then
        (.error (.thrown (.xmlParse
          ⟨.resourceLimit, start, "XML token exceeds max_token_bytes"⟩)), state)
      else (.ok (), state) := by
  unfold enforceTokenSize
  split <;> rfl

theorem enforceTokenSize_eq_ok_iff {σ : Type} {size : Nat} {start : SourceLocation}
    {state final : σ} {value : Unit} :
    (p.enforceTokenSize size start).run state = (.ok value, final) ↔
      size ≤ p.options.maxTokenBytes ∧ final = state := by
  rw [run_enforceTokenSize]
  split
  · simp; omega
  · simp [eq_comm]; omega

theorem run_expect (value : Nat) (description : String) (rest : List DecodedChar) :
    (p.expect value description).run rest =
      if peek rest != value then
        (.error (.thrown (.xmlParse
          ⟨.wellFormedness, p.location rest, "expected " ++ description⟩)), rest)
      else p.advance.run rest := by
  unfold expect
  rw [run_read_bind]
  split <;> rfl

theorem expect_eq_ok_iff {value : Nat} {description : String}
    {rest final : List DecodedChar} {result : Unit} :
    (p.expect value description).run rest = (.ok result, final) ↔
      ∃ c, c.value = value ∧ rest = c :: final := by
  rw [run_expect]
  cases rest with
  | nil => split <;> simp
  | cons c rest =>
      by_cases same : c.value = value
      · simp [same]
      · have differs : (peek (c :: rest) != value) = true := by simpa using same
        rw [if_pos differs]
        constructor
        · intro returned
          cases returned
        · rintro ⟨d, rfl, split⟩
          cases split
          exact absurd rfl same

theorem expectSequence_eq_ok_iff {text : List Nat} {description : String}
    {rest final : List DecodedChar} {result : Unit} :
    (p.expectSequence text description).run rest = (.ok result, final) ↔
      ∃ consumed, values consumed = text ∧ rest = consumed ++ final := by
  unfold expectSequence
  rw [run_read_bind]
  cases starts : startsWith text rest with
  | false =>
      simp only [Bool.not_false, if_true, run_fail, Prod.mk.injEq, reduceCtorEq, false_and,
        false_iff]
      rintro ⟨consumed, rfl, rfl⟩
      simp [startsWith_append] at starts
  | true =>
      obtain ⟨consumed, after, rfl, rfl⟩ := startsWith_split starts
      simp only [Bool.not_true, Bool.false_eq_true, if_false, run_modify, Prod.mk.injEq,
        true_and, values_length, List.drop_left]
      constructor
      · rintro rfl
        exact ⟨consumed, rfl, rfl⟩
      · rintro ⟨other, same, split⟩
        have lengths : other.length = consumed.length := by
          rw [← values_length, same, values_length]
        exact (List.append_inj split lengths.symm).2

end Parser

/-! ## Buffered loops -/

/-- The loop condition holds in front of each consumed character and fails
behind the last one. -/
def Passes (condition : List DecodedChar → Bool) :
    List DecodedChar → List DecodedChar → Prop
  | [], rest => condition rest = false
  | c :: consumed, rest =>
      condition (c :: (consumed ++ rest)) = true ∧ Passes condition consumed rest

section BufferedLoop

variable {β : Type} {condition : List DecodedChar → Bool} {body : β → Cursor β}
  {push : β → Nat → β} {Fits : β → Prop}

/-- The body of a scanning loop takes one character into its buffer. -/
structure Buffers (body : β → Cursor β) (push : β → Nat → β) (Fits : β → Prop) :
    Prop where
  cons : ∀ buffer c rest outcome final,
    (body buffer).run (c :: rest) = (.ok outcome, final) ↔
      outcome = push buffer c.value ∧ final = rest ∧ Fits outcome

theorem Buffers.consumes (buffers : Buffers body push Fits) (stops : condition [] = false) :
    Consumes List.length condition body := by
  intro current state following next holds ran
  cases state with
  | nil => simp [stops] at holds
  | cons c rest =>
      obtain ⟨_, rfl, _⟩ := (buffers.cons _ _ _ _ _).mp ran
      simp

/-- A buffered loop returns after the characters its condition passes, each
buffer on the way fitting. -/
theorem Buffers.whileLoop_eq_ok_iff (buffers : Buffers body push Fits)
    (stops : condition [] = false) {buffer result : β} {rest final : List DecodedChar} :
    (whileLoop List.length .outOfFuel condition body buffer).run rest = (.ok result, final) ↔
      ∃ consumed, rest = consumed ++ final ∧ Passes condition consumed final ∧
        result = (values consumed).foldl push buffer ∧
        ∀ taken, taken ≠ [] → taken <+: values consumed → Fits (taken.foldl push buffer) := by
  have consumes := buffers.consumes stops
  induction rest generalizing buffer with
  | nil =>
      rw [run_whileLoop_of_false consumes stops]
      constructor
      · intro returned
        obtain ⟨rfl, rfl⟩ : buffer = result ∧ [] = final := by simpa using returned
        exact ⟨[], rfl, stops, rfl, fun taken nonempty pfx => by simp_all⟩
      · rintro ⟨consumed, split, _, rfl, _⟩
        obtain ⟨rfl, rfl⟩ := List.nil_eq_append_iff.mp split
        rfl
  | cons c rest ih =>
      cases holds : condition (c :: rest) with
      | false =>
          rw [run_whileLoop_of_false consumes holds]
          constructor
          · intro returned
            obtain ⟨rfl, rfl⟩ : buffer = result ∧ c :: rest = final := by simpa using returned
            exact ⟨[], rfl, holds, rfl, fun taken nonempty pfx => by simp_all⟩
          · rintro ⟨consumed, split, passes, rfl, _⟩
            cases consumed with
            | nil => simpa using split
            | cons d consumed =>
                obtain ⟨rfl, rfl⟩ : c = d ∧ rest = consumed ++ final := by simpa using split
                simp [Passes, holds] at passes
      | true =>
          rw [run_whileLoop_of_true consumes holds, bind_eq_ok]
          constructor
          · rintro ⟨following, next, ran, returned⟩
            obtain ⟨rfl, rfl, fits⟩ := (buffers.cons _ _ _ _ _).mp ran
            obtain ⟨consumed, rfl, passes, rfl, allFit⟩ := ih.mp returned
            refine ⟨c :: consumed, rfl, ⟨holds, passes⟩, rfl, ?_⟩
            intro taken nonempty pfx
            cases taken with
            | nil => exact absurd rfl nonempty
            | cons d taken =>
                rw [values_cons, List.cons_prefix_cons] at pfx
                obtain ⟨rfl, pfx⟩ := pfx
                by_cases empty : taken = []
                · subst empty
                  exact fits
                · exact allFit taken empty pfx
          · rintro ⟨consumed, split, passes, rfl, allFit⟩
            cases consumed with
            | nil =>
                obtain rfl : c :: rest = final := by simpa using split
                simp [Passes, holds] at passes
            | cons d consumed =>
                obtain ⟨rfl, rfl⟩ : c = d ∧ rest = consumed ++ final := by simpa using split
                refine ⟨push buffer c.value, consumed ++ final, ?_, ih.mpr ?_⟩
                · exact (buffers.cons _ _ _ _ _).mpr
                    ⟨rfl, rfl, allFit [c.value] (by simp) (by simp)⟩
                · refine ⟨consumed, rfl, passes.2, rfl, fun taken nonempty pfx => ?_⟩
                  exact allFit (c.value :: taken) (by simp) (List.cons_prefix_cons.mpr ⟨rfl, pfx⟩)

end BufferedLoop

/-! ## The conditions of the loops -/

/-- No character to go on with. -/
def StopsAt (condition : Nat → Bool) (rest : List DecodedChar) : Prop :=
  ∀ c ∈ rest.head?, condition c.value = false

theorem passes_peek_iff {condition : Nat → Bool} {consumed rest : List DecodedChar} :
    Passes (fun rest => !eof rest && condition (peek rest)) consumed rest ↔
      (∀ value ∈ values consumed, condition value = true) ∧ StopsAt condition rest := by
  induction consumed with
  | nil => cases rest <;> simp [Passes, StopsAt]
  | cons c consumed ih => simp [Passes, ih, and_assoc]

theorem Buffers.whilePeek_eq_ok_iff {β : Type} {condition : Nat → Bool} {body : β → Cursor β}
    {push : β → Nat → β} {Fits : β → Prop} (buffers : Buffers body push Fits)
    {buffer result : β} {rest final : List DecodedChar} :
    (Parser.whilePeek condition body buffer).run rest = (.ok result, final) ↔
      ∃ consumed, rest = consumed ++ final ∧
        ((∀ value ∈ values consumed, condition value = true) ∧ StopsAt condition final) ∧
        result = (values consumed).foldl push buffer ∧
        ∀ taken, taken ≠ [] → taken <+: values consumed → Fits (taken.foldl push buffer) := by
  refine (buffers.whileLoop_eq_ok_iff rfl).trans ?_
  simp only [passes_peek_iff]

theorem passes_notAt_iff {stop : List Nat} {consumed rest : List DecodedChar}
    (stopped : stop <+: values rest) :
    Passes (fun rest => !eof rest && !startsWith stop rest) consumed rest ↔
      Avoids stop (values consumed) (values rest) := by
  induction consumed with
  | nil => simp [Passes, Avoids, startsWith_iff.mpr stopped]
  | cons c consumed ih =>
      simp only [Passes, Avoids, values_cons, eof_cons, Bool.not_false, Bool.true_and,
        Bool.not_eq_true', startsWith_eq_false_iff, values_append, ih]

theorem avoids_cdataClose (body tail : List Nat) :
    Avoids (u32 "]]>") body (u32 "]]>" ++ tail) ↔ ¬ u32 "]]>" <:+: body :=
  Grammar.avoids_cdataClose_iff body tail

theorem avoids_hyphens (body tail : List Nat) :
    Avoids (u32 "--") body (u32 "-->" ++ tail) ↔ ¬ u32 "--" <:+: body ++ [0x2D] :=
  Grammar.avoids_hyphens_iff body (0x3E :: tail)

/-! ## The bodies of the loops -/

theorem foldl_utf8 (text : Bytes) (body : List Nat) :
    body.foldl (fun text value => appendUtf8 text value) text = text ++ utf8 body := by
  induction body generalizing text with
  | nil => simp [utf8]
  | cons value body ih =>
      rw [List.foldl_cons, ih, appendUtf8, List.append_assoc]
      rfl

theorem foldl_push (buffer body : List Nat) :
    body.foldl (fun buffer value => buffer ++ [value]) buffer = buffer ++ body := by
  induction body generalizing buffer with
  | nil => simp
  | cons value body ih => simp [ih]

theorem utf8_length_mono {taken body : List Nat} (pfx : taken <+: body) :
    (utf8 taken).length ≤ (utf8 body).length := by
  obtain ⟨rest, rfl⟩ := pfx
  simp [utf8_append]

namespace Parser

variable (p : Parser)

theorem advance_buffers :
    Buffers (fun _ : Unit => p.advance) (fun _ _ => ()) (fun _ => True) where
  cons := by simp [eq_comm]

theorem takePeek_buffers :
    Buffers p.takePeek (fun text value => appendUtf8 text value) (fun _ => True) where
  cons := by
    intro buffer c rest outcome final
    rw [takePeek, run_read_bind, run_bind, run_advance_cons]
    simp only [run_pure, peek_cons, Prod.mk.injEq, Except.ok.injEq, and_true, eq_comm]

theorem appendPeek_buffers (start : SourceLocation) :
    Buffers (p.appendPeek start) (fun text value => appendUtf8 text value)
      (fun text => text.length ≤ p.options.maxTokenBytes) where
  cons := by
    intro buffer c rest outcome final
    simp only [appendPeek, run_read_bind, peek_cons, bind_eq_ok, enforceTokenSize_eq_ok_iff,
      run_pure]
    constructor
    · rintro ⟨_, _, ⟨fits, rfl⟩, _, _, advanced, returned⟩
      simp only [run_advance_cons, Prod.mk.injEq, true_and] at advanced
      subst advanced
      obtain ⟨rfl, rfl⟩ : appendUtf8 buffer c.value = outcome ∧ rest = final := by
        simpa using returned
      exact ⟨rfl, rfl, fits⟩
    · rintro ⟨rfl, rfl, fits⟩
      exact ⟨(), _, ⟨fits, rfl⟩, (), _, rfl, rfl⟩

theorem pushPeek_buffers (start : SourceLocation) :
    Buffers (p.pushPeek start) (fun buffer value => buffer ++ [value])
      (fun buffer => buffer.length ≤ p.options.maxTokenBytes) where
  cons := by
    intro buffer c rest outcome final
    simp only [pushPeek, run_read_bind, peek_cons, bind_eq_ok, enforceTokenSize_eq_ok_iff,
      run_pure]
    constructor
    · rintro ⟨_, _, ⟨fits, rfl⟩, _, _, advanced, returned⟩
      simp only [run_advance_cons, Prod.mk.injEq, true_and] at advanced
      subst advanced
      obtain ⟨rfl, rfl⟩ : buffer ++ [c.value] = outcome ∧ rest = final := by
        simpa using returned
      exact ⟨rfl, rfl, fits⟩
    · rintro ⟨rfl, rfl, fits⟩
      exact ⟨(), _, ⟨fits, rfl⟩, (), _, rfl, rfl⟩

/-! ## The scanning members -/

theorem skipWhitespace_eq_ok_iff {rest final : List DecodedChar} {result : Unit} :
    p.skipWhitespace.run rest = (.ok result, final) ↔
      ∃ space, rest = space ++ final ∧ (∀ value ∈ values space, isSpace value = true) ∧
        StopsAt isSpace final := by
  refine p.advance_buffers.whilePeek_eq_ok_iff.trans ?_
  simp only [implies_true, and_true]

end Parser

/-! ## Spelling -/

theorem isSpace_iff {value : Nat} : isSpace value = true ↔ Grammar.IsSpace value := by
  simp [isSpace, Grammar.IsSpace, or_assoc]

theorem isNameStart_iff {value : Nat} :
    isNameStart value = true ↔ Grammar.NameStartChar value := by
  simp [isNameStart, Grammar.NameStartChar, or_assoc]

theorem isNameChar_iff {value : Nat} :
    isNameChar value = true ↔ Grammar.NameChar value := by
  simp [isNameChar, Grammar.NameChar, isNameStart_iff, or_assoc]

theorem isSpace_eq_false_iff {value : Nat} :
    isSpace value = false ↔ ¬ Grammar.IsSpace value := by
  rw [← isSpace_iff, Bool.not_eq_true]

theorem isNameChar_eq_false_iff {value : Nat} :
    isNameChar value = false ↔ ¬ Grammar.NameChar value := by
  rw [← isNameChar_iff, Bool.not_eq_true]

theorem spaces_iff {text : List Nat} :
    (∀ value ∈ text, isSpace value = true) ↔ Grammar.Spaces text := by
  simp [Grammar.Spaces, isSpace_iff]

theorem name_iff {text : List Nat} :
    Grammar.Name text ↔
      (∀ value ∈ text, isNameChar value = true) ∧
        ∃ first ∈ text.head?, isNameStart first = true := by
  cases text with
  | nil => simp [Grammar.Name]
  | cons first rest =>
      simp only [Grammar.Name, List.mem_cons, forall_eq_or_imp, isNameChar_iff,
        List.head?_cons, Option.mem_def, Option.some.injEq, exists_eq_left', isNameStart_iff]
      constructor
      · rintro ⟨start, others⟩
        exact ⟨⟨.inl start, others⟩, start⟩
      · rintro ⟨⟨_, others⟩, start⟩
        exact ⟨start, others⟩

theorem nameChar_le {value : Nat} (nameChar : isNameChar value = true) :
    value ≤ 0x7F := by
  simp only [isNameChar, isNameStart, Bool.or_eq_true, Bool.and_eq_true, decide_eq_true_eq,
    beq_iff_eq] at nameChar
  omega

theorem Grammar.Name.legal {text : List Nat} (name : Grammar.Name text) (version : XmlVersion) :
    Legal version text := by
  intro c member
  have nameChar := (name_iff.mp name).1 c member
  simp only [isNameChar, isNameStart, Bool.or_eq_true, Bool.and_eq_true, decide_eq_true_eq,
    beq_iff_eq] at nameChar
  cases version with
  | xml10 =>
      simp only [isValidXmlChar, isValidXml10Char, reduceCtorEq, if_false, Bool.or_eq_true,
        Bool.and_eq_true, decide_eq_true_eq, beq_iff_eq]
      omega
  | xml11 =>
      simp only [isValidXmlChar, isValidXml11Char, if_true, Bool.or_eq_true, Bool.and_eq_true,
        decide_eq_true_eq]
      omega

/-- A name is spelled in ASCII, so both encodings of it agree. -/
theorem toAscii_eq_utf8 {text : List Nat} (small : ∀ value ∈ text, value ≤ 0x7F) :
    toAscii text = utf8 text := by
  induction text with
  | nil => rfl
  | cons value text ih =>
      have first : value ≤ 0x7F := small value List.mem_cons_self
      have rest := ih fun other member => small other (List.mem_cons_of_mem _ member)
      simp only [toAscii, utf8, List.map_cons, List.flatMap_cons] at rest ⊢
      rw [rest, utf8Unit, if_pos first, if_pos first]
      rfl

theorem Grammar.Name.toAscii {text : List Nat} (name : Grammar.Name text) :
    toAscii text = utf8 text :=
  toAscii_eq_utf8 fun value member => nameChar_le ((name_iff.mp name).1 value member)

namespace Parser

variable (p : Parser)

theorem parseName_eq_ok_iff {rest final : List DecodedChar} {name : Bytes} :
    p.parseName.run rest = (.ok name, final) ↔
      ∃ consumed, rest = consumed ++ final ∧ Grammar.Name (values consumed) ∧
        StopsAt isNameChar final ∧ name = utf8 (values consumed) ∧
        consumed.length ≤ p.options.maxTokenBytes := by
  have loop : ∀ buffer final, (whilePeek isNameChar (p.pushPeek (p.location rest)) []).run rest =
      (.ok buffer, final) ↔ _ :=
    fun buffer final => (p.pushPeek_buffers (p.location rest)).whilePeek_eq_ok_iff
  simp only [foldl_push, List.nil_append] at loop
  rw [parseName, run_read_bind, run_read_bind]
  cases start : isNameStart (peek rest) with
  | false =>
      simp only [Bool.not_false, if_true, run_fail, Prod.mk.injEq, reduceCtorEq, false_and,
        false_iff]
      rintro ⟨consumed, rfl, name, _⟩
      obtain ⟨first, head, starts⟩ := (name_iff.mp name).2
      cases consumed with
      | nil => simp at head
      | cons c consumed => simp_all
  | true =>
      simp only [Bool.not_true, Bool.false_eq_true, if_false, bind_eq_ok, run_pure,
        Prod.mk.injEq, Except.ok.injEq]
      constructor
      · rintro ⟨buffer, next, ran, rfl, rfl⟩
        obtain ⟨consumed, rfl, ⟨passed, stops⟩, rfl, fits⟩ := (loop buffer next).mp ran
        have nonempty : consumed ≠ [] := by
          rintro rfl
          cases next with
          | nil => simp [isNameStart] at start
          | cons c next =>
              have notName := stops c rfl
              simp [isNameChar, show isNameStart c.value = true from start] at notName
        have name : Grammar.Name (values consumed) := by
          refine name_iff.mpr ⟨passed, ?_⟩
          cases consumed with
          | nil => exact absurd rfl nonempty
          | cons c consumed => exact ⟨c.value, rfl, start⟩
        refine ⟨consumed, rfl, name, stops, name.toAscii, ?_⟩
        have whole := fits (values consumed) (by simpa [values] using nonempty) List.prefix_rfl
        simpa using whole
      · rintro ⟨consumed, rfl, name, stops, rfl, bound⟩
        refine ⟨values consumed, final, (loop _ _).mpr ⟨consumed, rfl,
          ⟨(name_iff.mp name).1, stops⟩, rfl, ?_⟩, name.toAscii, rfl⟩
        intro taken _ pfx
        have short := pfx.length_le
        rw [values_length] at short
        omega

theorem parseQuotedLiteral_eq_ok_iff {rest final : List DecodedChar} {value : Bytes} :
    p.parseQuotedLiteral.run rest = (.ok value, final) ↔
      ∃ consumed quote body, rest = consumed ++ final ∧
        values consumed = quote :: (body ++ [quote]) ∧ (quote = 0x27 ∨ quote = 0x22) ∧
        quote ∉ body ∧ value = utf8 body := by
  have loop : ∀ quote rest text next, (whilePeek (· != quote) p.takePeek []).run rest =
      (.ok text, next) ↔ _ :=
    fun quote rest text next => p.takePeek_buffers.whilePeek_eq_ok_iff
  simp only [foldl_utf8, List.nil_append, implies_true, and_true] at loop
  rw [parseQuotedLiteral, run_read_bind]
  cases rest with
  | nil =>
      simp only [peek_nil, Nat.reduceBNe, Bool.and_self, if_true, run_fail, Prod.mk.injEq,
        reduceCtorEq, false_and, false_iff]
      rintro ⟨consumed, quote, body, split, spelled, _⟩
      obtain ⟨rfl, rfl⟩ := List.nil_eq_append_iff.mp split
      cases spelled
  | cons c rest =>
      by_cases quoted : c.value = 0x27 ∨ c.value = 0x22
      · have test : ((c.value != 0x27) && (c.value != 0x22)) = false := by
          rcases quoted with same | same <;> simp [same]
        simp only [peek_cons, test, Bool.false_eq_true, if_false, bind_eq_ok, run_pure,
          expect_eq_ok_iff, run_advance_cons]
        constructor
        · rintro ⟨_, _, advanced, text, next, ran, _, after, ⟨closing, same, rfl⟩, returned⟩
          cases advanced
          cases returned
          obtain ⟨consumed, rfl, ⟨passed, _⟩, rfl⟩ := (loop _ _ _ _).mp ran
          refine ⟨c :: (consumed ++ [closing]), c.value, values consumed, by simp,
            by simp [same], quoted, ?_, rfl⟩
          intro member
          simpa using passed _ member
        · rintro ⟨consumed, quote, body, split, spelled, _, absent, rfl⟩
          cases consumed with
          | nil => simp at spelled
          | cons d consumed =>
              obtain ⟨rfl, rfl⟩ : c = d ∧ rest = consumed ++ final := by simpa using split
              obtain ⟨rfl, spelled⟩ : c.value = quote ∧ values consumed = body ++ [quote] := by
                simpa using spelled
              obtain ⟨inner, closing, rfl, rfl, last⟩ := values_eq_append spelled
              obtain ⟨e, rfl⟩ : ∃ e, closing = [e] := by
                apply List.length_eq_one_iff.mp
                rw [← values_length, last, List.length_singleton]
              have closes : e.value = c.value := by simpa using last
              refine ⟨(), _, rfl, utf8 (values inner), e :: final,
                (loop _ _ _ _).mpr ⟨inner, by simp, ⟨?_, ?_⟩, rfl⟩,
                (), final, ⟨e, closes, rfl⟩, rfl⟩
              · intro value member
                have different : value ≠ c.value := fun same => absent (same ▸ member)
                simpa using different
              · intro f head
                obtain rfl : e = f := by simpa using head
                simpa using closes
      · have test : ((c.value != 0x27) && (c.value != 0x22)) = true := by
          simpa [not_or] using quoted
        simp only [peek_cons, test, if_true, run_fail, Prod.mk.injEq, reduceCtorEq, false_and,
          false_iff]
        rintro ⟨consumed, quote, body, split, spelled, delimiter, _⟩
        cases consumed with
        | nil => simp at spelled
        | cons d consumed => simp_all

/-! ## Comments and CDATA sections -/

/-- A loop that appends characters up to a closing text, and fails where its
condition does not hold in front of one. -/
structure ScansUpTo (round : Bytes → Cursor (LoopStep Bytes Bytes)) (stop : List Nat)
    (condition : List DecodedChar → Bool) : Prop where
  stop_ne_nil : stop ≠ []
  at_stop : ∀ text rest, startsWith stop rest = true →
    (round text).run rest = (.ok (.done text), rest.drop stop.length)
  append : ∀ text c rest step final, startsWith stop (c :: rest) = false →
    ((round text).run (c :: rest) = (.ok step, final) ↔
      condition (c :: rest) = true ∧ step = .next (appendUtf8 text c.value) ∧ final = rest ∧
        (appendUtf8 text c.value).length ≤ p.options.maxTokenBytes)
  at_end : ∀ text step final, startsWith stop [] = false →
    (round text).run [] ≠ (.ok step, final)

section ScansUpTo

variable {p} {round : Bytes → Cursor (LoopStep Bytes Bytes)} {stop : List Nat}
  {condition : List DecodedChar → Bool}

theorem ScansUpTo.shrinks (scans : p.ScansUpTo round stop condition) :
    Shrinks (fun _ => List.length) round := by
  intro text rest following next ran
  cases starts : startsWith stop rest with
  | true => simp [scans.at_stop text rest starts] at ran
  | false =>
      cases rest with
      | nil => exact absurd ran (scans.at_end _ _ _ starts)
      | cons c rest =>
          obtain ⟨_, _, rfl, _⟩ := (scans.append _ _ _ _ _ starts).mp ran
          simp

theorem ScansUpTo.loop_eq_ok_iff (scans : p.ScansUpTo round stop condition)
    {text result : Bytes} {rest final : List DecodedChar}
    (fits : text.length ≤ p.options.maxTokenBytes) :
    (loop (fun _ => List.length) .outOfFuel round text).run rest = (.ok result, final) ↔
      ∃ consumed closing, rest = consumed ++ (closing ++ final) ∧ values closing = stop ∧
        Passes (fun rest => !startsWith stop rest && condition rest) consumed
          (closing ++ final) ∧
        result = text ++ utf8 (values consumed) ∧
        result.length ≤ p.options.maxTokenBytes := by
  induction rest generalizing text with
  | nil =>
      have starts : startsWith stop [] = false := by
        rw [startsWith_eq_false_iff]
        simpa using scans.stop_ne_nil
      constructor
      · intro returned
        cases ran : (round text).run [] with
        | mk outcome next =>
            rw [run_loop scans.shrinks, ran] at returned
            cases outcome with
            | error error => cases returned
            | ok step => exact absurd ran (scans.at_end _ _ _ starts)
      · rintro ⟨consumed, closing, split, spelled, _⟩
        obtain ⟨rfl, rest⟩ := List.nil_eq_append_iff.mp split
        obtain ⟨rfl, rfl⟩ := List.append_eq_nil_iff.mp rest
        exact absurd spelled.symm scans.stop_ne_nil
  | cons c rest ih =>
      cases starts : startsWith stop (c :: rest) with
      | true =>
          rw [run_loop_of_done scans.shrinks (scans.at_stop text _ starts)]
          obtain ⟨closing, after, split, spelled⟩ := startsWith_split starts
          have dropped : (closing ++ after).drop stop.length = after := by
            rw [← spelled, values_length, List.drop_left]
          rw [split, dropped]
          constructor
          · intro returned
            cases returned
            refine ⟨[], closing, rfl, spelled, ?_, by simp, fits⟩
            simp [Passes, ← spelled, startsWith_append]
          · rintro ⟨consumed, other, same, spelledToo, passes, rfl, _⟩
            cases consumed with
            | nil =>
                have lengths : closing.length = other.length := by
                  rw [← values_length, spelled, ← spelledToo, values_length]
                obtain ⟨_, rfl⟩ := List.append_inj (by simpa using same) lengths
                simp
            | cons d consumed =>
                have front : (d :: (consumed ++ (other ++ final))) = closing ++ after := by
                  rw [same]
                  rfl
                simp [Passes, front, ← spelled, startsWith_append] at passes
      | false =>
          constructor
          · intro returned
            cases ran : (round text).run (c :: rest) with
            | mk outcome next =>
                cases outcome with
                | error error =>
                    rw [run_loop_of_error scans.shrinks ran] at returned
                    cases returned
                | ok step =>
                    obtain ⟨holds, rfl, rfl, bound⟩ := (scans.append _ _ _ _ _ starts).mp ran
                    rw [run_loop_of_next scans.shrinks ran] at returned
                    obtain ⟨consumed, closing, rfl, spelled, passes, rfl, bounded⟩ :=
                      (ih bound).mp returned
                    refine ⟨c :: consumed, closing, rfl, spelled, ⟨?_, passes⟩, ?_, bounded⟩
                    · simp only [starts, holds, Bool.not_false, Bool.and_self]
                    · simp [appendUtf8, utf8]
          · rintro ⟨consumed, closing, split, spelled, passes, rfl, bounded⟩
            cases consumed with
            | nil =>
                rw [List.nil_append] at split
                rw [split, ← spelled, startsWith_append] at starts
                cases starts
            | cons d consumed =>
                obtain ⟨rfl, rfl⟩ : c = d ∧ rest = consumed ++ (closing ++ final) := by
                  simpa using split
                have bound : (appendUtf8 text c.value).length ≤ p.options.maxTokenBytes := by
                  refine Nat.le_trans ?_ bounded
                  simp only [appendUtf8, values_cons, utf8, List.flatMap_cons,
                    List.length_append]
                  omega
                have holds : condition (c :: (consumed ++ (closing ++ final))) = true := by
                  have first := passes.1
                  simp only [Bool.and_eq_true] at first
                  exact first.2
                rw [run_loop_of_next scans.shrinks
                  ((scans.append _ _ _ _ _ starts).mpr ⟨holds, rfl, rfl, bound⟩)]
                refine (ih bound).mpr ⟨consumed, closing, rfl, spelled, passes.2, ?_, bounded⟩
                simp [appendUtf8, utf8]

end ScansUpTo

end Parser

/-! ## Comments, CDATA sections and processing instructions -/

namespace Parser

variable (p : Parser)

theorem commentRound_scans (start : SourceLocation) :
    p.ScansUpTo (p.commentRound start) (u32 "-->") (fun rest => !startsWith (u32 "--") rest) where
  stop_ne_nil := by decide
  at_stop := by
    intro text rest starts
    have more : eof rest = false := by
      cases rest with
      | nil => cases starts
      | cons c rest => rfl
    rw [commentRound, run_read_bind, more, if_neg Bool.false_ne_true, run_read_bind, starts,
      if_pos rfl, run_bind, expectSequence, run_read_bind, starts]
    rfl
  append := by
    intro text c rest step final starts
    rw [commentRound, run_read_bind, eof_cons, if_neg Bool.false_ne_true, run_read_bind, starts,
      if_neg Bool.false_ne_true, run_read_bind]
    cases hyphens : startsWith (u32 "--") (c :: rest) with
    | true => simp
    | false =>
        simp only [Bool.false_eq_true, if_false, bind_eq_ok, (p.appendPeek_buffers start).cons,
          run_pure, Prod.mk.injEq, Except.ok.injEq, Bool.not_false, true_and]
        constructor
        · rintro ⟨_, _, ⟨rfl, rfl, fits⟩, rfl, rfl⟩
          exact ⟨rfl, rfl, fits⟩
        · rintro ⟨rfl, rfl, fits⟩
          exact ⟨_, _, ⟨rfl, rfl, fits⟩, rfl, rfl⟩
  at_end := by
    intro text step final _ returned
    cases returned

theorem cdataRound_scans (start : SourceLocation) :
    p.ScansUpTo (p.cdataRound start) (u32 "]]>") (fun _ => true) where
  stop_ne_nil := by decide
  at_stop := by
    intro text rest starts
    have more : eof rest = false := by
      cases rest with
      | nil => cases starts
      | cons c rest => rfl
    rw [cdataRound, run_read_bind, more, if_neg Bool.false_ne_true, run_read_bind, starts,
      if_pos rfl, run_bind, expectSequence, run_read_bind, starts]
    rfl
  append := by
    intro text c rest step final starts
    rw [cdataRound, run_read_bind, eof_cons, if_neg Bool.false_ne_true, run_read_bind, starts,
      if_neg Bool.false_ne_true]
    simp only [bind_eq_ok, (p.appendPeek_buffers start).cons, run_pure, Prod.mk.injEq,
      Except.ok.injEq, true_and]
    constructor
    · rintro ⟨_, _, ⟨rfl, rfl, fits⟩, rfl, rfl⟩
      exact ⟨rfl, rfl, fits⟩
    · rintro ⟨rfl, rfl, fits⟩
      exact ⟨_, _, ⟨rfl, rfl, fits⟩, rfl, rfl⟩
  at_end := by
    intro text step final _ returned
    cases returned

end Parser

/-- In front of the close of a comment, the two tests of its loop are one. -/
theorem passes_comment_iff {consumed rest : List DecodedChar}
    (stopped : u32 "-->" <+: values rest) :
    Passes (fun rest => !startsWith (u32 "-->") rest && !startsWith (u32 "--") rest)
        consumed rest ↔
      Avoids (u32 "--") (values consumed) (values rest) := by
  induction consumed with
  | nil => simp [Passes, Avoids, startsWith_iff.mpr stopped]
  | cons c consumed ih =>
      simp only [Passes, Avoids, values_cons, Bool.and_eq_true, Bool.not_eq_true',
        startsWith_eq_false_iff, values_append, ih]
      refine and_congr_left fun _ => and_iff_right_of_imp fun hyphens close => ?_
      exact hyphens (List.IsPrefix.trans ⟨u32 ">", rfl⟩ close)

theorem passes_cdata_iff {consumed rest : List DecodedChar}
    (stopped : u32 "]]>" <+: values rest) :
    Passes (fun rest => !startsWith (u32 "]]>") rest && true) consumed rest ↔
      Avoids (u32 "]]>") (values consumed) (values rest) := by
  induction consumed with
  | nil => simp [Passes, Avoids, startsWith_iff.mpr stopped]
  | cons c consumed ih =>
      simp only [Passes, Avoids, values_cons, Bool.and_true, Bool.not_eq_true',
        startsWith_eq_false_iff, values_append]
      rw [← ih]
      simp only [Bool.and_true]

namespace Parser

variable (p : Parser)

theorem scanComment_eq_ok_iff {rest final : List DecodedChar} {text : Bytes} :
    p.scanComment.run rest = (.ok text, final) ↔
      ∃ consumed body, rest = consumed ++ final ∧
        values consumed = Grammar.renderComment body ∧
        (¬ [0x2D, 0x2D] <:+: body ++ [0x2D]) ∧ text = utf8 body ∧
        text.length ≤ p.options.maxTokenBytes := by
  rw [scanComment, run_read_bind]
  simp only [bind_eq_ok, expectSequence_eq_ok_iff]
  have ends : ∀ next, (loop (fun _ => List.length) .outOfFuel
      (p.commentRound (p.location rest)) []).run next = (.ok text, final) ↔ _ :=
    fun next => (p.commentRound_scans (p.location rest)).loop_eq_ok_iff
      (show ([] : Bytes).length ≤ _ from Nat.zero_le _)
  constructor
  · rintro ⟨_, _, ⟨opening, opened, rfl⟩, ran⟩
    obtain ⟨consumed, closing, rfl, closed, passes, rfl, fits⟩ := (ends _).mp ran
    rw [passes_comment_iff (by simp [closed])] at passes
    rw [values_append, closed, avoids_hyphens] at passes
    refine ⟨opening ++ (consumed ++ closing), values consumed, by simp, ?_, passes, rfl, fits⟩
    simp only [values_append, opened, closed, Grammar.renderComment, List.append_assoc]
    rfl
  · rintro ⟨consumed, body, rfl, rendered, hyphens, rfl, fits⟩
    rw [Grammar.renderComment, List.append_assoc] at rendered
    obtain ⟨opening, others, rfl, opened, rendered⟩ := values_eq_append rendered
    obtain ⟨inner, closing, rfl, rfl, closed⟩ := values_eq_append rendered
    refine ⟨(), inner ++ closing ++ final, ⟨opening, opened, by simp⟩,
      (ends _).mpr ⟨inner, closing, by simp, closed, ?_, rfl, fits⟩⟩
    have closes : u32 "-->" <+: values (closing ++ final) := by
      rw [values_append, closed]
      exact List.prefix_append _ _
    rw [passes_comment_iff closes, values_append, closed]
    exact (avoids_hyphens _ _).mpr hyphens

theorem scanCdata_eq_ok_iff {rest final : List DecodedChar} {text : Bytes} :
    p.scanCdata.run rest = (.ok text, final) ↔
      ∃ consumed body, rest = consumed ++ final ∧
        values consumed = Grammar.renderCdata body ∧
        (¬ [0x5D, 0x5D, 0x3E] <:+: body) ∧ text = utf8 body ∧
        text.length ≤ p.options.maxTokenBytes := by
  rw [scanCdata, run_read_bind]
  simp only [bind_eq_ok, expectSequence_eq_ok_iff]
  have ends : ∀ next, (loop (fun _ => List.length) .outOfFuel
      (p.cdataRound (p.location rest)) []).run next = (.ok text, final) ↔ _ :=
    fun next => (p.cdataRound_scans (p.location rest)).loop_eq_ok_iff
      (show ([] : Bytes).length ≤ _ from Nat.zero_le _)
  constructor
  · rintro ⟨_, _, ⟨opening, opened, rfl⟩, ran⟩
    obtain ⟨consumed, closing, rfl, closed, passes, rfl, fits⟩ := (ends _).mp ran
    rw [passes_cdata_iff (by simp [closed])] at passes
    rw [values_append, closed, avoids_cdataClose] at passes
    refine ⟨opening ++ (consumed ++ closing), values consumed, by simp, ?_, passes, rfl, fits⟩
    simp only [values_append, opened, closed, Grammar.renderCdata, List.append_assoc]
    rfl
  · rintro ⟨consumed, body, rfl, rendered, close, rfl, fits⟩
    rw [Grammar.renderCdata, List.append_assoc] at rendered
    obtain ⟨opening, others, rfl, opened, rendered⟩ := values_eq_append rendered
    obtain ⟨inner, closing, rfl, rfl, closed⟩ := values_eq_append rendered
    refine ⟨(), inner ++ closing ++ final, ⟨opening, opened, by simp⟩,
      (ends _).mpr ⟨inner, closing, by simp, closed, ?_, rfl, fits⟩⟩
    have closes : u32 "]]>" <+: values (closing ++ final) := by
      rw [values_append, closed]
      exact List.prefix_append _ _
    rw [passes_cdata_iff closes, values_append, closed]
    exact (avoids_cdataClose _ _).mpr close

end Parser

theorem lowered_eq_iff : ∀ lower ∈ [0x6C, 0x6D, 0x78], ∀ value < 0x80,
    ((if 0x41 ≤ UInt8.ofNat value && UInt8.ofNat value ≤ 0x5A then
        UInt8.ofNat value - 0x41 + 0x61 else UInt8.ofNat value) = UInt8.ofNat lower ↔
      value = lower - 0x20 ∨ value = lower) := by
  decide +kernel

/-- The test of a lowered target is the reserved target of the grammar. -/
theorem lowercaseAscii_eq_xml_iff {name : List Nat} (spelled : Grammar.Name name) :
    (lowercaseAscii (utf8 name) == ascii "xml") = true ↔ Grammar.ReservedTarget name := by
  rw [beq_iff_eq, ← spelled.toAscii]
  have small : ∀ value ∈ name, value ≤ 0x7F :=
    fun value member => nameChar_le ((name_iff.mp spelled).1 value member)
  change (_ : Bytes) = [UInt8.ofNat 0x78, UInt8.ofNat 0x6D, UInt8.ofNat 0x6C] ↔ _
  rcases name with _ | ⟨x, _ | ⟨m, _ | ⟨l, _ | ⟨_, _⟩⟩⟩⟩
  · simp [toAscii, lowercaseAscii, Grammar.ReservedTarget]
  · simp [toAscii, lowercaseAscii, Grammar.ReservedTarget]
  · simp [toAscii, lowercaseAscii, Grammar.ReservedTarget]
  · have xLetter := lowered_eq_iff 0x78 (by simp) x (Nat.lt_succ_of_le (small x (by simp)))
    have mLetter := lowered_eq_iff 0x6D (by simp) m (Nat.lt_succ_of_le (small m (by simp)))
    have lLetter := lowered_eq_iff 0x6C (by simp) l (Nat.lt_succ_of_le (small l (by simp)))
    simp only [toAscii, lowercaseAscii, List.map_cons, List.map_nil, small x (by simp),
      small m (by simp), small l (by simp), if_true, List.cons.injEq, and_true, xLetter, mLetter,
      lLetter, Grammar.ReservedTarget]
    constructor
    · rintro ⟨first, second, third⟩
      exact ⟨x, m, l, ⟨rfl, rfl, rfl⟩, first, second, third⟩
    · rintro ⟨_, _, _, ⟨rfl, rfl, rfl⟩, first, second, third⟩
      exact ⟨first, second, third⟩
  · simp [toAscii, lowercaseAscii, Grammar.ReservedTarget]

theorem stopsAt_append {condition : Nat → Bool} {consumed rest : List DecodedChar} :
    StopsAt condition (consumed ++ rest) ↔
      (∀ value ∈ (values consumed).head?, condition value = false) ∧
        (consumed = [] → StopsAt condition rest) := by
  cases consumed with
  | nil => simp
  | cons c consumed => simp [StopsAt]

theorem whileNotAt_appendPeek_eq_ok_iff (p : Parser) {stop : List Nat}
    {start : SourceLocation} {rest final : List DecodedChar} {text : Bytes}
    (stopped : stop <+: values final) :
    (Parser.whileNotAt stop (p.appendPeek start) []).run rest = (.ok text, final) ↔
      ∃ consumed, rest = consumed ++ final ∧ Avoids stop (values consumed) (values final) ∧
        text = utf8 (values consumed) ∧ text.length ≤ p.options.maxTokenBytes := by
  refine ((p.appendPeek_buffers start).whileLoop_eq_ok_iff rfl).trans ?_
  simp only [passes_notAt_iff stopped, foldl_utf8, List.nil_append]
  constructor
  · rintro ⟨consumed, rfl, avoids, rfl, fits⟩
    refine ⟨consumed, rfl, avoids, rfl, ?_⟩
    by_cases empty : values consumed = []
    · simp [empty]
    · exact fits _ empty List.prefix_rfl
  · rintro ⟨consumed, rfl, avoids, rfl, fits⟩
    refine ⟨consumed, rfl, avoids, rfl, fun taken _ pfx => ?_⟩
    exact Nat.le_trans (utf8_length_mono pfx) fits

theorem Parser.scanProcessingInstruction_eq_ok_iff (p : Parser)
    {rest final : List DecodedChar} {result : Bytes × Bytes} :
    p.scanProcessingInstruction.run rest = (.ok result, final) ↔
      ∃ consumed target gap data, rest = consumed ++ final ∧
        values consumed = Grammar.renderInstruction target gap data ∧
        Grammar.Name target ∧ ¬ Grammar.ReservedTarget target ∧ Grammar.Spaces gap ∧
        (¬ [0x3F, 0x3E] <:+: data) ∧ (∀ c ∈ data.head?, ¬ Grammar.IsSpace c) ∧
        (gap = [] → ∀ c ∈ data.head?, ¬ Grammar.NameChar c) ∧
        result = (utf8 target, utf8 data) ∧ target.length ≤ p.options.maxTokenBytes ∧
        (utf8 data).length ≤ p.options.maxTokenBytes := by
  rw [scanProcessingInstruction, run_read_bind]
  simp only [bind_eq_ok, expectSequence_eq_ok_iff, parseName_eq_ok_iff]
  constructor
  · rintro ⟨_, _, ⟨opening, opened, rfl⟩, _, _, ⟨name, rfl, named, follows, rfl, short⟩, ran⟩
    split at ran
    · cases ran
    · rename_i lowered
      have reserved := fun reserved => lowered ((lowercaseAscii_eq_xml_iff named).mpr reserved)
      simp only [bind_eq_ok, skipWhitespace_eq_ok_iff, expectSequence_eq_ok_iff, run_pure,
        Prod.mk.injEq, Except.ok.injEq] at ran
      obtain ⟨_, _, ⟨space, rfl, spaces, notSpace⟩, _, _, scanned, _, after,
        ⟨closing, closed, rfl⟩, rfl, rfl⟩ := ran
      have stopped : u32 "?>" <+: values (closing ++ after) := by simp [closed]
      obtain ⟨body, rfl, avoids, rfl, fits⟩ := (whileNotAt_appendPeek_eq_ok_iff p stopped).mp scanned
      rw [values_append, closed] at avoids
      refine ⟨opening ++ (name ++ (space ++ (body ++ closing))), values name, values space,
        values body, by simp, ?_, named, reserved, spaces_iff.mp spaces,
        (avoids_pair_iff (by decide) _ _).mp avoids, ?_, ?_, rfl, by simpa using short, fits⟩
      · simp only [values_append, opened, closed, Grammar.renderInstruction, List.append_assoc]
        rfl
      · intro c head
        exact isSpace_eq_false_iff.mp ((stopsAt_append.mp notSpace).1 c head)
      · intro empty c head
        have bodyFollows := (stopsAt_append.mp follows).2 (by simpa [values] using empty)
        exact isNameChar_eq_false_iff.mp ((stopsAt_append.mp bodyFollows).1 c head)
  · rintro ⟨consumed, target, gap, data, rfl, rendered, named, reserved, spaces, close, start,
      joined, rfl, short, fits⟩
    simp only [Grammar.renderInstruction, List.append_assoc] at rendered
    obtain ⟨opening, afterOpening, rfl, opened, named'⟩ := values_eq_append rendered
    obtain ⟨name, afterName, rfl, rfl, spaced⟩ := values_eq_append named'
    obtain ⟨space, afterSpace, rfl, rfl, bodied⟩ := values_eq_append spaced
    obtain ⟨body, closing, rfl, rfl, closed⟩ := values_eq_append bodied
    have stopped : u32 "?>" <+: values (closing ++ final) := by
      rw [values_append, closed]
      exact List.prefix_append _ _
    have closingStops : ∀ condition : Nat → Bool, condition 0x3F = false →
        StopsAt condition (closing ++ final) := by
      intro condition stops
      refine stopsAt_append.mpr ⟨?_, ?_⟩
      · simpa [closed] using stops
      · rintro rfl
        cases closed
    refine ⟨(), name ++ (space ++ (body ++ (closing ++ final))), ⟨opening, opened, by simp⟩,
      _, space ++ (body ++ (closing ++ final)), ⟨name, rfl, named, ?_, rfl, by simpa using short⟩, ?_⟩
    · refine stopsAt_append.mpr ⟨?_, fun empty => stopsAt_append.mpr ⟨?_, fun _ => ?_⟩⟩
      · intro c head
        rcases spaces c (List.mem_of_mem_head? head) with rfl | rfl | rfl | rfl <;> decide
      · intro c head
        exact isNameChar_eq_false_iff.mpr (joined (by simp [empty]) c head)
      · exact closingStops _ (by decide)
    · rw [if_neg (mt (lowercaseAscii_eq_xml_iff named).mp reserved)]
      simp only [bind_eq_ok, skipWhitespace_eq_ok_iff, expectSequence_eq_ok_iff, run_pure,
        Prod.mk.injEq, Except.ok.injEq]
      refine ⟨(), _, ⟨space, rfl, spaces_iff.mpr spaces, stopsAt_append.mpr ⟨?_, fun _ => ?_⟩⟩,
        _, _, (whileNotAt_appendPeek_eq_ok_iff p stopped).mpr ⟨body, rfl, ?_, rfl, fits⟩,
        (), final, ⟨closing, closed, rfl⟩, ⟨trivial, rfl⟩, rfl⟩
      · intro c head
        exact isSpace_eq_false_iff.mpr (start c head)
      · exact closingStops _ (by decide)
      · rw [values_append, closed]
        exact (avoids_pair_iff (by decide) _ _).mpr close

end XmlParser
