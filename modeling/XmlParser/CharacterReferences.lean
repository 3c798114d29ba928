import XmlParser.Dialects
import XmlParser.Utf8
import XmlParser.ReferencesProperties

/-! The value of a character reference in unbounded arithmetic, and that the 32-bit
accumulator holds it. -/

set_option autoImplicit false

namespace XmlParser

open XmlParser.Computation

/-! ## Numerals -/

def IsDigit (ch : UInt8) (digit : Nat) : Prop :=
  (ascii "0123456789abcdef")[digit]? = some ch ∨ (ascii "0123456789ABCDEF")[digit]? = some ch

instance (ch : UInt8) (digit : Nat) : Decidable (IsDigit ch digit) :=
  inferInstanceAs (Decidable (_ ∨ _))

/-- A text of digits and the number it writes. -/
inductive Numeral (base : Nat) : Bytes → Nat → Prop where
  | empty : Numeral base [] 0
  | snoc {text : Bytes} {number : Nat} {ch : UInt8} {digit : Nat} :
      Numeral base text number → IsDigit ch digit → digit < base →
      Numeral base (text ++ [ch]) (number * base + digit)

theorem isDigit_lt {ch : UInt8} {digit : Nat} (isDigit : IsDigit ch digit) : digit < 16 := by
  cases isDigit with
  | inl found => exact (List.getElem?_eq_some_iff.mp found).1
  | inr found => exact (List.getElem?_eq_some_iff.mp found).1

theorem digitOf_eq_some_iff {ch : UInt8} {digit : Nat} :
    digitOf ch = some digit ↔ IsDigit ch digit := by
  have written : ∀ byte < 256, ∀ digit ∈ digitOf (UInt8.ofNat byte), IsDigit (UInt8.ofNat byte) digit := by
    decide +kernel
  have read : ∀ digit < 16, (∀ ch ∈ (ascii "0123456789abcdef")[digit]?, digitOf ch = some digit) ∧
      ∀ ch ∈ (ascii "0123456789ABCDEF")[digit]?, digitOf ch = some digit := by
    decide +kernel
  constructor
  · intro isRead
    rw [← UInt8.ofNat_toNat (x := ch)] at isRead ⊢
    exact written _ ch.toNat_lt digit isRead
  · intro isDigit
    have tests := read digit (isDigit_lt isDigit)
    cases isDigit with
    | inl small => exact tests.1 ch small
    | inr capital => exact tests.2 ch capital

theorem Numeral.digits {base : Nat} {text : Bytes} {number : Nat} (numeral : Numeral base text number) :
    ∀ ch ∈ text, ∃ digit < base, IsDigit ch digit := by
  induction numeral with
  | empty => exact fun _ member => absurd member List.not_mem_nil
  | snoc _ isDigit inBase ih =>
      intro ch member
      rw [List.mem_append, List.mem_singleton] at member
      cases member with
      | inl earlier => exact ih ch earlier
      | inr last => exact ⟨_, inBase, last ▸ isDigit⟩

theorem Numeral.unique {base : Nat} {text : Bytes} {number other : Nat}
    (numeral : Numeral base text number) (isOther : Numeral base text other) : number = other := by
  induction numeral generalizing other with
  | empty =>
      generalize same : ([] : Bytes) = text at isOther
      cases isOther with
      | empty => rfl
      | snoc => exact absurd same.symm (List.append_ne_nil_of_right_ne_nil _ (List.cons_ne_nil _ _))
  | @snoc text number ch digit _ isDigit _ ih =>
      generalize same : text ++ [ch] = whole at isOther
      cases isOther with
      | empty => exact absurd same (List.append_ne_nil_of_right_ne_nil _ (List.cons_ne_nil _ _))
      | snoc before isLast _ =>
          obtain ⟨rfl, rfl⟩ := List.append_singleton_inj.mp same
          have sameDigit := (digitOf_eq_some_iff.mpr isDigit).symm.trans (digitOf_eq_some_iff.mpr isLast)
          cases sameDigit
          rw [ih before]

/-! ## The accumulator -/

/-- The guard divides where the sum would need a 33rd bit. -/
theorem overflows_iff {base value digit : Nat} (positive : 0 < base) (small : digit < 2 ^ 32) :
    value > (2 ^ 32 - 1 - digit) / base ↔ 2 ^ 32 ≤ value * base + digit := by
  rw [gt_iff_lt, Nat.div_lt_iff_lt_mul positive]
  omega

/-- One round of the digit loop in unbounded arithmetic. -/
theorem accumulateDigits_cons {base value digit : Nat} {ch : UInt8} {rest : Bytes}
    (isDigit : IsDigit ch digit) (inBase : digit < base) :
    accumulateDigits base (ch :: rest) value =
      if value * base + digit < 2 ^ 32 then accumulateDigits base rest (value * base + digit)
      else .error "character reference overflow" := by
  have small : digit < 2 ^ 32 := Nat.lt_trans (isDigit_lt isDigit) (by decide)
  have guard : value > (2 ^ 32 - 1 - digit) / base ↔ 2 ^ 32 ≤ value * base + digit :=
    overflows_iff (Nat.zero_lt_of_lt inBase) small
  rw [accumulateDigits, digitOf_eq_some_iff.mpr isDigit]
  dsimp only
  rw [if_neg (by omega)]
  by_cases fits : value * base + digit < 2 ^ 32
  · rw [if_pos fits, if_neg (mt guard.mp (by omega)), Nat.mod_eq_of_lt fits]
  · rw [if_neg fits, if_pos (guard.mpr (by omega))]

/-- Behind a numeral the accumulator holds its number, unless the number has more
than 32 bits. -/
theorem accumulateDigits_append {base number : Nat} {text : Bytes} (numeral : Numeral base text number)
    (rest : Bytes) :
    accumulateDigits base (text ++ rest) 0 =
      if number < 2 ^ 32 then accumulateDigits base rest number
      else .error "character reference overflow" := by
  induction numeral generalizing rest with
  | empty => rfl
  | @snoc text number ch digit numeral isDigit inBase ih =>
      rw [List.append_assoc, List.singleton_append, ih, accumulateDigits_cons isDigit inBase]
      by_cases fits : number < 2 ^ 32
      · rw [if_pos fits]
      · have grown : number ≤ number * base := Nat.le_mul_of_pos_right _ (by omega)
        rw [if_neg fits, if_neg (by omega)]

theorem numeral_of_accumulateDigits {base number value : Nat} {before text : Bytes}
    (read : accumulateDigits base text value = .ok number) (numeral : Numeral base before value)
    (fits : value < 2 ^ 32) : Numeral base (before ++ text) number ∧ number < 2 ^ 32 := by
  induction text generalizing before value with
  | nil =>
      cases read
      rw [List.append_nil]
      exact ⟨numeral, fits⟩
  | cons ch rest ih =>
      cases found : digitOf ch with
      | none =>
          rw [accumulateDigits, found] at read
          cases read
      | some digit =>
          by_cases inBase : digit < base
          · have isDigit := digitOf_eq_some_iff.mp found
            rw [accumulateDigits_cons isDigit inBase] at read
            split at read
            · rename_i next
              have tail := ih read (numeral.snoc isDigit inBase) next
              rwa [List.append_assoc, List.singleton_append] at tail
            · cases read
          · rw [accumulateDigits, found] at read
            dsimp only at read
            rw [if_pos (by omega)] at read
            cases read

theorem accumulateDigits_eq_ok_iff_numeral {base number : Nat} {text : Bytes} :
    accumulateDigits base text 0 = .ok number ↔ Numeral base text number ∧ number < 2 ^ 32 := by
  constructor
  · intro read
    exact numeral_of_accumulateDigits read .empty (by decide)
  · intro ⟨numeral, fits⟩
    have behind := accumulateDigits_append numeral []
    rw [List.append_nil, if_pos fits] at behind
    exact behind

/-! ## References -/

/-- The numeral of a character reference and its number. -/
inductive ReferenceTo : Bytes → Nat → Prop where
  | decimal {text : Bytes} {number : Nat} :
      text ≠ [] → Numeral 10 text number → ReferenceTo (0x23 :: text) number
  | hexadecimal {mark : UInt8} {text : Bytes} {number : Nat} :
      mark = 0x78 ∨ mark = 0x58 → text ≠ [] → Numeral 16 text number →
      ReferenceTo (0x23 :: mark :: text) number

theorem not_numeral_mark {mark : UInt8} {text : Bytes} {number : Nat}
    (isMark : mark = 0x78 ∨ mark = 0x58) : ¬ Numeral 10 (mark :: text) number := by
  intro numeral
  obtain ⟨digit, inBase, isDigit⟩ := numeral.digits mark List.mem_cons_self
  have tests : ∀ digit < 10, ¬ IsDigit 0x78 digit ∧ ¬ IsDigit 0x58 digit := by decide +kernel
  cases isMark with
  | inl small => exact (tests digit inBase).1 (small ▸ isDigit)
  | inr capital => exact (tests digit inBase).2 (capital ▸ isDigit)

theorem isHexadecimal_cons {first mark : UInt8} {text : Bytes} :
    isHexadecimal (first :: mark :: text) = true ↔ text ≠ [] ∧ (mark = 0x78 ∨ mark = 0x58) := by
  cases text with
  | nil => simp [isHexadecimal]
  | cons ch text => simp [isHexadecimal]

theorem referenceTo_iff_of_hexadecimal {text : Bytes} {number : Nat} (marked : text.head? = some 0x23)
    (hexadecimal : isHexadecimal text = true) :
    ReferenceTo text number ↔ text.drop 2 ≠ [] ∧ Numeral 16 (text.drop 2) number := by
  rcases text with _ | ⟨first, _ | ⟨mark, text⟩⟩
  · cases marked
  · cases hexadecimal
  · cases marked
    obtain ⟨nonempty, isMark⟩ := isHexadecimal_cons.mp hexadecimal
    constructor
    · intro reference
      cases reference with
      | decimal _ numeral => exact absurd numeral (not_numeral_mark isMark)
      | hexadecimal _ nonempty numeral => exact ⟨nonempty, numeral⟩
    · intro ⟨nonempty, numeral⟩
      exact .hexadecimal isMark nonempty numeral

theorem referenceTo_iff_of_decimal {text : Bytes} {number : Nat} (marked : text.head? = some 0x23)
    (decimal : isHexadecimal text = false) :
    ReferenceTo text number ↔ text.drop 1 ≠ [] ∧ Numeral 10 (text.drop 1) number := by
  cases text with
  | nil => cases marked
  | cons first text =>
      cases marked
      constructor
      · intro reference
        cases reference with
        | decimal nonempty numeral => exact ⟨nonempty, numeral⟩
        | hexadecimal isMark nonempty _ =>
            rw [isHexadecimal_cons.mpr ⟨nonempty, isMark⟩] at decimal
            cases decimal
      · intro ⟨nonempty, numeral⟩
        exact .decimal nonempty numeral

theorem ReferenceTo.unique {text : Bytes} {number other : Nat} (reference : ReferenceTo text number)
    (isOther : ReferenceTo text other) : number = other := by
  have marked : text.head? = some 0x23 := by
    cases reference with
    | decimal => rfl
    | hexadecimal => rfl
  cases hexadecimal : isHexadecimal text with
  | true =>
      have numeral := (referenceTo_iff_of_hexadecimal marked hexadecimal).mp reference
      exact numeral.2.unique ((referenceTo_iff_of_hexadecimal marked hexadecimal).mp isOther).2
  | false =>
      have numeral := (referenceTo_iff_of_decimal marked hexadecimal).mp reference
      exact numeral.2.unique ((referenceTo_iff_of_decimal marked hexadecimal).mp isOther).2

/-! ## Legal characters and their encoding -/

/-- `Char` of the recommendation of a version. -/
def LegalChar : XmlVersion → Nat → Prop
  | .xml10 => Grammar.Char10
  | .xml11 => Grammar.Char11

theorem isValidXmlChar_iff {value : Nat} {version : XmlVersion} :
    isValidXmlChar value version = true ↔ LegalChar version value := by
  cases version with
  | xml10 => exact isValidXml10Char_iff
  | xml11 => exact isValidXml11Char_iff

theorem utf8_eq_utf8EncodeChar {value : Nat} (scalar : Scalar value) :
    utf8 [value] = String.utf8EncodeChar (Char.ofNat value) := by
  have valid : value.isValidChar := by
    unfold Scalar at scalar
    unfold Nat.isValidChar
    omega
  have same : (Char.ofNat value).val.toNat = value := by
    rw [Char.ofNat, dif_pos valid]
    rfl
  have limit := scalar.1
  unfold String.utf8EncodeChar utf8
  rw [List.flatMap_singleton]
  dsimp only
  rw [same]
  by_cases one : value ≤ 0x7F
  · rw [if_pos one, utf8Unit_one one]
  rw [if_neg one]
  by_cases two : value ≤ 0x7FF
  · have lead : value / 64 % 0x20 = value / 64 := Nat.mod_eq_of_lt (by omega)
    rw [if_pos two, utf8Unit_two (by omega) two, leadByte, trailByte, lead, Nat.add_comm 0xC0,
      Nat.add_comm 0x80]
  rw [if_neg two]
  by_cases three : value ≤ 0xFFFF
  · have lead : value / 4096 % 0x10 = value / 4096 := Nat.mod_eq_of_lt (by omega)
    rw [if_pos three, utf8Unit_three (by omega) three, leadByte, trailByte, trailByte, lead,
      Nat.add_comm 0xE0, Nat.add_comm 0x80, Nat.add_comm 0x80]
  · have lead : value / 262144 % 0x08 = value / 262144 := Nat.mod_eq_of_lt (by omega)
    rw [if_neg three, utf8Unit_four (by omega) limit, leadByte, trailByte, trailByte, trailByte,
      lead, Nat.add_comm 0xF0, Nat.add_comm 0x80, Nat.add_comm 0x80, Nat.add_comm 0x80]

namespace Parser

variable (p : Parser)

/-- A call reads the number of a reference to a legal character and refuses any
other text. -/
theorem readReference_run {σ : Type} {base offset : Nat} {text : Bytes}
    (isReference : ∀ number, ReferenceTo text number ↔
      text.drop offset ≠ [] ∧ Numeral base (text.drop offset) number)
    (start : SourceLocation) (s : σ) :
    let run := (if offset ≥ text.length then
        failAt .wellFormedness start "empty character reference"
      else
        match accumulateDigits base (text.drop offset) 0 with
        | .error message => failAt .wellFormedness start message
        | .ok number =>
            if !isValidXmlChar number p.options.version then
              failAt .wellFormedness start "character reference is not an XML character"
            else pure (appendUtf8 [] number) : Comp σ Halt Bytes).run s
    (∃ number, ReferenceTo text number ∧ isValidXmlChar number p.options.version = true ∧
        run = (.ok (utf8 [number]), s)) ∨
      ((∀ number, ReferenceTo text number → isValidXmlChar number p.options.version = false) ∧
        ∃ message, run = (.error (.thrown (.xmlParse ⟨.wellFormedness, start, message⟩)), s)) := by
  dsimp only
  by_cases short : offset ≥ text.length
  · rw [if_pos short]
    refine .inr ⟨fun number reference => ?_, _, rfl⟩
    exact absurd (List.drop_eq_nil_of_le short) ((isReference number).mp reference).1
  rw [if_neg short]
  have nonempty : text.drop offset ≠ [] := mt List.drop_eq_nil_iff.mp short
  cases read : accumulateDigits base (text.drop offset) 0 with
  | error message =>
      refine .inr ⟨fun number reference => Bool.eq_false_iff.mpr fun valid => ?_, _, rfl⟩
      have numeral := ((isReference number).mp reference).2
      have accepted := accumulateDigits_eq_ok_iff_numeral.mpr ⟨numeral, valid_lt valid⟩
      rw [read] at accepted
      cases accepted
  | ok number =>
      dsimp only
      have numeral := (accumulateDigits_eq_ok_iff_numeral.mp read).1
      have reference := (isReference number).mpr ⟨nonempty, numeral⟩
      cases valid : isValidXmlChar number p.options.version with
      | true =>
          have encoded : appendUtf8 [] number = utf8 [number] := by simp [appendUtf8, utf8]
          refine .inl ⟨number, reference, valid, ?_⟩
          rw [← encoded]
          rfl
      | false =>
          refine .inr ⟨fun other isOther => ?_, _, rfl⟩
          rw [isOther.unique reference]
          exact valid

theorem parseCharacterReference_run {σ : Type} {text : Bytes} (marked : text.head? = some 0x23)
    (start : SourceLocation) (s : σ) :
    let run := (p.parseCharacterReference text start : Comp σ Halt Bytes).run s
    (∃ number, ReferenceTo text number ∧ isValidXmlChar number p.options.version = true ∧
        run = (.ok (utf8 [number]), s)) ∨
      ((∀ number, ReferenceTo text number → isValidXmlChar number p.options.version = false) ∧
        ∃ message, run = (.error (.thrown (.xmlParse ⟨.wellFormedness, start, message⟩)), s)) := by
  unfold parseCharacterReference
  cases hexadecimal : isHexadecimal text with
  | true => exact p.readReference_run (fun _ => referenceTo_iff_of_hexadecimal marked hexadecimal) start s
  | false => exact p.readReference_run (fun _ => referenceTo_iff_of_decimal marked hexadecimal) start s

/-- A character reference is replaced by the encoding of its number if that is a legal
character, and is an error of well-formedness otherwise. The accumulator holds the number
of the digits read, and the guard stops it at the first number of more than 32 bits. -/
theorem characterReferenceExact (p : Parser) {σ : Type} {text : Bytes}
    (marked : text.head? = some 0x23) (start : SourceLocation) (s : σ) :
    (∀ value t, (p.parseCharacterReference text start).run s = (.ok value, t) ↔
      t = s ∧ ∃ number, ReferenceTo text number ∧ LegalChar p.options.version number ∧
        value = String.utf8EncodeChar (Char.ofNat number)) ∧
    ((¬ ∃ number, ReferenceTo text number ∧ LegalChar p.options.version number) →
      ∃ message, (p.parseCharacterReference text start : Comp σ Halt Bytes).run s =
        (.error (.thrown (.xmlParse ⟨.wellFormedness, start, message⟩)), s)) ∧
    (∀ base before rest number, Numeral base before number →
      accumulateDigits base (before ++ rest) 0 =
        if number < 2 ^ 32 then accumulateDigits base rest number
        else .error "character reference overflow") ∧
    ∀ base value digit, digit < base → base ≤ 16 →
      (value > (2 ^ 32 - 1 - digit) / base ↔ 2 ^ 32 ≤ value * base + digit) := by
  have encoded : ∀ number, isValidXmlChar number p.options.version = true →
      utf8 [number] = String.utf8EncodeChar (Char.ofNat number) :=
    fun _ valid => utf8_eq_utf8EncodeChar (scalar_of_valid valid)
  refine ⟨fun value t => ?_, fun illegal => ?_, fun base before rest number numeral =>
    accumulateDigits_append numeral rest, fun base value digit inBase small =>
    overflows_iff (by omega) (by omega)⟩
  · rcases p.parseCharacterReference_run marked start s with
      ⟨number, reference, valid, ran⟩ | ⟨illegal, message, ran⟩
    · rw [ran]
      constructor
      · intro same
        cases same
        exact ⟨rfl, number, reference, isValidXmlChar_iff.mp valid, encoded number valid⟩
      · intro ⟨same, other, isOther, legal, written⟩
        cases reference.unique isOther
        rw [same, written, encoded number valid]
    · rw [ran]
      constructor
      · intro same
        cases same
      · intro ⟨_, number, reference, legal, _⟩
        rw [← isValidXmlChar_iff, illegal number reference] at legal
        cases legal
  · rcases p.parseCharacterReference_run marked start s with
      ⟨number, reference, valid, ran⟩ | ⟨_, message, ran⟩
    · exact absurd ⟨number, reference, isValidXmlChar_iff.mp valid⟩ illegal
    · exact ⟨message, ran⟩

/-- Leading zeros change nothing, and `2 ^ 32 + 65` is not the letter with the number 65. -/
theorem characterReferenceExact_sample :
    (∃ number, ReferenceTo (ascii "#x00000000000041") number ∧ LegalChar .xml10 number ∧
      ascii "A" = String.utf8EncodeChar (Char.ofNat number)) ∧
    ¬ ∃ number, ReferenceTo (ascii "#4294967361") number ∧ LegalChar .xml10 number ∧
      ascii "A" = String.utf8EncodeChar (Char.ofNat number) := by
  let p : Parser := { options := {}, handler := ⟨fun _ => none⟩, endLocation := ⟨0, 1, 1⟩ }
  constructor
  · have exactly := (characterReferenceExact p (show (ascii "#x00000000000041").head? = some 0x23 by
      decide) ⟨0, 1, 1⟩ ()).1 (ascii "A") ()
    have returned : (p.parseCharacterReference (ascii "#x00000000000041") ⟨0, 1, 1⟩).run () =
        (.ok (ascii "A"), ()) := by decide +kernel
    exact (exactly.mp returned).2
  · have exactly := (characterReferenceExact p (show (ascii "#4294967361").head? = some 0x23 by
      decide) ⟨0, 1, 1⟩ ()).1 (ascii "A") ()
    have refused : (p.parseCharacterReference (ascii "#4294967361") ⟨0, 1, 1⟩).run () ≠
        (.ok (ascii "A"), ()) := by decide +kernel
    intro reference
    exact refused (exactly.mpr ⟨rfl, reference⟩)

end Parser

end XmlParser
