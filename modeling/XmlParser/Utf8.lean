import XmlParser.Decoder

/-! The UTF-8 encoder in arithmetic, and that the decoder reads back what the
encoder wrote. -/

set_option autoImplicit false

namespace XmlParser

/-! ## The encoder -/

def leadByte (mark value : Nat) : UInt8 := UInt8.ofNat (mark + value)

def trailByte (value : Nat) : UInt8 := UInt8.ofNat (0x80 + value % 64)

theorem trail_or (value : Nat) : 0x80 ||| (value &&& 0x3F) = 0x80 + value % 64 := by
  have masked : value &&& 0x3F = value % 64 := Nat.and_two_pow_sub_one_eq_mod value 6
  have small : value % 64 < 2 ^ 6 := Nat.mod_lt _ (by decide)
  rw [masked]
  exact (Nat.two_pow_add_eq_or_of_lt small 2).symm

theorem utf8Unit_one {value : Nat} (small : value ≤ 0x7F) :
    utf8Unit value = [UInt8.ofNat value] := by
  rw [utf8Unit, if_pos small]

theorem utf8Unit_two {value : Nat} (large : 0x7F < value) (small : value ≤ 0x7FF) :
    utf8Unit value = [leadByte 0xC0 (value / 64), trailByte value] := by
  have lead : 0xC0 ||| (value >>> 6) = 0xC0 + value / 64 := by
    rw [Nat.shiftRight_eq_div_pow]
    exact (Nat.two_pow_add_eq_or_of_lt (show value / 2 ^ 6 < 2 ^ 5 by omega) 6).symm
  rw [utf8Unit, if_neg (by omega), if_pos small, lead, trail_or]
  rfl

theorem utf8Unit_three {value : Nat} (large : 0x7FF < value) (small : value ≤ 0xFFFF) :
    utf8Unit value =
      [leadByte 0xE0 (value / 4096), trailByte (value / 64), trailByte value] := by
  have lead : 0xE0 ||| (value >>> 12) = 0xE0 + value / 4096 := by
    rw [Nat.shiftRight_eq_div_pow]
    exact (Nat.two_pow_add_eq_or_of_lt (show value / 2 ^ 12 < 2 ^ 4 by omega) 14).symm
  rw [utf8Unit, if_neg (by omega), if_neg (by omega), if_pos small, lead, trail_or, trail_or,
    Nat.shiftRight_eq_div_pow]
  rfl

theorem utf8Unit_four {value : Nat} (large : 0xFFFF < value) (small : value ≤ 0x10FFFF) :
    utf8Unit value =
      [leadByte 0xF0 (value / 262144), trailByte (value / 4096), trailByte (value / 64),
        trailByte value] := by
  have lead : 0xF0 ||| (value >>> 18) = 0xF0 + value / 262144 := by
    rw [Nat.shiftRight_eq_div_pow]
    exact (Nat.two_pow_add_eq_or_of_lt (show value / 2 ^ 18 < 2 ^ 3 by omega) 30).symm
  rw [utf8Unit, if_neg (by omega), if_neg (by omega), if_neg (by omega), lead, trail_or, trail_or,
    trail_or, Nat.shiftRight_eq_div_pow, Nat.shiftRight_eq_div_pow]
  rfl

/-- A Unicode scalar value. -/
def Scalar (value : Nat) : Prop := value ≤ 0x10FFFF ∧ ¬ (0xD800 ≤ value ∧ value ≤ 0xDFFF)

instance : DecidablePred Scalar := fun value =>
  inferInstanceAs (Decidable (value ≤ 0x10FFFF ∧ ¬ (0xD800 ≤ value ∧ value ≤ 0xDFFF)))

theorem scalar_of_valid {value : Nat} {version : XmlVersion}
    (valid : isValidXmlChar value version = true) : Scalar value := by
  unfold isValidXmlChar at valid
  unfold Scalar
  split at valid
  · simp only [isValidXml11Char, Bool.or_eq_true, Bool.and_eq_true, decide_eq_true_eq] at valid
    omega
  · simp only [isValidXml10Char, Bool.or_eq_true, Bool.and_eq_true, decide_eq_true_eq,
      beq_iff_eq] at valid
    omega

/-! ## The bytes of the encoder under the tests of the decoder -/

theorem ascii_tests : ∀ value < 0x80, UInt8.ofNat value < 0x80 ∧ (UInt8.ofNat value).toNat = value := by
  decide

theorem lead_two_tests : ∀ value < 32, ¬ leadByte 0xC0 value < 0x80 ∧
    (leadByte 0xC0 value &&& 0xE0 == 0xC0) = true ∧
    (leadByte 0xC0 value &&& 0x1F).toNat = value := by
  decide

theorem lead_three_tests : ∀ value < 16, ¬ leadByte 0xE0 value < 0x80 ∧
    (leadByte 0xE0 value &&& 0xE0 == 0xC0) = false ∧
    (leadByte 0xE0 value &&& 0xF0 == 0xE0) = true ∧
    (leadByte 0xE0 value &&& 0x0F).toNat = value := by
  decide

theorem lead_four_tests : ∀ value < 8, ¬ leadByte 0xF0 value < 0x80 ∧
    (leadByte 0xF0 value &&& 0xE0 == 0xC0) = false ∧
    (leadByte 0xF0 value &&& 0xF0 == 0xE0) = false ∧
    (leadByte 0xF0 value &&& 0xF8 == 0xF0) = true ∧
    (leadByte 0xF0 value &&& 0x07).toNat = value := by
  decide

theorem trail_tests (value : Nat) : (trailByte value &&& 0xC0 != 0x80) = false ∧
    (trailByte value &&& 0x3F).toNat = value % 64 := by
  have tests : ∀ low < 64, (UInt8.ofNat (0x80 + low) &&& 0xC0 != 0x80) = false ∧
      (UInt8.ofNat (0x80 + low) &&& 0x3F).toNat = low := by
    decide
  exact tests (value % 64) (Nat.mod_lt _ (by decide))

/-- A continuation byte of the encoder adds its six bits. -/
theorem continueUtf8_trailByte (location : SourceLocation) (leading value : Nat) (rest : Bytes) :
    continueUtf8 location leading (trailByte value :: rest) =
      continueUtf8 location (leading * 64 + value % 64) rest := by
  obtain ⟨continues, low⟩ := trail_tests value
  have small : value % 64 < 2 ^ 6 := Nat.mod_lt _ (by decide)
  rw [continueUtf8, continues, if_neg Bool.false_ne_true, low,
    ← Nat.shiftLeft_add_eq_or_of_lt small, Nat.shiftLeft_eq]

/-! ## Decoding one value -/

/-- What decoding makes of one more value in front of the rest. -/
def decodedValue (version : XmlVersion) (value : Nat) (location : SourceLocation)
    (rest : Except XmlParseException (List DecodedChar × LocationTracker)) :
    Except XmlParseException (List DecodedChar × LocationTracker) :=
  if isValidXmlChar value version then pushChar value location rest
  else throwParse .wellFormedness location "invalid XML character"

theorem checkUtf8_eq {version : XmlVersion} {location : SourceLocation} {width value : Nat}
    (shortest : ¬ ((width = 2 ∧ value < 0x80) ∨ (width = 3 ∧ value < 0x800) ∨
      (width = 4 ∧ value < 0x10000))) (scalar : Scalar value) :
    checkUtf8 version location width value =
      if isValidXmlChar value version then .ok ()
      else throwParse .wellFormedness location "invalid XML character" := by
  have passes : ((width == 2 && value < 0x80) || (width == 3 && value < 0x800) ||
      (width == 4 && value < 0x10000) || value > 0x10FFFF ||
      (0xD800 ≤ value && value ≤ 0xDFFF)) = false := by
    unfold Scalar at scalar
    simp only [Bool.or_eq_false_iff, Bool.and_eq_false_iff, beq_eq_false_iff_ne,
      decide_eq_false_iff_not]
    omega
  unfold checkUtf8
  rw [passes, if_neg Bool.false_ne_true]
  cases isValidXmlChar value version <;> rfl

/-- The step the decoder takes once it has found the length of a sequence. -/
theorem readUtf8_pushChar {version : XmlVersion} {location : SourceLocation}
    {leading value : Nat} {continuations : Bytes}
    (read : continueUtf8 location leading continuations = .ok value)
    (shortest : ¬ ((continuations.length + 1 = 2 ∧ value < 0x80) ∨
      (continuations.length + 1 = 3 ∧ value < 0x800) ∨
      (continuations.length + 1 = 4 ∧ value < 0x10000)))
    (scalar : Scalar value)
    (rest : Nat → Except XmlParseException (List DecodedChar × LocationTracker)) :
    (do
      let value ← readUtf8 version location leading continuations
      pushChar value location (rest value)) =
        decodedValue version value location (rest value) := by
  unfold readUtf8 decodedValue
  rw [read]
  change ((checkUtf8 version location (continuations.length + 1) value >>= fun _ => .ok value) >>=
    fun value => pushChar value location (rest value)) = _
  rw [checkUtf8_eq shortest scalar]
  cases isValidXmlChar value version <;> rfl

theorem decodeUtf8Loop_unit {version : XmlVersion} {value : Nat} (scalar : Scalar value)
    (rest : Bytes) (offset : Nat) (tracker : LocationTracker) :
    decodeUtf8Loop version (utf8Unit value ++ rest) offset tracker =
      decodedValue version value (tracker.current offset)
        (decodeUtf8Loop version rest (offset + (utf8Unit value).length)
          (tracker.advance value)) := by
  have limit := scalar.1
  by_cases one : value ≤ 0x7F
  · obtain ⟨isAscii, same⟩ := ascii_tests value (by omega)
    rw [utf8Unit_one one, List.singleton_append, decodeUtf8Loop.eq_def]
    dsimp only
    rw [if_pos isAscii, same]
    exact readUtf8_pushChar rfl (by simp) scalar fun value =>
      decodeUtf8Loop version rest (offset + 1) (tracker.advance value)
  by_cases two : value ≤ 0x7FF
  · obtain ⟨notAscii, isTwo, bits⟩ := lead_two_tests (value / 64) (by omega)
    have nonzero : (leadByte 0xC0 (value / 64) &&& 0x1F == 0) = false := by
      rw [beq_eq_false_iff_ne]
      intro zero
      rw [zero] at bits
      have bits : 0 = value / 64 := bits
      omega
    have read : continueUtf8 (tracker.current offset) (value / 64) [trailByte value] =
        .ok value := by
      rw [continueUtf8_trailByte, continueUtf8]
      congr 1
      omega
    rw [utf8Unit_two (by omega) two, List.cons_append, List.singleton_append,
      decodeUtf8Loop.eq_def]
    dsimp only
    rw [if_neg notAscii, if_pos isTwo, nonzero, if_neg Bool.false_ne_true, bits]
    exact readUtf8_pushChar read (by simp; omega) scalar fun value =>
      decodeUtf8Loop version rest (offset + 2) (tracker.advance value)
  by_cases three : value ≤ 0xFFFF
  · obtain ⟨notAscii, notTwo, isThree, bits⟩ := lead_three_tests (value / 4096) (by omega)
    have read : continueUtf8 (tracker.current offset) (value / 4096)
        [trailByte (value / 64), trailByte value] = .ok value := by
      rw [continueUtf8_trailByte, continueUtf8_trailByte, continueUtf8]
      congr 1
      omega
    rw [utf8Unit_three (by omega) three, List.cons_append, List.cons_append,
      List.singleton_append, decodeUtf8Loop.eq_def]
    dsimp only
    rw [if_neg notAscii, notTwo, if_neg Bool.false_ne_true, if_pos isThree, bits]
    exact readUtf8_pushChar read (by simp; omega) scalar fun value =>
      decodeUtf8Loop version rest (offset + 3) (tracker.advance value)
  · obtain ⟨notAscii, notTwo, notThree, isFour, bits⟩ := lead_four_tests (value / 262144) (by omega)
    have read : continueUtf8 (tracker.current offset) (value / 262144)
        [trailByte (value / 4096), trailByte (value / 64), trailByte value] = .ok value := by
      rw [continueUtf8_trailByte, continueUtf8_trailByte, continueUtf8_trailByte, continueUtf8]
      congr 1
      omega
    rw [utf8Unit_four (by omega) limit, List.cons_append, List.cons_append, List.cons_append,
      List.singleton_append, decodeUtf8Loop.eq_def]
    dsimp only
    rw [if_neg notAscii, notTwo, if_neg Bool.false_ne_true, notThree, if_neg Bool.false_ne_true,
      if_pos isFour, bits]
    exact readUtf8_pushChar read (by simp; omega) scalar fun value =>
      decodeUtf8Loop version rest (offset + 4) (tracker.advance value)

/-- A legal text is decoded to itself. -/
theorem decodeUtf8Loop_utf8 {version : XmlVersion} {text : List Nat}
    (legal : ∀ c ∈ text, isValidXmlChar c version = true) (offset : Nat)
    (tracker : LocationTracker) :
    ∃ chars final, decodeUtf8Loop version (utf8 text) offset tracker = .ok (chars, final) ∧
      chars.map DecodedChar.value = text := by
  induction text generalizing offset tracker with
  | nil => exact ⟨[], tracker, rfl, rfl⟩
  | cons value text ih =>
      have valid := legal value List.mem_cons_self
      obtain ⟨chars, final, decoded, same⟩ :=
        ih (fun c member => legal c (List.mem_cons_of_mem _ member))
          (offset + (utf8Unit value).length) (tracker.advance value)
      refine ⟨⟨value, tracker.current offset⟩ :: chars, final, ?_, by rw [List.map_cons, same]⟩
      have front : utf8 (value :: text) = utf8Unit value ++ utf8 text := rfl
      rw [front, decodeUtf8Loop_unit (scalar_of_valid valid), decodedValue, if_pos valid, decoded]
      rfl

/-! ## ASCII characters among the bytes -/

theorem toNat_leadByte {mark value : Nat} (small : mark + value < 256) :
    (leadByte mark value).toNat = mark + value := by
  rw [leadByte, UInt8.toNat_ofNat']
  exact Nat.mod_eq_of_lt small

theorem toNat_trailByte (value : Nat) : (trailByte value).toNat = 0x80 + value % 64 := by
  rw [trailByte, UInt8.toNat_ofNat']
  exact Nat.mod_eq_of_lt (by omega)

/-- The bytes of a character outside ASCII are no ASCII characters. -/
theorem utf8Unit_high {value : Nat} (large : 0x7F < value) (limit : value ≤ 0x10FFFF) :
    ∀ byte ∈ utf8Unit value, 0x80 ≤ byte.toNat := by
  intro byte member
  have trail : ∀ low, 0x80 ≤ (trailByte low).toNat := by
    intro low
    rw [toNat_trailByte]
    omega
  have lead : ∀ mark high, 0x80 ≤ mark → mark + high < 256 → 0x80 ≤ (leadByte mark high).toNat := by
    intro mark high enough small
    rw [toNat_leadByte small]
    omega
  by_cases two : value ≤ 0x7FF
  · rw [utf8Unit_two large two] at member
    simp only [List.mem_cons, List.not_mem_nil, or_false] at member
    rcases member with rfl | rfl
    · exact lead _ _ (by omega) (by omega)
    · exact trail _
  by_cases three : value ≤ 0xFFFF
  · rw [utf8Unit_three (by omega) three] at member
    simp only [List.mem_cons, List.not_mem_nil, or_false] at member
    rcases member with rfl | rfl | rfl
    · exact lead _ _ (by omega) (by omega)
    · exact trail _
    · exact trail _
  · rw [utf8Unit_four (by omega) limit] at member
    simp only [List.mem_cons, List.not_mem_nil, or_false] at member
    rcases member with rfl | rfl | rfl | rfl
    · exact lead _ _ (by omega) (by omega)
    · exact trail _
    · exact trail _
    · exact trail _

/-- A legal text. -/
def Legal (version : XmlVersion) (text : List Nat) : Prop :=
  ∀ c ∈ text, isValidXmlChar c version = true

theorem Legal.nil (version : XmlVersion) : Legal version [] := fun _ member => nomatch member

theorem legal_cons {version : XmlVersion} {c : Nat} {text : List Nat} :
    Legal version (c :: text) ↔ isValidXmlChar c version = true ∧ Legal version text :=
  List.forall_mem_cons

theorem legal_append {version : XmlVersion} {left right : List Nat} :
    Legal version (left ++ right) ↔ Legal version left ∧ Legal version right :=
  List.forall_mem_append

theorem ascii_mem_utf8Unit {version : XmlVersion} {x value : Nat} (small : x < 0x80)
    (valid : isValidXmlChar value version = true) :
    UInt8.ofNat x ∈ utf8Unit value ↔ x = value := by
  have toNat : (UInt8.ofNat x).toNat = x := (ascii_tests x small).2
  by_cases one : value ≤ 0x7F
  · rw [utf8Unit_one one, List.mem_singleton]
    constructor
    · intro same
      have values := congrArg UInt8.toNat same
      rw [toNat, (ascii_tests value (by omega)).2] at values
      exact values
    · intro same
      rw [same]
  · constructor
    · intro member
      have high := utf8Unit_high (by omega) (scalar_of_valid valid).1 _ member
      omega
    · intro same
      omega

theorem ascii_mem_utf8 {version : XmlVersion} {x : Nat} (small : x < 0x80) {text : List Nat}
    (legal : Legal version text) : UInt8.ofNat x ∈ utf8 text ↔ x ∈ text := by
  induction text with
  | nil => simp [utf8]
  | cons value text ih =>
      obtain ⟨valid, legal⟩ := legal_cons.mp legal
      change _ ∈ utf8Unit value ++ utf8 text ↔ _
      rw [List.mem_append, List.mem_cons, ascii_mem_utf8Unit small valid, ih legal]

theorem utf8_cons (c : Nat) (text : List Nat) : utf8 (c :: text) = utf8Unit c ++ utf8 text := rfl

theorem utf8_append (left right : List Nat) :
    utf8 (left ++ right) = utf8 left ++ utf8 right := List.flatMap_append

@[simp] theorem utf8_nil : utf8 [] = [] := rfl

/-- The first ASCII character of a kind parts the text where it parts the bytes. -/
theorem utf8_takeWhile {version : XmlVersion} {x : Nat} (small : x < 0x80)
    {before : List Nat} (after : List Nat) (legal : Legal version before) (absent : x ∉ before) :
    (utf8 (before ++ x :: after)).takeWhile (· != UInt8.ofNat x) = utf8 before ∧
      (utf8 (before ++ x :: after)).drop ((utf8 before).length + 1) = utf8 after := by
  have unit : utf8Unit x = [UInt8.ofNat x] := utf8Unit_one (by omega)
  have whole : utf8 (before ++ x :: after) = utf8 before ++ UInt8.ofNat x :: utf8 after := by
    rw [utf8_append, utf8_cons, unit, List.singleton_append]
  have passes : ∀ byte ∈ utf8 before, (byte != UInt8.ofNat x) = true := by
    intro byte member
    rw [bne_iff_ne]
    intro same
    exact absent ((ascii_mem_utf8 small legal).mp (same ▸ member))
  rw [whole]
  constructor
  · rw [List.takeWhile_append_of_pos passes, List.takeWhile_cons_of_neg (by simp), List.append_nil]
  · rw [List.drop_append, List.drop_eq_nil_of_le (Nat.le_succ _), Nat.add_sub_cancel_left]
    rfl

/-- Legal texts with the same bytes are the same. -/
theorem utf8_injective {version : XmlVersion} {left right : List Nat} (legalLeft : Legal version left)
    (legalRight : Legal version right) (same : utf8 left = utf8 right) : left = right := by
  obtain ⟨chars, _, decodedLeft, rfl⟩ := decodeUtf8Loop_utf8 legalLeft 0 {}
  obtain ⟨others, _, decodedRight, rfl⟩ := decodeUtf8Loop_utf8 legalRight 0 {}
  rw [same, decodedRight] at decodedLeft
  cases decodedLeft
  rfl

end XmlParser
