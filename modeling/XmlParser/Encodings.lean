import XmlParser.DecoderProperties
import XmlParser.Library.PrefixCode

/-! The decoders are exact: they accept the encodings of legal texts, and stop at
the end of the longest such encoding otherwise. -/

set_option autoImplicit false

namespace XmlParser

open PrefixCode

/-! ## UTF-16 -/

/-- One code unit in either byte order. -/
def utf16Bytes (littleEndian : Bool) (unit : Nat) : Bytes :=
  if littleEndian then [UInt8.ofNat (unit % 256), UInt8.ofNat (unit / 256)]
  else [UInt8.ofNat (unit / 256), UInt8.ofNat (unit % 256)]

/-- The UTF-16 encoding of a scalar value. -/
def utf16Unit (littleEndian : Bool) (value : Nat) : Bytes :=
  if value < 0x10000 then utf16Bytes littleEndian value
  else
    utf16Bytes littleEndian (0xD800 + (value - 0x10000) / 1024) ++
      utf16Bytes littleEndian (0xDC00 + (value - 0x10000) % 1024)

theorem readUnit_eq (littleEndian : Bool) (first second : UInt8) :
    readUnit littleEndian first second =
      if littleEndian then first.toNat + second.toNat * 256 else first.toNat * 256 + second.toNat := by
  have small : ∀ byte : UInt8, byte.toNat < 2 ^ 8 := fun byte => byte.toNat_lt
  unfold readUnit
  cases littleEndian with
  | true =>
      rw [if_pos rfl, if_pos rfl, Nat.or_comm, ← Nat.shiftLeft_add_eq_or_of_lt (small first),
        Nat.shiftLeft_eq, Nat.add_comm]
  | false =>
      rw [if_neg Bool.false_ne_true, if_neg Bool.false_ne_true,
        ← Nat.shiftLeft_add_eq_or_of_lt (small second), Nat.shiftLeft_eq]

theorem readUnit_lt (littleEndian : Bool) (first second : UInt8) :
    readUnit littleEndian first second < 0x10000 := by
  have one := first.toNat_lt
  have two := second.toNat_lt
  rw [readUnit_eq]
  split <;> omega

theorem utf16Bytes_readUnit (littleEndian : Bool) (first second : UInt8) :
    utf16Bytes littleEndian (readUnit littleEndian first second) = [first, second] := by
  have one := first.toNat_lt
  have two := second.toNat_lt
  unfold utf16Bytes
  rw [readUnit_eq]
  cases littleEndian with
  | true =>
      have low : (first.toNat + second.toNat * 256) % 256 = first.toNat := by omega
      have high : (first.toNat + second.toNat * 256) / 256 = second.toNat := by omega
      simp only [if_true, low, high, UInt8.ofNat_toNat]
  | false =>
      have low : (first.toNat * 256 + second.toNat) % 256 = second.toNat := by omega
      have high : (first.toNat * 256 + second.toNat) / 256 = first.toNat := by omega
      simp only [Bool.false_eq_true, if_false, low, high, UInt8.ofNat_toNat]

theorem exists_utf16Bytes (littleEndian : Bool) {unit : Nat} (small : unit < 0x10000) :
    ∃ first second, utf16Bytes littleEndian unit = [first, second] ∧
      readUnit littleEndian first second = unit := by
  have low : (UInt8.ofNat (unit % 256)).toNat = unit % 256 := by
    rw [UInt8.toNat_ofNat']
    omega
  have high : (UInt8.ofNat (unit / 256)).toNat = unit / 256 := by
    rw [UInt8.toNat_ofNat']
    omega
  cases littleEndian with
  | true =>
      refine ⟨UInt8.ofNat (unit % 256), UInt8.ofNat (unit / 256), rfl, ?_⟩
      rw [readUnit_eq, if_pos rfl, low, high]
      omega
  | false =>
      refine ⟨UInt8.ofNat (unit / 256), UInt8.ofNat (unit % 256), rfl, ?_⟩
      rw [readUnit_eq, if_neg Bool.false_ne_true, low, high]
      omega

theorem utf16Unit_readUnit (littleEndian : Bool) (first second : UInt8) :
    utf16Unit littleEndian (readUnit littleEndian first second) = [first, second] := by
  rw [utf16Unit, if_pos (readUnit_lt littleEndian first second), utf16Bytes_readUnit]

/-- The value of a surrogate pair. -/
theorem pair_value {lead trail : Nat} (trails : 0xDC00 ≤ trail ∧ trail ≤ 0xDFFF) :
    0x10000 + (((lead - 0xD800) <<< 10) ||| (trail - 0xDC00)) =
      0x10000 + ((lead - 0xD800) * 1024 + (trail - 0xDC00)) := by
  have small : trail - 0xDC00 < 2 ^ 10 := by omega
  rw [← Nat.shiftLeft_add_eq_or_of_lt small, Nat.shiftLeft_eq]

/-- The step of the decoder on the encoding of a scalar value. -/
theorem decodeUtf16Loop_unit {littleEndian : Bool} {version : XmlVersion} {value : Nat}
    (scalar : Scalar value) (rest : Bytes) (offset : Nat) (tracker : LocationTracker) :
    decodeUtf16Loop littleEndian version (utf16Unit littleEndian value ++ rest) offset tracker =
      decodedValue version value (tracker.current offset)
        (decodeUtf16Loop littleEndian version rest (offset + (utf16Unit littleEndian value).length)
          (tracker.advance value)) := by
  have outside := scalar.2
  have limit := scalar.1
  by_cases single : value < 0x10000
  · obtain ⟨first, second, bytes, read⟩ := exists_utf16Bytes littleEndian single
    rw [utf16Unit, if_pos single, bytes, List.cons_append, List.singleton_append,
      decodeUtf16Loop.eq_def]
    dsimp only
    rw [read, if_neg (by simp; omega), if_neg (by simp; omega)]
    unfold decodedValue
    cases isValidXmlChar value version with
    | true => rfl
    | false => rfl
  · have leads : 0xD800 + (value - 0x10000) / 1024 < 0x10000 := by omega
    have trails : 0xDC00 + (value - 0x10000) % 1024 < 0x10000 := by omega
    obtain ⟨first, second, leadBytes, readLead⟩ := exists_utf16Bytes littleEndian leads
    obtain ⟨third, fourth, trailBytes, readTrail⟩ := exists_utf16Bytes littleEndian trails
    have whole : 0x10000 + ((0xD800 + (value - 0x10000) / 1024 - 0xD800) * 1024 +
        (0xDC00 + (value - 0x10000) % 1024 - 0xDC00)) = value := by omega
    rw [utf16Unit, if_neg single, leadBytes, trailBytes]
    simp only [List.cons_append, List.nil_append]
    rw [decodeUtf16Loop.eq_def]
    dsimp only
    rw [readLead, readTrail, if_pos (by simp; omega), if_neg (by simp; omega),
      pair_value (by omega), whole]
    unfold decodedValue
    cases isValidXmlChar value version with
    | true => rfl
    | false => rfl

/-! ## Code words -/

/-- The encodings of a scalar value in UTF-16 are not empty, and distinct. -/
theorem utf16_prefixFree (littleEndian : Bool) : PrefixFree Scalar (utf16Unit littleEndian) := by
  have bytes : ∀ value, Scalar value → ∃ first second others,
      utf16Unit littleEndian value = first :: second :: others ∧
      ((value < 0x10000 ∧ others = [] ∧ readUnit littleEndian first second = value) ∨
        (0x10000 ≤ value ∧ readUnit littleEndian first second = 0xD800 + (value - 0x10000) / 1024 ∧
          ∃ third fourth, others = [third, fourth] ∧
            readUnit littleEndian third fourth = 0xDC00 + (value - 0x10000) % 1024)) := by
    intro value scalar
    have limit := scalar.1
    by_cases single : value < 0x10000
    · obtain ⟨first, second, encoded, read⟩ := exists_utf16Bytes littleEndian single
      refine ⟨first, second, [], ?_, .inl ⟨single, rfl, read⟩⟩
      rw [utf16Unit, if_pos single, encoded]
    · have leads : 0xD800 + (value - 0x10000) / 1024 < 0x10000 := by omega
      have trails : 0xDC00 + (value - 0x10000) % 1024 < 0x10000 := by omega
      obtain ⟨first, second, leadBytes, readLead⟩ := exists_utf16Bytes littleEndian leads
      obtain ⟨third, fourth, trailBytes, readTrail⟩ := exists_utf16Bytes littleEndian trails
      refine ⟨first, second, [third, fourth], ?_,
        .inr ⟨by omega, readLead, third, fourth, rfl, readTrail⟩⟩
      rw [utf16Unit, if_neg single, leadBytes, trailBytes]
      rfl
  constructor
  · intro value scalar
    obtain ⟨first, second, others, encoded, _⟩ := bytes value scalar
    rw [encoded]
    exact List.cons_ne_nil _ _
  · intro left right code scalarLeft scalarRight fitsLeft fitsRight
    have outsideLeft := scalarLeft.2
    have outsideRight := scalarRight.2
    have limitLeft := scalarLeft.1
    have limitRight := scalarRight.1
    obtain ⟨first, second, others, encoded, leftCases⟩ := bytes left scalarLeft
    obtain ⟨third, fourth, more, encodedRight, rightCases⟩ := bytes right scalarRight
    rw [encoded] at fitsLeft
    rw [encodedRight] at fitsRight
    obtain ⟨restLeft, rfl⟩ := fitsLeft
    simp only [List.cons_append, List.cons_prefix_cons] at fitsRight
    obtain ⟨rfl, rfl, tails⟩ := fitsRight
    cases leftCases with
    | inl single =>
        obtain ⟨small, rfl, read⟩ := single
        cases rightCases with
        | inl singleRight =>
            obtain ⟨_, rfl, readRight⟩ := singleRight
            omega
        | inr pair =>
            obtain ⟨large, readRight, _⟩ := pair
            omega
    | inr pair =>
        obtain ⟨large, read, fifth, sixth, rfl, readTrail⟩ := pair
        cases rightCases with
        | inl singleRight =>
            obtain ⟨_, _, readRight⟩ := singleRight
            omega
        | inr pairRight =>
            obtain ⟨largeRight, readRight, seventh, eighth, rfl, readTrailRight⟩ := pairRight
            simp only [List.cons_append, List.cons_prefix_cons] at tails
            obtain ⟨rfl, rfl, _⟩ := tails
            omega

/-- Where no scalar value is encoded, the decoder stops. -/
theorem decodeUtf16Loop_stuck {littleEndian : Bool} {version : XmlVersion} {bytes : Bytes}
    (offset : Nat) (tracker : LocationTracker) (nonempty : bytes ≠ [])
    (stuck : ∀ value, Scalar value → ¬ utf16Unit littleEndian value <+: bytes) :
    ∃ message, decodeUtf16Loop littleEndian version bytes offset tracker =
      throwParse .encoding (tracker.current offset) message := by
  rw [decodeUtf16Loop.eq_def]
  rcases bytes with _ | ⟨first, _ | ⟨second, rest⟩⟩
  · exact absurd rfl nonempty
  · exact ⟨_, rfl⟩
  dsimp only
  by_cases leads : 0xD800 ≤ readUnit littleEndian first second ∧ readUnit littleEndian first second ≤ 0xDBFF
  · rw [if_pos (by simpa using leads)]
    rcases rest with _ | ⟨third, _ | ⟨fourth, rest⟩⟩
    · exact ⟨_, rfl⟩
    · exact ⟨_, rfl⟩
    dsimp only
    by_cases trails : 0xDC00 ≤ readUnit littleEndian third fourth ∧ readUnit littleEndian third fourth ≤ 0xDFFF
    · let value := 0x10000 + ((readUnit littleEndian first second - 0xD800) * 1024 +
        (readUnit littleEndian third fourth - 0xDC00))
      have quotient : 0xD800 + (value - 0x10000) / 1024 = readUnit littleEndian first second := by
        omega
      have remainder : 0xDC00 + (value - 0x10000) % 1024 = readUnit littleEndian third fourth := by
        omega
      have encoded : utf16Unit littleEndian value = [first, second, third, fourth] := by
        rw [utf16Unit, if_neg (by omega), quotient, remainder, utf16Bytes_readUnit, utf16Bytes_readUnit]
        rfl
      refine absurd ?_ (stuck value ⟨by omega, by omega⟩)
      rw [encoded]
      exact ⟨rest, rfl⟩
    · rw [if_pos (by simp; omega)]
      exact ⟨_, rfl⟩
  · rw [if_neg (by simpa using leads)]
    by_cases trails : 0xDC00 ≤ readUnit littleEndian first second ∧ readUnit littleEndian first second ≤ 0xDFFF
    · rw [if_pos (by simpa using trails)]
      exact ⟨_, rfl⟩
    · have small := readUnit_lt littleEndian first second
      refine absurd ?_ (stuck (readUnit littleEndian first second) ⟨by omega, by omega⟩)
      rw [utf16Unit_readUnit]
      exact ⟨rest, rfl⟩

/-! ## UTF-8 -/

/-- The bytes of a scalar value by the length of its encoding. -/
theorem utf8Unit_cases {value : Nat} (scalar : Scalar value) :
    (value ≤ 0x7F ∧ utf8Unit value = [UInt8.ofNat value]) ∨
    (0x7F < value ∧ value ≤ 0x7FF ∧ utf8Unit value = [leadByte 0xC0 (value / 64), trailByte value]) ∨
    (0x7FF < value ∧ value ≤ 0xFFFF ∧ utf8Unit value =
      [leadByte 0xE0 (value / 4096), trailByte (value / 64), trailByte value]) ∨
    (0xFFFF < value ∧ value ≤ 0x10FFFF ∧ utf8Unit value =
      [leadByte 0xF0 (value / 262144), trailByte (value / 4096), trailByte (value / 64),
        trailByte value]) := by
  by_cases one : value ≤ 0x7F
  · exact .inl ⟨one, utf8Unit_one one⟩
  by_cases two : value ≤ 0x7FF
  · exact .inr (.inl ⟨by omega, two, utf8Unit_two (by omega) two⟩)
  by_cases three : value ≤ 0xFFFF
  · exact .inr (.inr (.inl ⟨by omega, three, utf8Unit_three (by omega) three⟩))
  · exact .inr (.inr (.inr ⟨by omega, scalar.1, utf8Unit_four (by omega) scalar.1⟩))

/-- What the first byte says about the value. -/
theorem utf8Unit_lead {value : Nat} (scalar : Scalar value) :
    ∃ lead trails, utf8Unit value = lead :: trails ∧
      ((value ≤ 0x7F ∧ lead.toNat = value ∧ trails = []) ∨
      (0x7F < value ∧ value ≤ 0x7FF ∧ lead.toNat = 0xC0 + value / 64 ∧ trails = [trailByte value]) ∨
      (0x7FF < value ∧ value ≤ 0xFFFF ∧ lead.toNat = 0xE0 + value / 4096 ∧
        trails = [trailByte (value / 64), trailByte value]) ∨
      (0xFFFF < value ∧ value ≤ 0x10FFFF ∧ lead.toNat = 0xF0 + value / 262144 ∧
        trails = [trailByte (value / 4096), trailByte (value / 64), trailByte value])) := by
  rcases utf8Unit_cases scalar with ⟨small, bytes⟩ | ⟨large, small, bytes⟩ | ⟨large, small, bytes⟩ |
    ⟨large, small, bytes⟩
  · refine ⟨_, _, bytes, .inl ⟨small, ?_, rfl⟩⟩
    rw [UInt8.toNat_ofNat']
    omega
  · exact ⟨_, _, bytes, .inr (.inl ⟨large, small, toNat_leadByte (by omega), rfl⟩)⟩
  · exact ⟨_, _, bytes, .inr (.inr (.inl ⟨large, small, toNat_leadByte (by omega), rfl⟩))⟩
  · exact ⟨_, _, bytes, .inr (.inr (.inr ⟨large, small, toNat_leadByte (by omega), rfl⟩))⟩

theorem trailByte_mod {left right : Nat} (same : trailByte left = trailByte right) :
    left % 64 = right % 64 := by
  have bytes := congrArg UInt8.toNat same
  rw [toNat_trailByte, toNat_trailByte] at bytes
  omega

theorem utf8_prefixFree : PrefixFree Scalar utf8Unit := by
  constructor
  · intro value scalar
    obtain ⟨lead, trails, bytes, _⟩ := utf8Unit_lead scalar
    rw [bytes]
    exact List.cons_ne_nil _ _
  · intro left right code scalarLeft scalarRight fitsLeft fitsRight
    obtain ⟨lead, trails, bytes, leftCases⟩ := utf8Unit_lead scalarLeft
    obtain ⟨other, others, bytesRight, rightCases⟩ := utf8Unit_lead scalarRight
    rw [bytes] at fitsLeft
    rw [bytesRight] at fitsRight
    obtain ⟨rest, rfl⟩ := fitsLeft
    rw [List.cons_append, List.cons_prefix_cons] at fitsRight
    obtain ⟨rfl, tails⟩ := fitsRight
    rcases leftCases with ⟨small, first, rfl⟩ | ⟨large, small, first, rfl⟩ | ⟨large, small, first, rfl⟩ |
      ⟨large, small, first, rfl⟩
    · omega
    · rcases rightCases with ⟨_, second, rfl⟩ | ⟨_, _, second, rfl⟩ | ⟨_, _, second, rfl⟩ |
        ⟨_, _, second, rfl⟩
      · omega
      · simp only [List.cons_append, List.cons_prefix_cons] at tails
        have last := trailByte_mod tails.1
        omega
      · omega
      · omega
    · rcases rightCases with ⟨_, second, rfl⟩ | ⟨_, _, second, rfl⟩ | ⟨_, _, second, rfl⟩ |
        ⟨_, _, second, rfl⟩
      · omega
      · omega
      · simp only [List.cons_append, List.cons_prefix_cons] at tails
        have middle := trailByte_mod tails.1
        have last := trailByte_mod tails.2.1
        omega
      · omega
    · rcases rightCases with ⟨_, second, rfl⟩ | ⟨_, _, second, rfl⟩ | ⟨_, _, second, rfl⟩ |
        ⟨_, _, second, rfl⟩
      · omega
      · omega
      · omega
      · simp only [List.cons_append, List.cons_prefix_cons] at tails
        have high := trailByte_mod tails.1
        have middle := trailByte_mod tails.2.1
        have last := trailByte_mod tails.2.2.1
        omega

/-! The tests of the decoder on a byte determine the byte. -/

theorem forall_byte {property : UInt8 → Prop} (holds : ∀ number < 256, property (UInt8.ofNat number))
    (byte : UInt8) : property byte := by
  have here := holds byte.toNat byte.toNat_lt
  rw [UInt8.ofNat_toNat] at here
  exact here

theorem byte_of_ascii (byte : UInt8) (isAscii : byte < 0x80) :
    byte = UInt8.ofNat byte.toNat ∧ byte.toNat ≤ 0x7F := by
  refine ⟨UInt8.ofNat_toNat.symm, ?_⟩
  have small : byte.toNat < 0x80 := UInt8.lt_iff_toNat_lt.mp isAscii
  omega

theorem byte_of_lead_two : ∀ byte : UInt8, (byte &&& 0xE0 == 0xC0) = true →
    byte = leadByte 0xC0 (byte &&& 0x1F).toNat ∧ (byte &&& 0x1F).toNat < 32 :=
  forall_byte (by decide +kernel)

theorem byte_of_lead_three : ∀ byte : UInt8, (byte &&& 0xF0 == 0xE0) = true →
    byte = leadByte 0xE0 (byte &&& 0x0F).toNat ∧ (byte &&& 0x0F).toNat < 16 :=
  forall_byte (by decide +kernel)

theorem byte_of_lead_four : ∀ byte : UInt8, (byte &&& 0xF8 == 0xF0) = true →
    byte = leadByte 0xF0 (byte &&& 0x07).toNat ∧ (byte &&& 0x07).toNat < 8 :=
  forall_byte (by decide +kernel)

theorem byte_of_trail : ∀ byte : UInt8, (byte &&& 0xC0 != 0x80) = false →
    byte = UInt8.ofNat (0x80 + (byte &&& 0x3F).toNat) ∧ (byte &&& 0x3F).toNat < 64 :=
  forall_byte (by decide +kernel)

/-- A continuation byte that is accepted adds its six bits. -/
theorem continueUtf8_eq_ok {location : SourceLocation} {leading value : Nat} {byte : UInt8}
    {rest : Bytes} (read : continueUtf8 location leading (byte :: rest) = .ok value) :
    ∃ low, low < 64 ∧ byte = trailByte (leading * 64 + low) ∧
      continueUtf8 location (leading * 64 + low) rest = .ok value := by
  rw [continueUtf8] at read
  split at read
  · cases read
  · rename_i continues
    obtain ⟨same, small⟩ := byte_of_trail byte (by simpa using continues)
    have bound : (byte &&& 0x3F).toNat < 2 ^ 6 := small
    refine ⟨(byte &&& 0x3F).toNat, small, ?_, ?_⟩
    · have mod : (leading * 64 + (byte &&& 0x3F).toNat) % 64 = (byte &&& 0x3F).toNat := by omega
      rw [trailByte, mod]
      exact same
    · rw [← Nat.shiftLeft_add_eq_or_of_lt bound, Nat.shiftLeft_eq] at read
      exact read

theorem continueUtf8_cases (location : SourceLocation) (leading : Nat) (continuations : Bytes) :
    (∃ message, continueUtf8 location leading continuations = throwParse .encoding location message) ∨
      ∃ value, continueUtf8 location leading continuations = .ok value := by
  induction continuations generalizing leading with
  | nil => exact .inr ⟨leading, rfl⟩
  | cons byte rest ih =>
      rw [continueUtf8]
      split
      · exact .inl ⟨_, rfl⟩
      · exact ih _

/-- A sequence is refused as ill-formed, or it spells a scalar value shortly. -/
theorem readUtf8_cases (version : XmlVersion) (location : SourceLocation) (leading : Nat)
    (continuations : Bytes) :
    (∃ message, readUtf8 version location leading continuations =
      throwParse .encoding location message) ∨
    ∃ value, continueUtf8 location leading continuations = .ok value ∧ Scalar value ∧
      ¬ ((continuations.length + 1 = 2 ∧ value < 0x80) ∨
        (continuations.length + 1 = 3 ∧ value < 0x800) ∨
        (continuations.length + 1 = 4 ∧ value < 0x10000)) := by
  cases continueUtf8_cases location leading continuations with
  | inl threw =>
      obtain ⟨message, threw⟩ := threw
      refine .inl ⟨message, ?_⟩
      unfold readUtf8
      rw [threw]
      rfl
  | inr returned =>
      obtain ⟨value, read⟩ := returned
      by_cases malformed : ((continuations.length + 1 == 2 && value < 0x80) ||
          (continuations.length + 1 == 3 && value < 0x800) ||
          (continuations.length + 1 == 4 && value < 0x10000) || value > 0x10FFFF ||
          (0xD800 ≤ value && value ≤ 0xDFFF)) = true
      · refine .inl ⟨"invalid UTF-8 scalar value", ?_⟩
        have checked : checkUtf8 version location (continuations.length + 1) value =
            throwParse .encoding location "invalid UTF-8 scalar value" := if_pos malformed
        unfold readUtf8
        rw [read]
        change (checkUtf8 version location (continuations.length + 1) value >>= fun _ => .ok value) = _
        rw [checked]
        rfl
      · simp only [Bool.or_eq_true, Bool.and_eq_true, beq_iff_eq, decide_eq_true_eq] at malformed
        refine .inr ⟨value, read, ?_, ?_⟩
        · unfold Scalar
          omega
        · omega

/-- Where no scalar value is encoded, the decoder stops. -/
theorem decodeUtf8Loop_stuck {version : XmlVersion} {bytes : Bytes} (offset : Nat)
    (tracker : LocationTracker) (nonempty : bytes ≠ [])
    (stuck : ∀ value, Scalar value → ¬ utf8Unit value <+: bytes) :
    ∃ message, decodeUtf8Loop version bytes offset tracker =
      throwParse .encoding (tracker.current offset) message := by
  cases bytes with
  | nil => exact absurd rfl nonempty
  | cons byte rest =>
      -- A sequence with these bytes would be the encoding of the value it spells.
      have refused : ∀ (leading : Nat) (continuations remaining : Bytes)
          (more : Nat → Except XmlParseException (List DecodedChar × LocationTracker)),
          rest = continuations ++ remaining →
          (∀ value, Scalar value → continueUtf8 (tracker.current offset) leading continuations = .ok value →
            ¬ ((continuations.length + 1 = 2 ∧ value < 0x80) ∨
              (continuations.length + 1 = 3 ∧ value < 0x800) ∨
              (continuations.length + 1 = 4 ∧ value < 0x10000)) →
            utf8Unit value = byte :: continuations) →
          ∃ message, (readUtf8 version (tracker.current offset) leading continuations >>= fun value =>
            pushChar value (tracker.current offset) (more value)) =
              throwParse .encoding (tracker.current offset) message := by
        intro leading continuations remaining more split spells
        cases readUtf8_cases version (tracker.current offset) leading continuations with
        | inl threw =>
            obtain ⟨message, threw⟩ := threw
            refine ⟨message, ?_⟩
            rw [threw]
            rfl
        | inr read =>
            obtain ⟨value, read, scalar, shortest⟩ := read
            refine absurd ?_ (stuck value scalar)
            rw [spells value scalar read shortest, split]
            exact ⟨remaining, rfl⟩
      rw [decodeUtf8Loop.eq_def]
      dsimp only
      by_cases isAscii : byte < 0x80
      · rw [if_pos isAscii]
        refine refused byte.toNat [] rest _ rfl fun value scalar read shortest => ?_
        cases read
        obtain ⟨same, small⟩ := byte_of_ascii byte isAscii
        rw [utf8Unit_one small, ← same]
      rw [if_neg isAscii]
      by_cases isTwo : (byte &&& 0xE0 == 0xC0) = true
      · rw [if_pos isTwo]
        by_cases zero : (byte &&& 0x1F == 0) = true
        · rw [if_pos zero]
          exact ⟨_, rfl⟩
        rw [if_neg zero]
        rcases rest with _ | ⟨second, rest⟩
        · exact ⟨_, rfl⟩
        refine refused _ [second] rest _ rfl fun value scalar read shortest => ?_
        obtain ⟨same, small⟩ := byte_of_lead_two byte isTwo
        obtain ⟨low, bounded, trail, read⟩ := continueUtf8_eq_ok read
        cases read
        have lead : ((byte &&& 0x1F).toNat * 64 + low) / 64 = (byte &&& 0x1F).toNat := by omega
        have large : 0x7F < (byte &&& 0x1F).toNat * 64 + low :=
          Nat.not_lt.mp fun small => shortest (.inl ⟨rfl, small⟩)
        rw [utf8Unit_two large (by omega), lead, ← same, trail]
      rw [if_neg isTwo]
      by_cases isThree : (byte &&& 0xF0 == 0xE0) = true
      · rw [if_pos isThree]
        rcases rest with _ | ⟨second, _ | ⟨third, rest⟩⟩
        · exact ⟨_, rfl⟩
        · exact ⟨_, rfl⟩
        refine refused _ [second, third] rest _ rfl fun value scalar read shortest => ?_
        obtain ⟨same, small⟩ := byte_of_lead_three byte isThree
        obtain ⟨middle, boundedMiddle, trailMiddle, read⟩ := continueUtf8_eq_ok read
        obtain ⟨low, bounded, trail, read⟩ := continueUtf8_eq_ok read
        cases read
        have high : (((byte &&& 0x0F).toNat * 64 + middle) * 64 + low) / 64 =
            (byte &&& 0x0F).toNat * 64 + middle := by omega
        have lead : (((byte &&& 0x0F).toNat * 64 + middle) * 64 + low) / 4096 =
            (byte &&& 0x0F).toNat := by omega
        have large : 0x7FF < ((byte &&& 0x0F).toNat * 64 + middle) * 64 + low :=
          Nat.not_lt.mp fun small => shortest (.inr (.inl ⟨rfl, small⟩))
        rw [utf8Unit_three large (by omega), lead, high, ← same, trailMiddle, trail]
      rw [if_neg isThree]
      by_cases isFour : (byte &&& 0xF8 == 0xF0) = true
      · rw [if_pos isFour]
        rcases rest with _ | ⟨second, _ | ⟨third, _ | ⟨fourth, rest⟩⟩⟩
        · exact ⟨_, rfl⟩
        · exact ⟨_, rfl⟩
        · exact ⟨_, rfl⟩
        refine refused _ [second, third, fourth] rest _ rfl fun value scalar read shortest => ?_
        obtain ⟨same, small⟩ := byte_of_lead_four byte isFour
        obtain ⟨upper, boundedUpper, trailUpper, read⟩ := continueUtf8_eq_ok read
        obtain ⟨middle, boundedMiddle, trailMiddle, read⟩ := continueUtf8_eq_ok read
        obtain ⟨low, bounded, trail, read⟩ := continueUtf8_eq_ok read
        cases read
        have limit := scalar.1
        have second : ((((byte &&& 0x07).toNat * 64 + upper) * 64 + middle) * 64 + low) / 64 =
            ((byte &&& 0x07).toNat * 64 + upper) * 64 + middle := by omega
        have first : ((((byte &&& 0x07).toNat * 64 + upper) * 64 + middle) * 64 + low) / 4096 =
            (byte &&& 0x07).toNat * 64 + upper := by omega
        have lead : ((((byte &&& 0x07).toNat * 64 + upper) * 64 + middle) * 64 + low) / 262144 =
            (byte &&& 0x07).toNat := by omega
        have large : 0xFFFF < (((byte &&& 0x07).toNat * 64 + upper) * 64 + middle) * 64 + low :=
          Nat.not_lt.mp fun small => shortest (.inr (.inr ⟨rfl, small⟩))
        rw [utf8Unit_four large limit, lead, first, second, ← same, trailUpper, trailMiddle, trail]
      · rw [if_neg isFour]
        exact ⟨_, rfl⟩

/-! ## Either decoder -/

/-- The characters of a text that is encoded from an offset on. -/
def located (unit : Nat → Bytes) : Nat → LocationTracker → List Nat → List DecodedChar
  | _, _, [] => []
  | offset, tracker, value :: text =>
      ⟨value, tracker.current offset⟩ ::
        located unit (offset + (unit value).length) (tracker.advance value) text

/-- The tracker behind a text. -/
def LocationTracker.after (tracker : LocationTracker) (text : List Nat) : LocationTracker :=
  text.foldl LocationTracker.advance tracker

theorem values_located (unit : Nat → Bytes) (offset : Nat) (tracker : LocationTracker)
    (text : List Nat) : values (located unit offset tracker text) = text := by
  induction text generalizing offset tracker with
  | nil => rfl
  | cons value text ih => rw [located, values_cons, ih]

/-- What makes a loop the decoder of an encoding. -/
structure Decodes (version : XmlVersion) (unit : Nat → Bytes)
    (loop : Bytes → Nat → LocationTracker →
      Except XmlParseException (List DecodedChar × LocationTracker)) : Prop where
  free : PrefixFree Scalar unit
  ended : ∀ offset tracker, loop [] offset tracker = .ok ([], tracker)
  step : ∀ value, Scalar value → ∀ rest offset tracker,
    loop (unit value ++ rest) offset tracker = decodedValue version value (tracker.current offset)
      (loop rest (offset + (unit value).length) (tracker.advance value))
  stuck : ∀ code offset tracker, code ≠ [] → (∀ value, Scalar value → ¬ unit value <+: code) →
    ∃ message, loop code offset tracker = throwParse .encoding (tracker.current offset) message

theorem decodes_utf8 (version : XmlVersion) : Decodes version utf8Unit (decodeUtf8Loop version) where
  free := utf8_prefixFree
  ended _ _ := by rw [decodeUtf8Loop]
  step _ scalar := decodeUtf8Loop_unit scalar
  stuck _ := decodeUtf8Loop_stuck

theorem decodes_utf16 (littleEndian : Bool) (version : XmlVersion) :
    Decodes version (utf16Unit littleEndian) (decodeUtf16Loop littleEndian version) where
  free := utf16_prefixFree littleEndian
  ended _ _ := by rw [decodeUtf16Loop]
  step _ scalar := decodeUtf16Loop_unit scalar
  stuck _ := decodeUtf16Loop_stuck

/-- Why decoding ends in front of some bytes. -/
def RefusedFor (version : XmlVersion) (unit : Nat → Bytes) (kind : ErrorKind) (rest : Bytes) : Prop :=
  (kind = .encoding ∧ ∀ value, Scalar value → ¬ unit value <+: rest) ∨
    (kind = .wellFormedness ∧ ∃ value, Scalar value ∧ unit value <+: rest ∧
      isValidXmlChar value version = false)

namespace Decodes

variable {version : XmlVersion} {unit : Nat → Bytes}
  {loop : Bytes → Nat → LocationTracker → Except XmlParseException (List DecodedChar × LocationTracker)}

theorem encoded (decodes : Decodes version unit loop) {text : List Nat} (legal : Legal version text)
    (rest : Bytes) (offset : Nat) (tracker : LocationTracker) :
    loop (encode unit text ++ rest) offset tracker =
      (loop rest (offset + (encode unit text).length) (tracker.after text)).map fun decoded =>
        (located unit offset tracker text ++ decoded.1, decoded.2) := by
  induction text generalizing offset tracker with
  | nil =>
      change loop rest offset tracker = (loop rest offset tracker).map _
      cases loop rest offset tracker with
      | error error => rfl
      | ok decoded => rfl
  | cons value text ih =>
      obtain ⟨valid, legal⟩ := legal_cons.mp legal
      rw [encode_cons, List.append_assoc, decodes.step value (scalar_of_valid valid), decodedValue,
        if_pos valid, ih legal, List.length_append, ← Nat.add_assoc]
      change _ = Except.map _ (loop rest _ ((tracker.advance value).after text))
      cases loop rest (offset + (unit value).length + (encode unit text).length)
        ((tracker.advance value).after text) with
      | error error => rfl
      | ok decoded => rfl

/-- Decoding a sequence: its longest legal text, and where and why it ends. -/
theorem exact (decodes : Decodes version unit loop) (code : Bytes) (offset : Nat)
    (tracker : LocationTracker) :
    ∃ text rest, code = encode unit text ++ rest ∧ Legal version text ∧
      (∀ value, isValidXmlChar value version = true → ¬ unit value <+: rest) ∧
      ((rest = [] ∧ loop code offset tracker =
          .ok (located unit offset tracker text, tracker.after text)) ∨
        ∃ kind message, rest ≠ [] ∧ RefusedFor version unit kind rest ∧
          loop code offset tracker = throwParse kind
            ((tracker.after text).current (offset + (encode unit text).length)) message) := by
  obtain ⟨text, rest, rfl, legal, stuck⟩ := decodes.free.exists_split
    (fun value (valid : isValidXmlChar value version = true) => scalar_of_valid valid) code
  refine ⟨text, rest, rfl, legal, stuck, ?_⟩
  rw [decodes.encoded legal]
  by_cases empty : rest = []
  · subst empty
    refine .inl ⟨rfl, ?_⟩
    rw [decodes.ended]
    change Except.ok (located unit offset tracker text ++ [], tracker.after text) = _
    rw [List.append_nil]
  by_cases fits : ∃ value, Scalar value ∧ unit value <+: rest
  · obtain ⟨value, scalar, more, rfl⟩ := fits
    have invalid : isValidXmlChar value version = false := by
      rw [← Bool.not_eq_true]
      exact fun valid => stuck value valid (List.prefix_append _ _)
    refine .inr ⟨.wellFormedness, "invalid XML character", empty,
      .inr ⟨rfl, value, scalar, List.prefix_append _ _, invalid⟩, ?_⟩
    rw [decodes.step value scalar, decodedValue, if_neg (by rw [invalid]; exact Bool.false_ne_true)]
    rfl
  · have none : ∀ value, Scalar value → ¬ unit value <+: rest := fun value scalar fit =>
      fits ⟨value, scalar, fit⟩
    obtain ⟨message, threw⟩ := decodes.stuck rest (offset + (encode unit text).length)
      (tracker.after text) empty none
    refine .inr ⟨.encoding, message, empty, .inl ⟨rfl, none⟩, ?_⟩
    rw [threw]
    rfl

end Decodes

/-- A result of decoding is exact: success means the encoding of a legal text,
and failure is reported where the longest such encoding ends. -/
structure DecodedExactly (version : XmlVersion) (unit : Nat → Bytes) (code : Bytes) (offset : Nat)
    (result : Except XmlParseException DecodedDocument) : Prop where
  accepted : ∀ document, result = .ok document →
    Legal version (values document.chars) ∧ encode unit (values document.chars) = code
  accepts : ∀ text, Legal version text → encode unit text = code →
    ∃ document, result = .ok document ∧ values document.chars = text
  refused : ∀ error, result = .error error → ∃ text rest, code = encode unit text ++ rest ∧
    rest ≠ [] ∧ Legal version text ∧
    (∀ other, Legal version other → encode unit other <+: code → other <+: text) ∧
    error.location.byteOffset = offset + (encode unit text).length ∧
    RefusedFor version unit error.kind rest

theorem Decodes.decodedExactly {version : XmlVersion} {unit : Nat → Bytes}
    {loop : Bytes → Nat → LocationTracker →
      Except XmlParseException (List DecodedChar × LocationTracker)}
    (decodes : Decodes version unit loop) (code : Bytes) (offset size : Nat) :
    DecodedExactly version unit code offset
      (loop code offset {} >>= fun decoded => .ok ⟨decoded.1, decoded.2.current size⟩) := by
  have symbols : ∀ value, isValidXmlChar value version = true → Scalar value :=
    fun _ valid => scalar_of_valid valid
  obtain ⟨text, rest, rfl, legal, stuck, ended⟩ := decodes.exact code offset {}
  have longest : ∀ other, Legal version other → encode unit other <+: encode unit text ++ rest →
      other <+: text := fun other legalOther => decodes.free.longest symbols legal legalOther stuck
  cases ended with
  | inl whole =>
      obtain ⟨rfl, decoded⟩ := whole
      rw [decoded]
      rw [List.append_nil]
      rw [List.append_nil] at longest
      constructor
      · intro document returned
        cases returned
        rw [values_located]
        exact ⟨legal, rfl⟩
      · intro other legalOther same
        have reaches := longest other legalOther (same ▸ List.prefix_rfl)
        have none : ∀ value, isValidXmlChar value version = true → ¬ unit value <+: [] :=
          fun value valid fits => decodes.free.nonempty value (symbols value valid) (List.prefix_nil.mp fits)
        have whole : encode unit other ++ [] = encode unit text := (List.append_nil _).trans same
        have fits : encode unit text <+: encode unit other ++ [] := whole ▸ List.prefix_rfl
        have back : text <+: other := decodes.free.longest symbols legalOther legal none fits
        refine ⟨_, rfl, ?_⟩
        rw [values_located]
        exact back.eq_of_length_le reaches.length_le
      · intro error threw
        cases threw
  | inr failed =>
      obtain ⟨kind, message, nonempty, refused, decoded⟩ := failed
      rw [decoded]
      constructor
      · intro document returned
        cases returned
      · intro other legalOther same
        have reaches := longest other legalOther (same ▸ List.prefix_rfl)
        obtain ⟨more, rfl⟩ := reaches
        rw [encode_append, List.append_assoc] at same
        exact absurd (List.append_eq_nil_iff.mp (List.self_eq_append_right.mp same)).2 nonempty
      · intro error threw
        cases threw
        exact ⟨text, rest, rfl, nonempty, legal, longest, rfl, refused⟩

/-- Both decoders are exact, whatever the bytes, the version and the byte order. -/
theorem decoders_exact (xml : Bytes) (options : ParserOptions) :
    (∀ startOffset, DecodedExactly options.version utf8Unit (xml.drop startOffset) startOffset
      (decodeUtf8 xml startOffset options)) ∧
    ∀ littleEndian, DecodedExactly options.version (utf16Unit littleEndian) (xml.drop 2) 2
      (decodeUtf16 xml littleEndian options) :=
  ⟨fun startOffset => (decodes_utf8 options.version).decodedExactly (xml.drop startOffset) startOffset
      xml.length,
    fun littleEndian => (decodes_utf16 littleEndian options.version).decodedExactly (xml.drop 2) 2
      xml.length⟩

end XmlParser
