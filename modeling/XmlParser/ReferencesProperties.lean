import XmlParser.Progress

/-! What references expand to: legal texts, and without entity declarations
the single characters of the predefined names and of the character references. -/

set_option autoImplicit false

namespace XmlParser

open XmlParser.Computation Comp

theorem Encoded.nil (version : XmlVersion) : Encoded version [] := ⟨[], rfl, Legal.nil version⟩

theorem Encoded.append {version : XmlVersion} {left right : Bytes}
    (first : Encoded version left) (second : Encoded version right) :
    Encoded version (left ++ right) := by
  obtain ⟨leftText, rfl, legalLeft⟩ := first
  obtain ⟨rightText, rfl, legalRight⟩ := second
  exact ⟨leftText ++ rightText, (utf8_append _ _).symm, legal_append.mpr ⟨legalLeft, legalRight⟩⟩

theorem encoded_utf8Unit {version : XmlVersion} {c : Nat} (valid : isValidXmlChar c version = true) :
    Encoded version (utf8Unit c) :=
  ⟨[c], (List.append_nil _).symm, legal_cons.mpr ⟨valid, Legal.nil version⟩⟩

/-- The character that a predefined name stands for. -/
theorem predefined_eq_some {name value : Bytes} (found : Parser.predefined name = some value) :
    ∃ c ∈ [0x3C, 0x3E, 0x26, 0x27, 0x22], value = utf8 [c] := by
  unfold Parser.predefined at found
  split at found
  · cases found
    exact ⟨0x3C, by decide, rfl⟩
  split at found
  · cases found
    exact ⟨0x3E, by decide, rfl⟩
  split at found
  · cases found
    exact ⟨0x26, by decide, rfl⟩
  split at found
  · cases found
    exact ⟨0x27, by decide, rfl⟩
  split at found
  · cases found
    exact ⟨0x22, by decide, rfl⟩
  · cases found

theorem encoded_predefined {version : XmlVersion} {name value : Bytes}
    (found : Parser.predefined name = some value) : Encoded version value := by
  obtain ⟨c, member, rfl⟩ := predefined_eq_some found
  refine ⟨[c], rfl, legal_cons.mpr ⟨?_, Legal.nil version⟩⟩
  have legal : ∀ c ∈ [0x3C, 0x3E, 0x26, 0x27, 0x22], isValidXmlChar c version = true := by
    cases version <;> decide
  exact legal c member

namespace Parser

variable (p : Parser)

theorem parseCharacterReference_ok {σ : Type} {text : Bytes} {start : SourceLocation}
    {s t : σ} {value : Bytes}
    (returned : (p.parseCharacterReference text start).run s = (.ok value, t)) :
    Encoded p.options.version value ∧ t = s := by
  unfold parseCharacterReference at returned
  dsimp only at returned
  generalize (if isHexadecimal text then 16 else 10) = base at returned
  generalize (if isHexadecimal text then 2 else 1) = offset at returned
  split at returned
  · cases returned
  · split at returned
    · cases returned
    · split at returned
      · cases returned
      · rename_i number _ legal
        cases returned
        exact ⟨encoded_utf8Unit (by simpa using legal), rfl⟩

theorem expandRound_of_ne (entities : List (Bytes × Bytes)) (start : SourceLocation)
    (nested : Bytes → Comp Nat Halt Bytes) {ch : UInt8} (other : ch ≠ 0x26) (rest expanded : Bytes)
    (count : Nat) :
    (p.expandRound entities start nested (ch :: rest, expanded)).run count =
      (.ok (.next (rest, expanded ++ [ch])), count) := by
  rw [expandRound, if_pos (by simpa using other)]
  rfl

/-- Bytes without an ampersand are copied. -/
theorem expandLoop_copy (entities : List (Bytes × Bytes)) (start : SourceLocation)
    (nested : Bytes → Comp Nat Halt Bytes) {bytes : Bytes} (others : (0x26 : UInt8) ∉ bytes)
    (rest expanded : Bytes) (count : Nat) :
    (loop (fun current _ => current.1.length) Halt.outOfFuel
        (p.expandRound entities start nested) (bytes ++ rest, expanded)).run count =
      (loop (fun current _ => current.1.length) Halt.outOfFuel
        (p.expandRound entities start nested) (rest, expanded ++ bytes)).run count := by
  induction bytes generalizing expanded with
  | nil => rw [List.nil_append, List.append_nil]
  | cons ch bytes ih =>
      rw [List.mem_cons, not_or] at others
      have step := p.expandRound_of_ne entities start nested (Ne.symm others.1) (bytes ++ rest)
        expanded count
      rw [List.cons_append, run_loop_of_next (p.expandRound_shrinks entities start nested) step,
        ih others.2, List.append_assoc, List.singleton_append]

/-- A round on an ampersand reads a reference up to its semicolon. -/
theorem expandRound_reference_ok {entities : List (Bytes × Bytes)} {start : SourceLocation}
    {nested : Bytes → Comp Nat Halt Bytes} {text : List Nat}
    (legal : Legal p.options.version text) {expanded : Bytes} {before after : Nat}
    {step : LoopStep (Bytes × Bytes) Bytes}
    (ran : (p.expandRound entities start nested (0x26 :: utf8 text, expanded)).run before =
      (.ok step, after)) :
    ∃ name rest value between, text = name ++ 0x3B :: rest ∧
      (p.expandReference entities start nested (utf8 name)).run between = (.ok value, after) ∧
      step = .next (utf8 rest, expanded ++ value) := by
  have small : (0x3B : Nat) < 0x80 := by decide
  rw [expandRound, if_neg (by decide)] at ran
  by_cases closed : (utf8 text).contains 0x3B = true
  · have member : 0x3B ∈ text := (ascii_mem_utf8 small legal).mp (List.contains_iff_mem.mp closed)
    obtain ⟨name, rest, rfl, absent⟩ := List.eq_append_cons_of_mem member
    obtain ⟨taken, dropped⟩ := utf8_takeWhile small rest (legal_append.mp legal).1 absent
    rw [if_neg (by simpa using closed)] at ran
    obtain ⟨_, between, _, ran⟩ := bind_eq_ok.mp ran
    obtain ⟨value, _, expands, ran⟩ := bind_eq_ok.mp ran
    dsimp only at ran
    split at ran
    · cases ran
    · cases ran
      refine ⟨name, rest, value, between, rfl, ?_, ?_⟩
      · rw [← taken]
        exact expands
      · rw [← dropped, ← taken]
        rfl
  · rw [if_pos (by simpa using closed)] at ran
    cases ran

/-- A legal replacement text expands to a legal text. -/
theorem encoded_expandLoop {entities : List (Bytes × Bytes)} {start : SourceLocation}
    {nested : Bytes → Comp Nat Halt Bytes}
    (encoded : ∀ name before value after,
      (p.expandReference entities start nested name).run before = (.ok value, after) →
        Encoded p.options.version value)
    {text : List Nat} (legal : Legal p.options.version text) {expanded value : Bytes}
    (already : Encoded p.options.version expanded) {before after : Nat}
    (returned : (loop (fun current _ => current.1.length) Halt.outOfFuel
      (p.expandRound entities start nested) (utf8 text, expanded)).run before = (.ok value, after)) :
    Encoded p.options.version value := by
  have shrinks := p.expandRound_shrinks entities start nested
  generalize bound : text.length = limit
  induction limit using Nat.strongRecOn generalizing text expanded before with
  | ind limit ih =>
      cases text with
      | nil =>
          rw [run_loop shrinks] at returned
          cases returned
          exact already
      | cons c text =>
          obtain ⟨valid, legalText⟩ := legal_cons.mp legal
          by_cases ampersand : c = 0x26
          · subst ampersand
            have front : utf8 (0x26 :: text) = 0x26 :: utf8 text := rfl
            rw [front] at returned
            cases ran : (p.expandRound entities start nested (0x26 :: utf8 text, expanded)).run before with
            | mk outcome between =>
                cases outcome with
                | error error =>
                    rw [run_loop_of_error shrinks ran] at returned
                    cases returned
                | ok step =>
                    obtain ⟨name, rest, expansion, _, rfl, expands, rfl⟩ :=
                      p.expandRound_reference_ok legalText ran
                    rw [run_loop_of_next shrinks ran] at returned
                    rw [List.length_cons, List.length_append, List.length_cons] at bound
                    have shorter : rest.length < limit := by omega
                    have legalRest := (legal_cons.mp (legal_append.mp legalText).2).2
                    exact ih rest.length shorter legalRest
                      (already.append (encoded _ _ _ _ expands)) returned rfl
          · have others : (0x26 : UInt8) ∉ utf8Unit c := by
              intro member
              exact ampersand ((ascii_mem_utf8Unit (show 0x26 < 0x80 by decide) valid).mp member).symm
            rw [utf8_cons, p.expandLoop_copy entities start nested others] at returned
            rw [List.length_cons] at bound
            have shorter : text.length < limit := by omega
            exact ih text.length shorter legalText (already.append (encoded_utf8Unit valid)) returned rfl

theorem lookupKey_mem {α : Type} {key : Bytes} {value : α} {entries : List (Bytes × α)}
    (found : lookupKey key entries = some value) : ∃ entry ∈ entries, entry.2 = value := by
  unfold lookupKey at found
  obtain ⟨entry, first, rfl⟩ := Option.map_eq_some_iff.mp found
  exact ⟨entry, List.mem_of_find?_eq_some first, rfl⟩

/-- Legal replacement texts make every expansion legal. -/
theorem encoded_expandEntityText {entities : List (Bytes × Bytes)} {start : SourceLocation}
    (sound : ∀ entry ∈ entities, Encoded p.options.version entry.2) {fuel depth : Nat}
    {text value : Bytes} (encoded : Encoded p.options.version text) {before after : Nat}
    (returned : (p.expandEntityText entities start fuel depth text).run before = (.ok value, after)) :
    Encoded p.options.version value := by
  induction fuel generalizing depth text value before after with
  | zero => cases returned
  | succ fuel ih =>
      unfold expandEntityText at returned
      split at returned
      · cases returned
      · obtain ⟨legalText, rfl, legal⟩ := encoded
        refine p.encoded_expandLoop ?_ legal (Encoded.nil _) returned
        intro name before value after expands
        unfold expandReference at expands
        split at expands
        · rename_i found
          cases expands
          exact encoded_predefined found
        · split at expands
          · exact (p.parseCharacterReference_ok expands).1
          · split at expands
            · cases expands
            · rename_i found
              obtain ⟨entry, member, rfl⟩ := lookupKey_mem found
              exact ih (sound entry member) expands

theorem encoded_resolveReference {entities : List (Bytes × Bytes)} {start : SourceLocation}
    (sound : ∀ entry ∈ entities, Encoded p.options.version entry.2) {name value : Bytes}
    {before after : Nat}
    (returned : (p.resolveReference entities name start).run before = (.ok value, after)) :
    Encoded p.options.version value := by
  unfold resolveReference at returned
  split at returned
  · rename_i found
    cases returned
    exact encoded_predefined found
  · split at returned
    · exact (p.parseCharacterReference_ok returned).1
    · split at returned
      · rename_i found
        obtain ⟨entry, member, rfl⟩ := lookupKey_mem found
        exact p.encoded_expandEntityText sound (sound entry member) returned
      · split at returned
        · cases returned
        · cases returned

end Parser

/-! ## References without entity declarations -/

/-- The byte `to_ascii` puts for a code point. -/
def asciiByte (value : Nat) : UInt8 := if value ≤ 0x7F then UInt8.ofNat value else 0x3F

theorem toAscii_eq_map (text : List Nat) : toAscii text = text.map asciiByte := rfl

theorem asciiByte_eq_iff {value x : Nat} (small : x < 0x80) (known : x ≠ 0x3F) :
    asciiByte value = UInt8.ofNat x ↔ value = x := by
  unfold asciiByte
  split
  · constructor
    · intro same
      have numbers := congrArg UInt8.toNat same
      rw [(ascii_tests value (by omega)).2, (ascii_tests x small).2] at numbers
      exact numbers
    · intro same
      rw [same]
  · constructor
    · intro same
      have numbers := congrArg UInt8.toNat same
      rw [(ascii_tests x small).2] at numbers
      exact absurd numbers.symm known
    · intro same
      omega

/-- Only a text itself becomes its own ASCII bytes. -/
theorem toAscii_eq_iff {text literal : List Nat} (small : ∀ x ∈ literal, x < 0x80)
    (known : ∀ x ∈ literal, x ≠ 0x3F) : toAscii text = literal.map UInt8.ofNat ↔ text = literal := by
  induction literal generalizing text with
  | nil => simp [toAscii]
  | cons x literal ih =>
      obtain ⟨first, small⟩ := List.forall_mem_cons.mp small
      obtain ⟨firstKnown, known⟩ := List.forall_mem_cons.mp known
      cases text with
      | nil => simp [toAscii]
      | cons value text =>
          rw [toAscii_eq_map, List.map_cons, List.map_cons, List.cons.injEq, List.cons.injEq,
            asciiByte_eq_iff first firstKnown, ← toAscii_eq_map, ih small known]

open Grammar in
theorem predefined_toAscii (name : List Nat) :
    Parser.predefined (toAscii name) = (predefined? name).map fun c => utf8 [c] := by
  have spelled : ∀ literal : List Nat, (∀ x ∈ literal, x < 0x80 ∧ x ≠ 0x3F) →
      ∀ bytes : Bytes, bytes = literal.map UInt8.ofNat →
      ((toAscii name == bytes) = true ↔ name = literal) := by
    intro literal tests bytes same
    rw [beq_iff_eq, same]
    exact toAscii_eq_iff (fun x member => (tests x member).1) fun x member => (tests x member).2
  unfold Parser.predefined predefined?
  simp only [spelled [0x6C, 0x74] (by decide) (ascii "lt") (by decide),
    spelled [0x67, 0x74] (by decide) (ascii "gt") (by decide),
    spelled [0x61, 0x6D, 0x70] (by decide) (ascii "amp") (by decide),
    spelled [0x61, 0x70, 0x6F, 0x73] (by decide) (ascii "apos") (by decide),
    spelled [0x71, 0x75, 0x6F, 0x74] (by decide) (ascii "quot") (by decide)]
  by_cases lt : name = [0x6C, 0x74]
  · rw [if_pos lt, if_pos lt]
    rfl
  by_cases gt : name = [0x67, 0x74]
  · rw [if_neg lt, if_neg lt, if_pos gt, if_pos gt]
    rfl
  by_cases amp : name = [0x61, 0x6D, 0x70]
  · rw [if_neg lt, if_neg lt, if_neg gt, if_neg gt, if_pos amp, if_pos amp]
    rfl
  by_cases apos : name = [0x61, 0x70, 0x6F, 0x73]
  · rw [if_neg lt, if_neg lt, if_neg gt, if_neg gt, if_neg amp, if_neg amp, if_pos apos, if_pos apos]
    rfl
  by_cases quot : name = [0x71, 0x75, 0x6F, 0x74]
  · rw [if_neg lt, if_neg lt, if_neg gt, if_neg gt, if_neg amp, if_neg amp, if_neg apos, if_neg apos,
      if_pos quot, if_pos quot]
    rfl
  · rw [if_neg lt, if_neg lt, if_neg gt, if_neg gt, if_neg amp, if_neg amp, if_neg apos, if_neg apos,
      if_neg quot, if_neg quot]
    rfl

theorem head_toAscii_iff {name : List Nat} :
    (toAscii name).head? = some 0x23 ↔ name.head? = some 0x23 := by
  cases name with
  | nil => simp [toAscii]
  | cons c rest =>
      rw [toAscii_eq_map, List.map_cons, List.head?_cons, List.head?_cons, Option.some.injEq,
        Option.some.injEq]
      exact @asciiByte_eq_iff c 0x23 (by decide) (by decide)

theorem digitOf_asciiByte (c : Nat) : digitOf (asciiByte c) = Grammar.digit? c := by
  by_cases small : c < 0x80
  · have tests : ∀ c < 0x80, digitOf (asciiByte c) = Grammar.digit? c := by decide +kernel
    exact tests c small
  · have byte : asciiByte c = 0x3F := if_neg (by omega)
    unfold Grammar.digit?
    rw [byte, if_neg (by omega), if_neg (by omega), if_neg (by omega)]
    rfl

theorem digit?_lt {c digit : Nat} (found : Grammar.digit? c = some digit) : digit < 16 := by
  unfold Grammar.digit? at found
  split at found
  · cases found
    omega
  split at found
  · cases found
    omega
  split at found
  · cases found
    omega
  · cases found

theorem digits?_le {base : Nat} (positive : 0 < base) {text : List Nat} {value number : Nat}
    (read : Grammar.digits? base text value = some number) : value ≤ number := by
  induction text generalizing value with
  | nil =>
      cases read
      exact Nat.le_refl _
  | cons c text ih =>
      unfold Grammar.digits? at read
      split at read
      · cases read
      · split at read
        · have after := ih read
          have before : value ≤ value * base := Nat.le_mul_of_pos_right _ positive
          omega
        · cases read

/-- The digit loop reads the number, unless it has more than 32 bits. -/
theorem accumulateDigits_eq_ok_iff {base : Nat} (positive : 0 < base) {text : List Nat}
    {value number : Nat} (fits : value < 2 ^ 32) :
    accumulateDigits base (toAscii text) value = .ok number ↔
      Grammar.digits? base text value = some number ∧ number < 2 ^ 32 := by
  induction text generalizing value with
  | nil =>
      unfold Grammar.digits?
      change (Except.ok value : Except String Nat) = .ok number ↔ _
      simp only [Except.ok.injEq, Option.some.injEq]
      constructor
      · intro same
        exact ⟨same, same ▸ fits⟩
      · exact And.left
  | cons c text ih =>
      rw [toAscii_eq_map, List.map_cons, ← toAscii_eq_map]
      unfold accumulateDigits Grammar.digits?
      rw [digitOf_asciiByte]
      cases found : Grammar.digit? c with
      | none => simp
      | some digit =>
          have small := digit?_lt found
          dsimp only
          by_cases inBase : digit < base
          · rw [if_neg (by omega), if_pos inBase]
            by_cases overflows : value > (2 ^ 32 - 1 - digit) / base
            · rw [if_pos overflows]
              have large : 2 ^ 32 - 1 - digit < value * base :=
                (Nat.div_lt_iff_lt_mul positive).mp overflows
              simp only [reduceCtorEq, false_iff, not_and, not_lt]
              intro read
              have grown := digits?_le positive read
              omega
            · rw [if_neg overflows]
              have bounded : value * base ≤ 2 ^ 32 - 1 - digit :=
                (Nat.le_div_iff_mul_le positive).mp (Nat.le_of_not_lt overflows)
              have kept : (value * base + digit) % 2 ^ 32 = value * base + digit :=
                Nat.mod_eq_of_lt (by omega)
              rw [kept]
              exact ih (by omega)
          · rw [if_pos (by omega), if_neg inBase]
            simp

/-- The character references the parser reads: those of the grammar, and those
with a capital `X`. -/
def looseCharRef? : Grammar.Text → Option Nat
  | 0x23 :: 0x58 :: digits => Grammar.numeral? 16 digits
  | name => Grammar.charRef? name

/-- The characters of a character reference. -/
theorem looseCharRef?_chars {name : Grammar.Text} {c : Nat} (read : looseCharRef? name = some c) :
    ∀ x ∈ name, x = 0x23 ∨ x = 0x58 ∨ x = 0x78 ∨ (Grammar.digit? x).isSome = true := by
  have marked : ∀ {base : Nat} {digits : Grammar.Text}, Grammar.numeral? base digits = some c →
      ∀ x ∈ digits, x = 0x23 ∨ x = 0x58 ∨ x = 0x78 ∨ (Grammar.digit? x).isSome = true :=
    fun read x member => .inr (.inr (.inr (Grammar.numeral?_all read x member)))
  unfold looseCharRef? at read
  split at read
  · exact List.forall_mem_cons.mpr ⟨.inl rfl, List.forall_mem_cons.mpr ⟨.inr (.inl rfl), marked read⟩⟩
  · unfold Grammar.charRef? at read
    split at read
    · exact List.forall_mem_cons.mpr ⟨.inl rfl, List.forall_mem_cons.mpr ⟨.inr (.inr (.inl rfl)), marked read⟩⟩
    · exact List.forall_mem_cons.mpr ⟨.inl rfl, marked read⟩
    · cases read

/-- What a name denotes to the parser without entity declarations. -/
def LooseDenotes (legal : Nat → Prop) (name value : Grammar.Text) : Prop :=
  ∃ c, value = [c] ∧
    (Grammar.predefined? name = some c ∨ (looseCharRef? name = some c ∧ legal c))

theorem valid_lt {c : Nat} {version : XmlVersion} (valid : isValidXmlChar c version = true) :
    c < 2 ^ 32 := by
  have limit := (scalar_of_valid valid).1
  omega

/-- The base and the digits the parser takes from a character reference. -/
theorem looseCharRef?_eq (rest : List Nat) :
    ∃ digits, (toAscii (0x23 :: rest)).drop (if isHexadecimal (toAscii (0x23 :: rest)) then 2 else 1) =
        toAscii digits ∧
      looseCharRef? (0x23 :: rest) =
        Grammar.numeral? (if isHexadecimal (toAscii (0x23 :: rest)) then 16 else 10) digits := by
  have lower : ∀ value, asciiByte value = UInt8.ofNat 0x78 ↔ value = 0x78 :=
    fun _ => asciiByte_eq_iff (by decide) (by decide)
  have upper : ∀ value, asciiByte value = UInt8.ofNat 0x58 ↔ value = 0x58 :=
    fun _ => asciiByte_eq_iff (by decide) (by decide)
  rcases rest with _ | ⟨x, _ | ⟨digit, digits⟩⟩
  · exact ⟨[], rfl, rfl⟩
  · have short : isHexadecimal (toAscii [0x23, x]) = false := rfl
    rw [short, if_neg Bool.false_ne_true, if_neg Bool.false_ne_true]
    refine ⟨[x], rfl, ?_⟩
    unfold looseCharRef?
    split
    · rename_i same
      cases same
      rfl
    · unfold Grammar.charRef?
      split
      · rename_i same
        cases same
        rfl
      · rename_i same
        cases same
        rfl
      · rename_i other
        exact absurd rfl (other [x])
  · have test : isHexadecimal (toAscii (0x23 :: x :: digit :: digits)) =
        (asciiByte x == 0x78 || asciiByte x == 0x58) := by
      simp [isHexadecimal, toAscii_eq_map]
    rw [test]
    by_cases small : x = 0x78
    · subst small
      exact ⟨digit :: digits, rfl, rfl⟩
    by_cases capital : x = 0x58
    · subst capital
      exact ⟨digit :: digits, rfl, rfl⟩
    have decimal : (asciiByte x == 0x78 || asciiByte x == 0x58) = false := by
      rw [Bool.or_eq_false_iff, beq_eq_false_iff_ne, beq_eq_false_iff_ne]
      exact ⟨mt (lower x).mp small, mt (upper x).mp capital⟩
    rw [decimal, if_neg Bool.false_ne_true, if_neg Bool.false_ne_true]
    refine ⟨x :: digit :: digits, rfl, ?_⟩
    unfold looseCharRef?
    split
    · rename_i same
      cases same
      exact absurd rfl capital
    · unfold Grammar.charRef?
      split
      · rename_i same
        cases same
        exact absurd rfl small
      · rename_i same
        cases same
        rfl
      · rename_i other
        exact absurd rfl (other _)

theorem looseCharRef?_head {name : List Nat} {c : Nat} (read : looseCharRef? name = some c) :
    name.head? = some 0x23 := by
  unfold looseCharRef? at read
  split at read
  · rfl
  · unfold Grammar.charRef? at read
    split at read
    · rfl
    · rfl
    · cases read

theorem predefined?_head {name : List Nat} {c : Nat} (known : Grammar.predefined? name = some c) :
    name.head? ≠ some 0x23 := by
  intro head
  cases name with
  | nil => cases head
  | cons x rest =>
      cases head
      simp [Grammar.predefined?] at known

namespace Parser

variable (p : Parser)

theorem readNumber_eq_ok_iff {σ : Type} {base offset : Nat} (positive : 0 < base)
    {bytes : Bytes} {digits : List Nat} (dropped : bytes.drop offset = toAscii digits)
    {start : SourceLocation} {s t : σ} {value : Bytes} :
    (if offset ≥ bytes.length then failAt .wellFormedness start "empty character reference"
      else
        match accumulateDigits base (bytes.drop offset) 0 with
        | .error message => failAt .wellFormedness start message
        | .ok number =>
            if !isValidXmlChar number p.options.version then
              failAt .wellFormedness start "character reference is not an XML character"
            else pure (appendUtf8 [] number) : Comp σ Halt Bytes).run s = (.ok value, t) ↔
      t = s ∧ ∃ c, Grammar.numeral? base digits = some c ∧
        isValidXmlChar c p.options.version = true ∧ value = utf8 [c] := by
  have numbers := @accumulateDigits_eq_ok_iff base positive digits 0
  unfold Grammar.numeral?
  cases digits with
  | nil =>
      rw [if_pos (List.drop_eq_nil_iff.mp dropped)]
      simp
  | cons digit digits =>
      have more : ¬ offset ≥ bytes.length := by
        intro short
        rw [List.drop_eq_nil_of_le short] at dropped
        cases dropped
      rw [if_neg more, dropped]
      cases read : accumulateDigits base (toAscii (digit :: digits)) 0 with
      | error message =>
          simp only [run_failAt, Prod.mk.injEq, reduceCtorEq, false_and, false_iff, not_and,
            not_exists, List.isEmpty_cons, Bool.false_eq_true, if_false]
          intro _ c same valid
          have accepted := (numbers (by decide)).mpr ⟨same, valid_lt valid⟩
          rw [read] at accepted
          cases accepted
      | ok number =>
          obtain ⟨same, _⟩ := (numbers (by decide)).mp read
          simp only [List.isEmpty_cons, Bool.false_eq_true, if_false, same, Option.some.injEq,
            exists_eq_left']
          cases valid : isValidXmlChar number p.options.version with
          | true => simp [appendUtf8, utf8, eq_comm, and_comm]
          | false => simp

theorem parseCharacterReference_eq_ok_iff {σ : Type} {name : List Nat}
    (marked : name.head? = some 0x23) {start : SourceLocation} {s t : σ} {value : Bytes} :
    (p.parseCharacterReference (toAscii name) start).run s = (.ok value, t) ↔
      t = s ∧ ∃ c, looseCharRef? name = some c ∧ isValidXmlChar c p.options.version = true ∧
        value = utf8 [c] := by
  obtain ⟨rest, rfl⟩ : ∃ rest, name = 0x23 :: rest := by
    cases name with
    | nil => cases marked
    | cons c rest =>
        cases marked
        exact ⟨rest, rfl⟩
  obtain ⟨digits, dropped, read⟩ := looseCharRef?_eq rest
  unfold parseCharacterReference
  rw [read]
  refine p.readNumber_eq_ok_iff ?_ dropped
  split
  · decide
  · decide

/-- Without entity declarations a reference is read exactly if it denotes
something. -/
theorem resolveReference_eq_ok_iff {name : List Nat} {start : SourceLocation} {before after : Nat}
    {bytes : Bytes} :
    (p.resolveReference [] (toAscii name) start).run before = (.ok bytes, after) ↔
      after = before ∧ ∃ value, bytes = utf8 value ∧
        LooseDenotes (fun c => isValidXmlChar c p.options.version = true) name value := by
  unfold resolveReference LooseDenotes
  rw [predefined_toAscii]
  cases known : Grammar.predefined? name with
  | some c =>
      have unmarked := predefined?_head known
      constructor
      · intro returned
        cases returned
        exact ⟨rfl, [c], rfl, c, rfl, .inl rfl⟩
      · intro denotes
        obtain ⟨rfl, value, rfl, other, rfl, same | marked⟩ := denotes
        · cases same
          rfl
        · exact absurd (looseCharRef?_head marked.1) unmarked
  | none =>
      have head : ((toAscii name).head? == some 0x23) = true ↔ name.head? = some 0x23 :=
        beq_iff_eq.trans head_toAscii_iff
      dsimp only [Option.map_none]
      by_cases marked : name.head? = some 0x23
      · rw [if_pos (head.mpr marked), p.parseCharacterReference_eq_ok_iff marked]
        refine and_congr_right fun _ => ?_
        constructor
        · intro read
          obtain ⟨c, read, valid, rfl⟩ := read
          exact ⟨[c], rfl, c, rfl, .inr ⟨read, valid⟩⟩
        · intro denotes
          obtain ⟨value, rfl, c, rfl, same | ⟨read, valid⟩⟩ := denotes
          · cases same
          · exact ⟨c, read, valid, rfl⟩
      · rw [if_neg (mt head.mp marked)]
        constructor
        · intro returned
          change Comp.run (if _ then _ else _) _ = _ at returned
          split at returned
          · cases returned
          · cases returned
        · intro denotes
          obtain ⟨_, value, _, c, _, same | ⟨read, _⟩⟩ := denotes
          · cases same
          · exact absurd (looseCharRef?_head read) marked

end Parser

end XmlParser
