import XmlParser.Conformance
import XmlParser.Subsets
import Mathlib.Data.List.Infix

/-! The XML declaration: its grammar, and the search for its words that
`parse_xml_declaration_if_present` makes instead. -/

set_option autoImplicit false

namespace XmlParser

open XmlParser.Computation Comp Grammar

/-! ## The grammar -/

/-- `S` keyword `S? '=' S?` and a value in quotes. -/
structure PseudoAttribute (keyword : Text) (Allowed : Text → Prop) where
  before : Text
  beforeEquals : Text
  afterEquals : Text
  quote : Nat
  value : Text
  apart : before ≠ []
  spaces : Spaces before ∧ Spaces beforeEquals ∧ Spaces afterEquals
  quoted : quote = 0x27 ∨ quote = 0x22
  allowed : Allowed value

def PseudoAttribute.render {keyword : Text} {Allowed : Text → Prop} (attr : PseudoAttribute keyword Allowed) : Text :=
  attr.before ++ (keyword ++ (attr.beforeEquals ++ 0x3D ::
    (attr.afterEquals ++ attr.quote :: (attr.value ++ [attr.quote]))))

def Letter (c : Nat) : Prop := (0x41 ≤ c ∧ c ≤ 0x5A) ∨ (0x61 ≤ c ∧ c ≤ 0x7A)

/-- A letter, then letters, digits, `.`, `_` and `-`. -/
def EncName : Text → Prop
  | [] => False
  | first :: rest => Letter first ∧
      ∀ c ∈ rest, Letter c ∨ (0x30 ≤ c ∧ c ≤ 0x39) ∨ c = 0x2E ∨ c = 0x5F ∨ c = 0x2D

/-- `VersionInfo EncodingDecl? SDDecl? S?`, with a given version number. -/
structure XmlDecl (number : Text) where
  version : PseudoAttribute (u32 "version") fun value => value = number
  encoding : Option (PseudoAttribute (u32 "encoding") EncName)
  standalone : Option (PseudoAttribute (u32 "standalone") fun value => value = u32 "yes" ∨ value = u32 "no")
  after : Text
  spaces : Spaces after

namespace XmlDecl

variable {number : Text}

/-- The declaration between `<?xml` and `?>`. -/
def inside (declaration : XmlDecl number) : Text :=
  declaration.version.render ++ ((declaration.encoding.map PseudoAttribute.render).getD [] ++
    ((declaration.standalone.map PseudoAttribute.render).getD [] ++ declaration.after))

def render (declaration : XmlDecl number) : Text := u32 "<?xml" ++ declaration.inside ++ u32 "?>"

end XmlDecl

namespace XmlVersion

def number : XmlVersion → String
  | xml10 => "1.0"
  | xml11 => "1.1"

def other : XmlVersion → XmlVersion
  | xml10 => xml11
  | xml11 => xml10

end XmlVersion

/-- The text ends its first part at its first `?>`. -/
structure FirstClose (text body after : Text) : Prop where
  split : text = body ++ (u32 "?>" ++ after)
  first : ¬ u32 "?>" <:+: body

def MatchesXmlDecl (version : XmlVersion) (text : Text) : Prop :=
  ∃ body after, FirstClose text body after ∧
    ∃ declaration : XmlDecl (u32 version.number), declaration.render = body ++ u32 "?>"

/-! ## The search -/

theorem containsText_iff {haystack needle : Bytes} :
    containsText haystack needle = true ↔ needle <:+: haystack := by
  unfold containsText
  rw [List.any_eq_true, List.infix_iff_prefix_suffix]
  constructor
  · rintro ⟨suffix, listed, front⟩
    exact ⟨suffix, List.isPrefixOf_iff_prefix.mp front, (List.mem_tails suffix haystack).mp listed⟩
  · rintro ⟨suffix, front, behind⟩
    exact ⟨suffix, (List.mem_tails suffix haystack).mpr behind, List.isPrefixOf_iff_prefix.mpr front⟩

/-- What the declaration is searched for. -/
structure HoldsWords (version : XmlVersion) (declaration : Bytes) : Prop where
  keyword : ascii "version" <:+: declaration
  own : ascii version.number <:+: declaration
  single : ¬ ascii version.other.number <:+: declaration

theorem firstClose_iff {declaration after : Text} {text : Text} :
    FirstClose text (u32 "<?xml" ++ declaration) after ↔
      text = u32 "<?xml" ++ (declaration ++ (u32 "?>" ++ after)) ∧ ¬ u32 "?>" <:+: declaration := by
  have words : u32 "?>" <:+: u32 "<?xml" ++ declaration ↔ u32 "?>" <:+: declaration := by
    change [0x3F, 0x3E] <:+: 0x3C :: 0x3F :: 0x78 :: 0x6D :: 0x6C :: declaration ↔ [0x3F, 0x3E] <:+: declaration
    simp [List.infix_cons_iff, List.cons_prefix_cons]
  constructor
  · rintro ⟨split, first⟩
    exact ⟨by simpa using split, mt words.mpr first⟩
  · rintro ⟨split, first⟩
    exact ⟨by simpa using split, mt words.mp first⟩

theorem FirstClose.declaration_within {text declaration after : Text}
    (closes : FirstClose text (u32 "<?xml" ++ declaration) after) : declaration <:+: text :=
  ⟨u32 "<?xml", u32 "?>" ++ after, closes.split.symm⟩

theorem FirstClose.unique {text body after other rest : Text} (one : FirstClose text body after)
    (second : FirstClose text other rest) : body = other ∧ after = rest := by
  have same := one.split.symm.trans second.split
  have avoidsOne := (avoids_pair_iff (by decide) body after).mpr one.first
  have avoidsSecond := (avoids_pair_iff (by decide) other rest).mpr second.first
  obtain ⟨rfl, tails⟩ := Avoids.unique avoidsOne avoidsSecond ⟨after, rfl⟩ ⟨rest, rfl⟩ same
  exact ⟨rfl, by simpa using tails⟩

/-- The two tests of the source. -/
theorem holdsWords_iff {version : XmlVersion} {declaration : Bytes} :
    HoldsWords version declaration ↔
      ¬ (!containsText declaration (ascii "version") ||
        (!containsText declaration (ascii "1.0") && !containsText declaration (ascii "1.1"))) = true ∧
      ¬ ((containsText declaration (ascii "1.0") && version != .xml10) ||
        (containsText declaration (ascii "1.1") && version != .xml11)) = true := by
  have searches : HoldsWords version declaration ↔ containsText declaration (ascii "version") = true ∧
      containsText declaration (ascii version.number) = true ∧
      containsText declaration (ascii version.other.number) = false := by
    rw [← Bool.not_eq_true, containsText_iff, containsText_iff, containsText_iff]
    constructor
    · rintro ⟨keyword, own, single⟩
      exact ⟨keyword, own, single⟩
    · rintro ⟨keyword, own, single⟩
      exact ⟨keyword, own, single⟩
  rw [searches]
  cases version with
  | xml10 | xml11 =>
      simp only [XmlVersion.number, XmlVersion.other]
      cases containsText declaration (ascii "version") <;> cases containsText declaration (ascii "1.0") <;>
        cases containsText declaration (ascii "1.1") <;> decide

/-- The member returns. -/
def Parser.PassesDeclaration (p : Parser) (rest : List DecodedChar) : Prop :=
  ∃ final, p.parseXmlDeclarationIfPresent.run rest = (.ok (), final)

theorem Parser.passesDeclaration_iff (p : Parser) {rest : List DecodedChar} (begins : HasXmlDeclaration (values rest)) :
    p.PassesDeclaration rest ↔ ∃ declaration after, FirstClose (values rest) (u32 "<?xml" ++ declaration) after ∧
      (utf8 declaration).length ≤ p.options.maxTokenBytes ∧ HoldsWords p.options.version (utf8 declaration) := by
  obtain ⟨c, tail, spelled, space⟩ := begins
  obtain ⟨opening, others, rfl, opened, further⟩ := values_eq_append spelled
  have starts : startsWith (u32 "<?xml") (opening ++ others) = true := by
    rw [startsWith_iff, spelled]
    exact List.prefix_append _ _
  have next : isSpace (peek others) = true := by
    cases others with
    | nil => cases further
    | cons char others =>
        cases further
        exact isSpace_iff.mpr space
  have behind : ∀ consumed after, values consumed = u32 "<?xml" → opening ++ others = consumed ++ after →
      after = others := by
    intro consumed after same split
    have lengths : opening.length = consumed.length := by
      rw [← values_length, ← values_length, opened, same]
    exact (List.append_inj split lengths).2.symm
  unfold PassesDeclaration parseXmlDeclarationIfPresent
  simp only [run_read_bind, starts, peekAt_opening opened, next, Bool.not_true, Bool.or_false, Bool.false_eq_true,
    if_false, bind_eq_ok, expectSequence_eq_ok_iff]
  constructor
  · rintro ⟨final, _, after, ⟨consumed, same, split⟩, ran⟩
    cases behind consumed after same split
    rw [if_neg (by simp [next])] at ran
    simp only [bind_eq_ok, expectSequence_eq_ok_iff] at ran
    obtain ⟨text, _, scanned, _, rest, ⟨closing, closed, rfl⟩, judged⟩ := ran
    have stopped : u32 "?>" <+: values (closing ++ rest) := by simp [closed]
    obtain ⟨body, rfl, avoids, rfl, fits⟩ := (whileNotAt_appendPeek_eq_ok_iff p stopped).mp scanned
    rw [values_append, closed] at avoids
    have first := (avoids_pair_iff (by decide) _ _).mp avoids
    have whole : values (opening ++ (body ++ (closing ++ rest))) =
        u32 "<?xml" ++ (values body ++ (u32 "?>" ++ values rest)) := by
      simp only [values_append, opened, closed]
    split at judged
    · cases judged
    · rename_i words
      split at judged
      · cases judged
      · rename_i versions
        exact ⟨values body, values rest, firstClose_iff.mpr ⟨whole, first⟩, fits,
          holdsWords_iff.mpr ⟨words, versions⟩⟩
  · rintro ⟨declaration, after, closes, fits, words⟩
    obtain ⟨split, first⟩ := firstClose_iff.mp closes
    rw [values_append, opened] at split
    obtain ⟨body, ending, rfl, rfl, ended⟩ := values_eq_append (List.append_cancel_left split)
    obtain ⟨closing, final, rfl, closed, rfl⟩ := values_eq_append ended
    have stopped : u32 "?>" <+: values (closing ++ final) := by simp [closed]
    have avoids : Avoids (u32 "?>") (values body) (values (closing ++ final)) := by
      rw [values_append, closed]
      exact (avoids_pair_iff (by decide) _ _).mpr first
    obtain ⟨keyword, versions⟩ := holdsWords_iff.mp words
    refine ⟨final, (), body ++ (closing ++ final), ⟨opening, opened, rfl⟩, ?_⟩
    rw [if_neg (by simp [next])]
    simp only [bind_eq_ok, expectSequence_eq_ok_iff]
    have scanned := fun start =>
      (@whileNotAt_appendPeek_eq_ok_iff p _ start _ _ _ stopped).mpr ⟨body, rfl, avoids, rfl, fits⟩
    refine ⟨_, _, scanned _, (), final, ⟨closing, closed, rfl⟩, ?_⟩
    rw [if_neg keyword, if_neg versions]
    rfl

/-! ## The words of a declaration -/

section Infix

variable {pattern : Bytes}

theorem infix_append_cons_iff {unused : UInt8} (absent : unused ∉ pattern) (left right : Bytes) :
    pattern <:+: left ++ unused :: right ↔ pattern <:+: left ∨ pattern <:+: right := by
  have front : ∀ left : Bytes, pattern <+: left ++ unused :: right ↔ pattern <+: left := by
    intro left
    constructor
    · intro whole
      rcases List.prefix_or_prefix_of_prefix whole (List.prefix_append left (unused :: right)) with inside | outside
      · exact inside
      · obtain ⟨more, rfl⟩ := outside
        cases more with
        | nil => simp
        | cons byte more =>
            have same := List.prefix_append_right_inj left |>.mp whole
            obtain ⟨rfl, _⟩ := List.cons_prefix_cons.mp same
            exact absurd (List.mem_append_right left List.mem_cons_self) absent
    · exact fun inside => inside.trans (List.prefix_append _ _)
  induction left with
  | nil =>
      have nothing := front []
      rw [List.nil_append] at nothing ⊢
      rw [List.infix_cons_iff, nothing, List.prefix_nil, List.infix_nil]
  | cons byte left ih =>
      have whole := front (byte :: left)
      rw [List.cons_append] at whole ⊢
      rw [List.infix_cons_iff, whole, List.infix_cons_iff, or_assoc]
      exact or_congr_right ih

/-- No byte of the character occurs in the pattern. -/
def Foreign (pattern : Bytes) (c : Nat) : Prop := ∀ byte ∈ utf8Unit c, byte ∉ pattern

instance (pattern : Bytes) (c : Nat) : Decidable (Foreign pattern c) :=
  inferInstanceAs (Decidable (∀ byte ∈ utf8Unit c, byte ∉ pattern))

theorem infix_bytes_append_iff (filled : pattern ≠ []) {bytes : Bytes} (absent : ∀ byte ∈ bytes, byte ∉ pattern)
    (rest : Bytes) : pattern <:+: bytes ++ rest ↔ pattern <:+: rest := by
  induction bytes with
  | nil => rfl
  | cons byte bytes ih =>
      obtain ⟨first, others⟩ := List.forall_mem_cons.mp absent
      have parted := infix_append_cons_iff first [] (bytes ++ rest)
      rw [List.nil_append, List.infix_nil, ih others] at parted
      rw [List.cons_append, parted, or_iff_right filled]

theorem infix_utf8_append_iff (filled : pattern ≠ []) {text : Text} (foreign : ∀ c ∈ text, Foreign pattern c)
    (rest : Text) : pattern <:+: utf8 (text ++ rest) ↔ pattern <:+: utf8 rest := by
  rw [utf8_append]
  apply infix_bytes_append_iff filled
  intro byte member
  obtain ⟨c, listed, inUnit⟩ := List.mem_flatMap.mp member
  exact foreign c listed byte inUnit

theorem infix_utf8_append_cons_iff (filled : pattern ≠ []) {c : Nat} (foreign : Foreign pattern c)
    (left right : Text) :
    pattern <:+: utf8 (left ++ c :: right) ↔ pattern <:+: utf8 left ∨ pattern <:+: utf8 right := by
  rw [utf8_append, utf8_cons]
  unfold Foreign at foreign
  cases unit : utf8Unit c with
  | nil => exact absurd unit (utf8Unit_ne_nil c)
  | cons byte unit' =>
      rw [unit] at foreign
      obtain ⟨first, others⟩ := List.forall_mem_cons.mp foreign
      rw [List.cons_append, infix_append_cons_iff first, infix_bytes_append_iff filled others]

end Infix

namespace XmlVersion

variable (version : XmlVersion)

theorem ascii_number_ne_nil : ascii version.number ≠ [] := by
  cases version <;> decide +kernel

theorem foreign_of_markup {c : Nat} (markup : IsSpace c ∨ c = 0x3D ∨ c = 0x27 ∨ c = 0x22) :
    Foreign (ascii version.number) c := by
  rcases markup with (rfl | rfl | rfl | rfl) | rfl | rfl | rfl <;> cases version <;> decide +kernel

theorem foreign_keywords : (∀ c ∈ u32 "version", Foreign (ascii version.number) c) ∧
    (∀ c ∈ u32 "encoding", Foreign (ascii version.number) c) ∧
    ∀ c ∈ u32 "standalone", Foreign (ascii version.number) c := by
  cases version <;> decide +kernel

theorem not_infix_values : ¬ ascii version.other.number <:+: utf8 (u32 version.number) ∧
    ¬ ascii version.number <:+: utf8 (u32 "yes") ∧ ¬ ascii version.number <:+: utf8 (u32 "no") := by
  cases version <;> decide +kernel

end XmlVersion

/-- A version number occurs in a pseudo attribute and what follows where it occurs in the value or behind. -/
theorem PseudoAttribute.infix_render_append_iff {keyword : Text} {Allowed : Text → Prop}
    (attr : PseudoAttribute keyword Allowed) (version : XmlVersion)
    (foreign : ∀ c ∈ keyword, Foreign (ascii version.number) c) (rest : Text) :
    ascii version.number <:+: utf8 (attr.render ++ rest) ↔
      ascii version.number <:+: utf8 attr.value ∨ ascii version.number <:+: utf8 rest := by
  have filled := version.ascii_number_ne_nil
  have space : ∀ text : Text, Spaces text → ∀ c ∈ text, Foreign (ascii version.number) c :=
    fun text spaces c member => version.foreign_of_markup (.inl (spaces c member))
  have equals : ∀ c ∈ [0x3D], Foreign (ascii version.number) c :=
    List.forall_mem_singleton.mpr (version.foreign_of_markup (.inr (.inl rfl)))
  have quote : Foreign (ascii version.number) attr.quote := version.foreign_of_markup (.inr (.inr attr.quoted))
  have parts : attr.render ++ rest = attr.before ++ (keyword ++ (attr.beforeEquals ++ ([0x3D] ++ (attr.afterEquals ++
      ([attr.quote] ++ (attr.value ++ attr.quote :: rest)))))) := by
    simp [PseudoAttribute.render]
  rw [parts, infix_utf8_append_iff filled (space _ attr.spaces.1), infix_utf8_append_iff filled foreign,
    infix_utf8_append_iff filled (space _ attr.spaces.2.1), infix_utf8_append_iff filled equals,
    infix_utf8_append_iff filled (space _ attr.spaces.2.2),
    infix_utf8_append_iff filled (List.forall_mem_singleton.mpr quote), infix_utf8_append_cons_iff filled quote]

/-- The other version number occurs in a declaration only where the encoding name has it. -/
theorem XmlDecl.infix_inside_iff {version : XmlVersion} (declaration : XmlDecl (u32 version.number)) :
    ascii version.other.number <:+: utf8 declaration.inside ↔
      ∃ encoding ∈ declaration.encoding, ascii version.other.number <:+: utf8 encoding.value := by
  obtain ⟨versionWord, encodingWord, standaloneWord⟩ := version.other.foreign_keywords
  obtain ⟨_, notYes, notNo⟩ := version.other.not_infix_values
  have ending : ¬ ascii version.other.number <:+: utf8 declaration.after := by
    have spaces : ∀ c ∈ declaration.after, Foreign (ascii version.other.number) c :=
      fun c member => version.other.foreign_of_markup (.inl (declaration.spaces c member))
    have parted := infix_utf8_append_iff version.other.ascii_number_ne_nil spaces []
    rw [List.append_nil, utf8_nil, List.infix_nil] at parted
    exact mt parted.mp version.other.ascii_number_ne_nil
  have tail : ¬ ascii version.other.number <:+:
      utf8 ((declaration.standalone.map PseudoAttribute.render).getD [] ++ declaration.after) := by
    cases declaration.standalone with
    | none => exact ending
    | some standalone =>
        change ¬ _ <:+: utf8 (standalone.render ++ declaration.after)
        rw [standalone.infix_render_append_iff version.other standaloneWord]
        rintro (inValue | behind)
        · rcases standalone.allowed with yes | no
          · exact notYes (yes ▸ inValue)
          · exact notNo (no ▸ inValue)
        · exact ending behind
  unfold inside
  rw [declaration.version.infix_render_append_iff version.other versionWord, declaration.version.allowed,
    or_iff_right version.not_infix_values.1]
  cases declaration.encoding with
  | none => simpa using tail
  | some encoding =>
      change _ <:+: utf8 (encoding.render ++ _) ↔ _
      rw [encoding.infix_render_append_iff version.other encodingWord, or_iff_left tail]
      simp

theorem infix_utf8 {part whole : Text} (inside : part <:+: whole) : utf8 part <:+: utf8 whole := by
  obtain ⟨before, behind, rfl⟩ := inside
  exact ⟨utf8 before, utf8 behind, by rw [utf8_append, utf8_append]⟩

theorem XmlVersion.utf8_number (version : XmlVersion) : utf8 (u32 version.number) = ascii version.number := by
  cases version <;> decide +kernel

theorem PseudoAttribute.infix_render {keyword : Text} {Allowed : Text → Prop} (attr : PseudoAttribute keyword Allowed)
    (rest : Text) : keyword <:+: attr.render ++ rest ∧ attr.value <:+: attr.render ++ rest := by
  obtain ⟨before, beforeEquals, afterEquals, quote, value, _, _, _, _⟩ := attr
  constructor
  · refine ⟨before, beforeEquals ++ 0x3D :: (afterEquals ++ quote :: (value ++ quote :: rest)), ?_⟩
    simp [render]
  · refine ⟨before ++ keyword ++ beforeEquals ++ 0x3D :: (afterEquals ++ [quote]), quote :: rest, ?_⟩
    simp [render]

theorem XmlDecl.equals_mem {number : Text} (declaration : XmlDecl number) : 0x3D ∈ declaration.inside := by
  simp [inside, PseudoAttribute.render]

theorem XmlDecl.encoding_within {number : Text} (declaration : XmlDecl number)
    {encoding : PseudoAttribute (u32 "encoding") EncName} (member : encoding ∈ declaration.encoding) :
    u32 "encoding" <:+: declaration.inside := by
  unfold inside
  rw [Option.mem_def.mp member]
  exact (encoding.infix_render _).1.trans (List.suffix_append _ _).isInfix

/-- What the search finds in a declaration. -/
theorem XmlDecl.holdsWords_iff {version : XmlVersion} (declaration : XmlDecl (u32 version.number)) :
    HoldsWords version (utf8 declaration.inside) ↔
      ∀ encoding ∈ declaration.encoding, ¬ ascii version.other.number <:+: utf8 encoding.value := by
  obtain ⟨keyword, own⟩ :
      u32 "version" <:+: declaration.inside ∧ declaration.version.value <:+: declaration.inside :=
    declaration.version.infix_render _
  constructor
  · intro words encoding member found
    exact words.single (declaration.infix_inside_iff.mpr ⟨encoding, member, found⟩)
  · intro lacks
    refine ⟨?_, ?_, ?_⟩
    · exact infix_utf8 keyword
    · have inBytes := infix_utf8 own
      rwa [declaration.version.allowed, version.utf8_number] at inBytes
    · intro found
      obtain ⟨encoding, member, inValue⟩ := declaration.infix_inside_iff.mp found
      exact lacks encoding member inValue

/-! ## Reading by the grammar -/

/-- The member returns for exactly the declarations of the grammar. -/
def ReadsDeclaration (p : Parser) (rest : List DecodedChar) : Prop :=
  p.PassesDeclaration rest ↔ MatchesXmlDecl p.options.version (values rest)

def WithinTokenLimit (p : Parser) (text : Text) : Prop :=
  ∀ declaration after, FirstClose text (u32 "<?xml" ++ declaration) after →
    (utf8 declaration).length ≤ p.options.maxTokenBytes

/-- The search is not mistaken: no encoding name has the other version number, and no
other text has the words. -/
structure Unmistaken (version : XmlVersion) (text : Text) : Prop where
  accepted : ∀ (declaration : XmlDecl (u32 version.number)) (after : Text),
    FirstClose text (u32 "<?xml" ++ declaration.inside) after →
    ∀ encoding ∈ declaration.encoding, ¬ ascii version.other.number <:+: utf8 encoding.value
  refused : ∀ declaration after, FirstClose text (u32 "<?xml" ++ declaration) after →
    HoldsWords version (utf8 declaration) → MatchesXmlDecl version text

theorem readsDeclaration_iff (p : Parser) {rest : List DecodedChar} (begins : HasXmlDeclaration (values rest))
    (within : WithinTokenLimit p (values rest)) :
    ReadsDeclaration p rest ↔ Unmistaken p.options.version (values rest) := by
  have passes := p.passesDeclaration_iff begins
  constructor
  · intro reads
    constructor
    · intro declaration after closes
      have matched : MatchesXmlDecl p.options.version (values rest) := ⟨_, after, closes, declaration, rfl⟩
      obtain ⟨searched, _, again, _, words⟩ := passes.mp (reads.mpr matched)
      have same := List.append_cancel_left (closes.unique again).1
      subst same
      exact declaration.holdsWords_iff.mp words
    · intro declaration after closes words
      exact reads.mp (passes.mpr ⟨declaration, after, closes, within declaration after closes, words⟩)
  · intro unmistaken
    constructor
    · intro passed
      obtain ⟨declaration, after, closes, _, words⟩ := passes.mp passed
      exact unmistaken.refused declaration after closes words
    · rintro ⟨body, after, closes, declaration, rendered⟩
      have same : u32 "<?xml" ++ declaration.inside = body := List.append_cancel_right rendered
      subst same
      have words := declaration.holdsWords_iff.mpr (unmistaken.accepted declaration after closes)
      exact passes.mpr ⟨declaration.inside, after, closes, within _ after closes, words⟩

/-! ## Documents -/

/-- A document in ASCII, decoded with default options. -/
theorem exists_decoded {literal : String} (decodes : (decodeDocument (ascii literal) {}).map
    (fun decoded => values decoded.chars) = .ok (u32 literal)) :
    ∃ decoded, decodeDocument (ascii literal) {} = .ok decoded ∧ values decoded.chars = u32 literal := by
  cases decoded : decodeDocument (ascii literal) {} with
  | error exception =>
      rw [decoded] at decodes
      cases decodes
  | ok document =>
      rw [decoded] at decodes
      exact ⟨document, rfl, Except.ok.inj decodes⟩

theorem withinTokenLimit_of_short {p : Parser} {text : Text} (short : (utf8 text).length ≤ p.options.maxTokenBytes) :
    WithinTokenLimit p text := by
  intro declaration after closes
  exact (infix_utf8 closes.declaration_within).length_le.trans short

theorem spaces_blank : Spaces [0x20] := List.forall_mem_singleton.mpr (.inl rfl)

/-- ` version="1.0"` -/
def versionOnly : XmlDecl (u32 "1.0") where
  version := {
    before := [0x20]
    beforeEquals := []
    afterEquals := []
    quote := 0x22
    value := u32 "1.0"
    apart := List.cons_ne_nil _ _
    spaces := ⟨spaces_blank, List.forall_mem_nil _, List.forall_mem_nil _⟩
    quoted := .inr rfl
    allowed := rfl }
  encoding := none
  standalone := none
  after := []
  spaces := List.forall_mem_nil _

theorem readsDeclaration_iff_sample :
    ∃ decoded, decodeDocument (ascii "<?xml version=\"1.0\"?><a/>") {} = .ok decoded ∧
      ReadsDeclaration ⟨.recording, {}, decoded.endLocation⟩ decoded.chars := by
  obtain ⟨decoded, decodes, spelled⟩ := @exists_decoded "<?xml version=\"1.0\"?><a/>" (by decide +kernel)
  have begins : HasXmlDeclaration (values decoded.chars) := ⟨0x20, u32 "version=\"1.0\"?><a/>", spelled, .inl rfl⟩
  have short : (utf8 (u32 "<?xml version=\"1.0\"?><a/>")).length ≤ ({} : ParserOptions).maxTokenBytes := by
    decide +kernel
  have within : WithinTokenLimit ⟨.recording, {}, decoded.endLocation⟩ (values decoded.chars) := by
    apply withinTokenLimit_of_short
    rw [spelled]
    exact short
  refine ⟨decoded, decodes, (readsDeclaration_iff _ begins within).mpr ?_⟩
  rw [spelled]
  constructor
  · intro declaration after closes encoding member _
    have part : u32 "encoding" <:+: u32 "<?xml version=\"1.0\"?><a/>" :=
      (declaration.encoding_within member).trans (closes.declaration_within)
    have third : 0x63 ∈ u32 "encoding" := List.mem_cons_of_mem _ (List.mem_cons_of_mem _ List.mem_cons_self)
    exact absurd (part.subset third) (by decide +kernel)
  · intro _ _ _ _
    exact ⟨u32 "<?xml" ++ versionOnly.inside, u32 "<a/>", ⟨rfl, by decide +kernel⟩, versionOnly, rfl⟩

/-- The words are there, but there is no declaration. -/
theorem not_readsDeclaration :
    ∃ decoded, decodeDocument (ascii "<?xml bogus version 1.0 ?><a/>") {} = .ok decoded ∧
      HasXmlDeclaration (values decoded.chars) ∧
      WithinTokenLimit ⟨.recording, {}, decoded.endLocation⟩ (values decoded.chars) ∧
      ¬ ReadsDeclaration ⟨.recording, {}, decoded.endLocation⟩ decoded.chars := by
  obtain ⟨decoded, decodes, spelled⟩ := @exists_decoded "<?xml bogus version 1.0 ?><a/>" (by decide +kernel)
  have begins : HasXmlDeclaration (values decoded.chars) :=
    ⟨0x20, u32 "bogus version 1.0 ?><a/>", spelled, .inl rfl⟩
  have short : (utf8 (u32 "<?xml bogus version 1.0 ?><a/>")).length ≤ ({} : ParserOptions).maxTokenBytes := by
    decide +kernel
  have within : WithinTokenLimit ⟨.recording, {}, decoded.endLocation⟩ (values decoded.chars) := by
    apply withinTokenLimit_of_short
    rw [spelled]
    exact short
  refine ⟨decoded, decodes, begins, within, ?_⟩
  intro reads
  have passes := Parser.passesDeclaration_iff ⟨.recording, {}, decoded.endLocation⟩ begins
  have closes : FirstClose (values decoded.chars) (u32 "<?xml" ++ u32 " bogus version 1.0 ") (u32 "<a/>") := by
    rw [spelled]
    exact ⟨rfl, by decide +kernel⟩
  have words : HoldsWords .xml10 (utf8 (u32 " bogus version 1.0 ")) := by
    constructor <;> decide +kernel
  have matched := reads.mp (passes.mpr ⟨_, _, closes, within _ _ closes, words⟩)
  obtain ⟨body, after, split, declaration, rendered⟩ := matched
  have equals : 0x3D ∈ u32 "<?xml bogus version 1.0 ?><a/>" := by
    have same : u32 "<?xml" ++ declaration.inside = body := List.append_cancel_right rendered
    subst same
    rw [← spelled]
    exact split.declaration_within.subset declaration.equals_mem
  exact absurd equals (by decide +kernel)

end XmlParser
