import XmlParser.Dialects
import XmlParser.Redeclaring

/-! The spelling that serializing gives to text and to start tags, as syntax trees
of the dialect that the parser reads. -/

set_option autoImplicit false

namespace XmlParser

open Grammar Dom

/-! ## Escapes -/

/-- A character, or the reference that stands for it. -/
def escapedPiece (named : Nat → Option Text) (c : Nat) : Piece :=
  match named c with
  | some name => .reference name [c]
  | none => .literal c

def textEscape (c : Nat) : Option Text :=
  if c = 0x26 then some (u32 "amp")
  else if c = 0x3C then some (u32 "lt")
  else if c = 0x3E then some (u32 "gt")
  else none

def valueEscape (c : Nat) : Option Text :=
  if c = 0x26 then some (u32 "amp")
  else if c = 0x3C then some (u32 "lt")
  else if c = 0x22 then some (u32 "quot")
  else none

/-- The names are those of the predefined entities, and no excluded character is
left to stand for itself. -/
structure Escapes (named : Nat → Option Text) (excluded : Nat → Prop) : Prop where
  predefined : ∀ c name, named c = some name → predefined? name = some c ∧ 0x3B ∉ name
  covers : ∀ c, named c = none → ¬ excluded c
  small : ∀ c, 0x7F < c → named c = none

theorem escapes_text : Escapes textEscape ExcludedFromText where
  predefined c name found := by
    unfold textEscape at found
    split at found
    · cases found
      simp_all [predefined?, u32]
    split at found
    · cases found
      simp_all [predefined?, u32]
    split at found
    · cases found
      simp_all [predefined?, u32]
    · cases found
  covers c none excluded := by
    rcases excluded with rfl | rfl
    · cases none
    · cases none
  small c large := by
    unfold textEscape
    rw [if_neg (by omega), if_neg (by omega), if_neg (by omega)]

theorem escapes_value : Escapes valueEscape (ExcludedFromValue 0x22) where
  predefined c name found := by
    unfold valueEscape at found
    split at found
    · cases found
      simp_all [predefined?, u32]
    split at found
    · cases found
      simp_all [predefined?, u32]
    split at found
    · cases found
      simp_all [predefined?, u32]
    · cases found
  covers c none excluded := by
    rcases excluded with rfl | rfl | rfl
    · cases none
    · cases none
    · cases none
  small c large := by
    unfold valueEscape
    rw [if_neg (by omega), if_neg (by omega), if_neg (by omega)]

/-- A text escaped byte by byte. -/
def escapeBytes (named : Nat → Option Text) (bytes : Bytes) : Bytes :=
  bytes.flatMap fun byte =>
    match named byte.toNat with
    | some name => utf8 (0x26 :: (name ++ [0x3B]))
    | none => [byte]

theorem toNat_ne {byte other : UInt8} (different : byte ≠ other) : byte.toNat ≠ other.toNat :=
  mt UInt8.toNat_inj.mp different

theorem escapeText_eq (bytes : Bytes) : escapeText bytes = escapeBytes textEscape bytes := by
  induction bytes with
  | nil => rfl
  | cons byte rest ih =>
      unfold escapeText escapeBytes
      rw [ih, List.flatMap_cons]
      congr 1
      by_cases amp : byte = 0x26
      · subst amp
        rfl
      by_cases lt : byte = 0x3C
      · subst lt
        rfl
      by_cases gt : byte = 0x3E
      · subst gt
        rfl
      have notAmp : byte.toNat ≠ 0x26 := toNat_ne amp
      have notLt : byte.toNat ≠ 0x3C := toNat_ne lt
      have notGt : byte.toNat ≠ 0x3E := toNat_ne gt
      simp [textEscape, notAmp, notLt, notGt, amp, lt, gt]

theorem escapeAttribute_eq (bytes : Bytes) : escapeAttribute bytes = escapeBytes valueEscape bytes := by
  induction bytes with
  | nil => rfl
  | cons byte rest ih =>
      unfold escapeAttribute escapeBytes
      rw [ih, List.flatMap_cons]
      congr 1
      by_cases amp : byte = 0x26
      · subst amp
        rfl
      by_cases lt : byte = 0x3C
      · subst lt
        rfl
      by_cases quot : byte = 0x22
      · subst quot
        rfl
      have notAmp : byte.toNat ≠ 0x26 := toNat_ne amp
      have notLt : byte.toNat ≠ 0x3C := toNat_ne lt
      have notQuot : byte.toNat ≠ 0x22 := toNat_ne quot
      simp [valueEscape, notAmp, notLt, notQuot, amp, lt, quot]

section Escaped

variable {named : Nat → Option Text} {excluded : Nat → Prop} {version : XmlVersion}

/-- Escaping the bytes of a text spells its characters. -/
theorem escapeBytes_utf8 (escapes : Escapes named excluded) {text : Text} (legal : Legal version text) :
    escapeBytes named (utf8 text) = utf8 (renderPieces (text.map (escapedPiece named))) := by
  induction text with
  | nil => rfl
  | cons c text ih =>
      obtain ⟨valid, legalRest⟩ := legal_cons.mp legal
      have first : escapeBytes named (utf8Unit c) = utf8 (escapedPiece named c).render := by
        unfold escapedPiece escapeBytes
        by_cases one : c ≤ 0x7F
        · rw [utf8Unit_one one, List.flatMap_singleton, (ascii_tests c (by omega)).2]
          cases named c with
          | some name => rfl
          | none => simp [Piece.render, utf8, utf8Unit_one one]
        · rw [escapes.small c (by omega)]
          have kept : ∀ byte ∈ utf8Unit c, named byte.toNat = none := by
            intro byte member
            have high := utf8Unit_high (by omega) (scalar_of_valid valid).1 byte member
            exact escapes.small _ (by omega)
          have same : (utf8Unit c).flatMap (fun byte =>
              match named byte.toNat with
              | some name => utf8 (0x26 :: (name ++ [0x3B]))
              | none => [byte]) = (utf8Unit c).flatMap fun byte => [byte] :=
            List.flatMap_congr fun byte member => by rw [kept byte member]
          rw [same]
          simp [Piece.render, utf8]
      unfold escapeBytes at first ih ⊢
      rw [utf8_cons, List.flatMap_append, first, ih legalRest]
      simp [renderPieces, utf8_append]

theorem pieceValues_escaped (text : Text) : pieceValues (text.map (escapedPiece named)) = text := by
  induction text with
  | nil => rfl
  | cons c text ih =>
      have value : (escapedPiece named c).value = [c] := by
        unfold escapedPiece
        split <;> rfl
      unfold pieceValues at ih ⊢
      simp [value, ih]

theorem readable_escaped (escapes : Escapes named excluded) {text : Text} (legal : Legal version text) :
    ∀ item ∈ text.map (escapedPiece named), item.Readable (looseDialect version) excluded := by
  intro item member
  obtain ⟨c, isChar, rfl⟩ := List.mem_map.mp member
  unfold escapedPiece
  cases found : named c with
  | some name =>
      obtain ⟨known, plain⟩ := escapes.predefined c name found
      exact ⟨plain, c, rfl, .inl known⟩
  | none => exact ⟨legal c isChar, escapes.covers c found⟩

end Escaped

/-! ## Start tags -/

/-- An attribute as it is written. -/
def writtenAttribute (attr : Text × Text) : Grammar.Attribute :=
  ⟨[0x20], attr.1, [], [], 0x22, attr.2.map (escapedPiece valueEscape)⟩

def writtenTag (name : Text) (attributes : List (Text × Text)) : Tag :=
  ⟨name, attributes.map writtenAttribute, []⟩

section Tags

variable {version : XmlVersion}

theorem readable_writtenAttribute {attr : Text × Text} (named : Name attr.1) (legal : Legal version attr.2) :
    (writtenAttribute attr).Readable (looseDialect version) where
  before := by
    intro c member
    exact .inl (List.mem_singleton.mp member)
  name := named
  beforeEquals := List.forall_mem_nil _
  afterEquals := List.forall_mem_nil _
  quote := .inr rfl
  value := readable_escaped escapes_value legal

theorem utf8_writtenAttribute {attr : Text × Text} (legal : Legal version attr.2) :
    utf8 (writtenAttribute attr).render = attributeText (utf8 attr.1, utf8 attr.2) := by
  have value := escapeBytes_utf8 escapes_value legal
  simp only [attributeText, escapeAttribute_eq, value, writtenAttribute, Grammar.Attribute.render]
  simp [utf8_append, utf8_cons]
  rfl

variable {name : Text} {attributes : List (Text × Text)}

theorem readable_writtenTag (named : Name name) (distinct : (attributes.map Prod.fst).Nodup)
    (proper : ∀ attr ∈ attributes, Name attr.1 ∧ Legal version attr.2) :
    (writtenTag name attributes).Readable (looseDialect version) where
  name := named
  attributes := by
    intro attr member
    obtain ⟨source, isSource, rfl⟩ := List.mem_map.mp member
    exact readable_writtenAttribute (proper source isSource).1 (proper source isSource).2
  first := by
    intro attr member
    obtain ⟨source, _, rfl⟩ := List.mem_map.mp (List.mem_of_mem_head? member)
    exact List.cons_ne_nil _ _
  distinct := by
    simpa [writtenTag, writtenAttribute, Function.comp_def] using distinct
  after := List.forall_mem_nil _

theorem startTag_writtenTag :
    (writtenTag name attributes).startTag = ⟨utf8 name, attributes.map fun attr => (utf8 attr.1, utf8 attr.2)⟩ := by
  simp [Tag.startTag, writtenTag, writtenAttribute, Function.comp_def, pieceValues_escaped]

theorem utf8_writtenTag (proper : ∀ attr ∈ attributes, Name attr.1 ∧ Legal version attr.2) :
    utf8 (writtenTag name attributes).render =
      startTagText ⟨utf8 name, attributes.map fun attr => (utf8 attr.1, utf8 attr.2)⟩ := by
  have texts : utf8 (renderAttributes (attributes.map writtenAttribute)) =
      (attributes.map fun attr => (utf8 attr.1, utf8 attr.2)).flatMap attributeText := by
    induction attributes with
    | nil => rfl
    | cons attr rest ih =>
        obtain ⟨first, others⟩ := List.forall_mem_cons.mp proper
        have here := utf8_writtenAttribute first.2
        have later := ih others
        unfold renderAttributes at later ⊢
        simp [utf8_append, here, later]
  simp [startTagText, writtenTag, Tag.render, utf8_append, texts]

end Tags

/-! ## Tags that can be spelled -/

/-- The syntax tree is read as the tag and written as its text. -/
structure Spells (version : XmlVersion) (tag : StartTag) (spelled : Tag) : Prop where
  readable : spelled.Readable (looseDialect version)
  startTag : spelled.startTag = tag
  text : utf8 spelled.render = startTagText tag

/-- The bytes of a name. -/
def NameBytes (bytes : Bytes) : Prop := ∃ name, Name name ∧ bytes = utf8 name

theorem exists_spells {version : XmlVersion} {name : Text} {attributes : List (Bytes × Bytes)} (named : Name name)
    (distinct : (attributes.map Prod.fst).Nodup)
    (proper : ∀ attr ∈ attributes, NameBytes attr.1 ∧ Encoded version attr.2) :
    ∃ spelled : Tag, spelled.name = name ∧ Spells version ⟨utf8 name, attributes⟩ spelled := by
  have texts : ∃ sources : List (Text × Text), attributes = sources.map (fun attr => (utf8 attr.1, utf8 attr.2)) ∧
      ∀ attr ∈ sources, Name attr.1 ∧ Legal version attr.2 := by
    clear distinct
    induction attributes with
    | nil => exact ⟨[], rfl, List.forall_mem_nil _⟩
    | cons attr rest ih =>
        obtain ⟨⟨⟨attrName, isName, nameBytes⟩, ⟨value, valueBytes, legal⟩⟩, others⟩ := List.forall_mem_cons.mp proper
        obtain ⟨sources, rfl, properRest⟩ := ih others
        refine ⟨(attrName, value) :: sources, ?_, List.forall_mem_cons.mpr ⟨⟨isName, legal⟩, properRest⟩⟩
        rw [List.map_cons, ← nameBytes, ← valueBytes]
  obtain ⟨sources, rfl, properSources⟩ := texts
  have distinctSources : (sources.map Prod.fst).Nodup := by
    rw [List.map_map] at distinct
    have mapped : (sources.map (Prod.fst ∘ fun attr => (utf8 attr.1, utf8 attr.2))) =
        (sources.map Prod.fst).map utf8 := by
      simp [Function.comp_def]
    rw [mapped] at distinct
    exact distinct.of_map
  exact ⟨writtenTag name sources, rfl, readable_writtenTag named distinctSources properSources,
    startTag_writtenTag, utf8_writtenTag properSources⟩

/-- The first bytes of a name are those of its first characters. -/
theorem take_utf8_name {name : Text} (named : Name name) (count : Nat) :
    (utf8 name).take count = utf8 (name.take count) := by
  have small : ∀ value ∈ name.take count, value ≤ 0x7F := by
    intro value member
    exact nameChar_le ((name_iff.mp named).1 value (List.mem_of_mem_take member))
  rw [← toAscii_eq_utf8 small, ← named.toAscii, toAscii, toAscii, List.map_take]

theorem nameBytes_declarationName {qname : Bytes} (named : NameBytes qname) :
    NameBytes (declarationName (prefixOf qname)) := by
  obtain ⟨name, isName, rfl⟩ := named
  have before : ∃ count, prefixOf (utf8 name) = utf8 (name.take count) := by
    unfold prefixOf
    split
    · exact ⟨0, rfl⟩
    · rename_i colon _
      exact ⟨colon, take_utf8_name isName colon⟩
  obtain ⟨count, same⟩ := before
  rw [same]
  unfold declarationName
  split
  · exact ⟨u32 "xmlns", name_iff.mpr (by decide), rfl⟩
  · have mark : ascii "xmlns:" = utf8 (u32 "xmlns:") := rfl
    refine ⟨u32 "xmlns:" ++ name.take count, name_iff.mpr ⟨?_, ?_⟩, ?_⟩
    · intro value member
      rcases List.mem_append.mp member with inMark | inside
      · have known : ∀ value ∈ u32 "xmlns:", isNameChar value = true := by decide
        exact known value inMark
      · exact (name_iff.mp isName).1 value (List.mem_of_mem_take inside)
    · exact ⟨0x78, rfl, rfl⟩
    · rw [mark, ← utf8_append]

/-! ## The tags written for what has been read -/

/-- What a dialect reads is legal. -/
structure LegalDialect (version : XmlVersion) (d : Dialect) : Prop where
  literal : ∀ c, d.literal c → isValidXmlChar c version = true
  denotes : ∀ name value, d.denotes name value → Legal version value

/-- The attribute values of the tags are encodings of legal text. -/
def EncodedTags (version : XmlVersion) (tags : List StartTag) : Prop :=
  ∀ tag ∈ tags, ∀ attr ∈ tag.attributes, Encoded version attr.2

section Chain

variable {version : XmlVersion} {d : Dialect} {tags : List StartTag}

theorem encoded_lexicalUri (encoded : EncodedTags version tags) (pfx : Bytes) :
    Encoded version (lexicalUri tags pfx) := by
  unfold lexicalUri
  split
  · refine ⟨u32 "http://www.w3.org/XML/1998/namespace", rfl, ?_⟩
    unfold Legal
    cases version with
    | xml10 => decide
    | xml11 => decide
  · cases found : tags.findSome? fun tag => tag.binding pfx with
    | none => exact Encoded.nil version
    | some uri =>
        obtain ⟨tag, isTag, binds⟩ := List.exists_of_findSome?_eq_some found
        obtain ⟨attr, last, rfl⟩ := Option.map_eq_some_iff.mp binds
        exact encoded tag isTag attr (List.mem_filter.mp (List.mem_of_getLast? last)).1

theorem legal_pieceValues (honest : LegalDialect version d) {excluded : Nat → Prop} {pieces : List Piece}
    (readable : ∀ item ∈ pieces, item.Readable d excluded) : Legal version (pieceValues pieces) := by
  intro c member
  obtain ⟨item, isItem, inside⟩ := List.mem_flatMap.mp member
  have readableItem := readable item isItem
  cases item with
  | literal literal =>
      rw [List.mem_singleton.mp inside]
      exact honest.literal literal readableItem.1
  | reference name value => exact honest.denotes name value readableItem.2 c inside

theorem encodedTags_cons (honest : LegalDialect version d) {tag : Tag} (readable : tag.Readable d)
    (encoded : EncodedTags version tags) : EncodedTags version (tag.startTag :: tags) := by
  refine List.forall_mem_cons.mpr ⟨?_, encoded⟩
  intro attr member
  obtain ⟨source, isSource, rfl⟩ := List.mem_map.mp member
  exact ⟨_, rfl, legal_pieceValues honest (readable.attributes source isSource).value⟩

theorem distinct_startTag {tag : Tag} (readable : tag.Readable d) :
    (tag.startTag.attributes.map Prod.fst).Nodup := by
  have names : tag.startTag.attributes.map Prod.fst = (tag.attributes.map Attribute.name).map utf8 := by
    simp [Tag.startTag, Function.comp_def]
  rw [names]
  refine readable.distinct.map_on ?_
  intro left isLeft right isRight same
  obtain ⟨first, memberFirst, rfl⟩ := List.mem_map.mp isLeft
  obtain ⟨second, memberSecond, rfl⟩ := List.mem_map.mp isRight
  exact utf8_injective ((readable.attributes first memberFirst).name.legal .xml10)
    ((readable.attributes second memberSecond).name.legal .xml10) same

theorem nameBytes_startTag {tag : Tag} (readable : tag.Readable d) :
    ∀ attr ∈ tag.startTag.attributes, NameBytes attr.1 := by
  intro attr member
  obtain ⟨source, isSource, rfl⟩ := List.mem_map.mp member
  exact ⟨source.name, (readable.attributes source isSource).name, rfl⟩

theorem nodup_reissued (name : QualifiedName) {tag : StartTag}
    (distinct : (tag.attributes.map Prod.fst).Nodup) :
    ((reissued name (attributesIn .enabled tags tag)).attributes.map Prod.fst).Nodup := by
  rw [reissued_attributes, List.map_append, List.nodup_append]
  refine ⟨?_, distinct.sublist (List.filter_sublist.map _), ?_⟩
  · have keys : ((bindings (tagNames name (attributesIn .enabled tags tag)) []).map fun binding =>
        (declarationName binding.1, binding.2)).map Prod.fst =
        ((bindings (tagNames name (attributesIn .enabled tags tag)) []).map Prod.fst).map declarationName := by
      simp [Function.comp_def]
    rw [keys]
    exact (nodup_bindings _ _).map declarationName_injective
  · intro declared isDeclared plain isPlain same
    simp only [List.map_map, List.mem_map, Function.comp_apply] at isDeclared
    obtain ⟨binding, _, rfl⟩ := isDeclared
    obtain ⟨attr, member, rfl⟩ := List.mem_map.mp isPlain
    have undeclared := declaredPrefix_of_plain member
    rw [← same, declaredPrefix_declarationName] at undeclared
    cases undeclared

theorem proper_reissued {tag : StartTag} (named : NameBytes tag.name)
    (names : ∀ attr ∈ tag.attributes, NameBytes attr.1) (member : tag ∈ tags)
    (encoded : EncodedTags version tags) :
    ∀ attr ∈ (reissued (lexicalName tags true tag.name) (attributesIn .enabled tags tag)).attributes,
      NameBytes attr.1 ∧ Encoded version attr.2 := by
  have isPlain : ∀ attr ∈ tag.plain .enabled, attr ∈ tag.attributes :=
    fun attr listed => (List.mem_filter.mp listed).1
  have ofTag : ∀ source ∈ tagNames (lexicalName tags true tag.name) (attributesIn .enabled tags tag),
      NameBytes source.qualifiedName := by
    intro source isSource
    rcases List.mem_cons.mp isSource with rfl | isAttribute
    · simpa using named
    · obtain ⟨view, isView, rfl⟩ := List.mem_map.mp isAttribute
      obtain ⟨attr, listed, rfl⟩ := mem_attributesIn.mp isView
      simpa using names attr (isPlain attr listed)
  intro attr listed
  rw [reissued_attributes] at listed
  rcases List.mem_append.mp listed with declared | plain
  · obtain ⟨binding, isBinding, rfl⟩ := List.mem_map.mp declared
    obtain ⟨_, source, isSource, nonempty, rfl⟩ := mem_bindings isBinding
    refine ⟨nameBytes_declarationName (ofTag source isSource), ?_⟩
    rw [resolved_tagNames source isSource nonempty]
    exact encoded_lexicalUri encoded _
  · exact ⟨names attr (isPlain attr plain), encoded tag member attr (isPlain attr plain)⟩

/-- The tag written for one that has been read can be spelled. -/
theorem exists_reissued (honest : LegalDialect version d) {tag : Tag} (readable : tag.Readable d)
    (encoded : EncodedTags version tags) (mode : NamespaceMode) :
    ∃ spelled : Tag, spelled.name = tag.name ∧
      Spells version (reissued (nameIn mode (tag.startTag :: tags) true tag.startTag.name)
        (attributesIn mode (tag.startTag :: tags) tag.startTag)) spelled := by
  have encodedAll := encodedTags_cons honest readable encoded
  have distinct := distinct_startTag readable
  have names := nameBytes_startTag readable
  cases mode with
  | disabled =>
      rw [reissued_disabled]
      exact exists_spells readable.name distinct fun attr member =>
        ⟨names attr member, encodedAll tag.startTag List.mem_cons_self attr member⟩
  | enabled =>
      have proper := proper_reissued ⟨tag.name, readable.name, rfl⟩ names List.mem_cons_self encodedAll
      obtain ⟨spelled, sameName, spells⟩ := exists_spells readable.name (nodup_reissued _ distinct) proper
      refine ⟨spelled, sameName, ?_⟩
      have written : (reissued (nameIn .enabled (tag.startTag :: tags) true tag.startTag.name)
          (attributesIn .enabled (tag.startTag :: tags) tag.startTag)).name = utf8 tag.name := by
        simp [reissued, nameIn, Tag.startTag]
      rw [← written] at spells
      exact spells

end Chain

end XmlParser
