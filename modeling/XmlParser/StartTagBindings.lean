import XmlParser.AttributeAccess
import XmlParser.ContentModels
import XmlParser.NamespaceConstraints

/-! The declarations in a serialized start tag, and when they give the names of the
tag their own namespaces. -/

set_option autoImplicit false

namespace XmlParser

open XmlParser.Computation Comp Grammar Dom

/-! ## Qualified names -/

/-- A name without colon. -/
def NCName (bytes : Bytes) : Prop := ∃ text, FullName text ∧ 0x3A ∉ text ∧ bytes = utf8 text

/-- `PrefixedName | UnprefixedName` -/
def QName (qname : Bytes) : Prop :=
  match splitName qname with
  | none => NCName qname
  | some (pfx, localName) => NCName pfx ∧ NCName localName

/-- `NSAttName`: the name of an attribute that declares a default or a prefix. -/
def NSAttName (name : Bytes) : Prop :=
  name = ascii "xmlns" ∨ ∃ pfx, NCName pfx ∧ name = ascii "xmlns:" ++ pfx

/-- A value that may be written, but for the characters that are escaped. -/
def LiteralValue (version : XmlVersion) (value : Bytes) : Prop :=
  ∃ text, value = utf8 text ∧ Literals (recommendedDialect version) text

theorem NCName.ne_nil {name : Bytes} (named : NCName name) : name ≠ [] := by
  obtain ⟨text, full, _, rfl⟩ := named
  exact utf8_name_ne_nil full

theorem NCName.no_colon {name : Bytes} (named : NCName name) : 0x3A ∉ name := by
  obtain ⟨text, full, single, rfl⟩ := named
  intro member
  have small : (0x3A : Nat) < 0x80 := by decide
  exact single ((ascii_mem_utf8 small (FullName.legal full)).mp member)

/-- The prefix of a qualified name, if it has one. -/
theorem QName.prefixed {qname : Bytes} (named : QName qname) (isPrefixed : prefixOf qname ≠ []) :
    ∃ localName, splitName qname = some (prefixOf qname, localName) ∧ NCName (prefixOf qname) ∧
      NCName localName := by
  unfold QName at named
  cases split : splitName qname with
  | none => exact absurd (prefixOf_of_whole split) isPrefixed
  | some parts =>
      obtain ⟨pfx, localName⟩ := parts
      rw [split] at named
      rw [prefixOf_of_split split]
      exact ⟨localName, rfl, named⟩

theorem QName.whole {qname : Bytes} (named : QName qname) (none : prefixOf qname = []) : splitName qname = .none := by
  unfold QName at named
  cases split : splitName qname with
  | none => rfl
  | some parts =>
      rw [split] at named
      rw [prefixOf_of_split split] at none
      exact absurd none named.1.ne_nil

/-- A qualified name that declares something is a proper name of a declaration. -/
theorem QName.declares {qname pfx : Bytes} (named : QName qname) (declared : declaredPrefix qname = some pfx) :
    NSAttName qname := by
  rcases declaredPrefix_eq_some_iff.mp declared with ⟨rfl, _⟩ | rfl
  · exact .inl rfl
  · have split : splitName (ascii "xmlns:" ++ pfx) = some (ascii "xmlns", pfx) := rfl
    unfold QName at named
    rw [split] at named
    exact .inr ⟨pfx, named.2, rfl⟩

/-! ## The written tag -/

def Dom.Attribute.name (stored : Dom.Attribute) : QualifiedName :=
  ⟨stored.namespaceUri, stored.localName, stored.qualifiedName⟩

/-- The declarations that the loop over the attributes writes, when some prefixes are
declared already. -/
def attributeBindings (attributes : List Dom.Attribute) (declared : List Bytes) : List (Bytes × Bytes) :=
  (bindings (attributes.map Dom.Attribute.name) declared).map fun binding =>
    (ascii "xmlns:" ++ binding.1, binding.2)

/-- The declarations that are written for a name and attributes. -/
def tagBindings (name : QualifiedName) (attributes : List Dom.Attribute) : List (Bytes × Bytes) :=
  if name.uri.isEmpty then attributeBindings attributes []
  else (declarationName (prefixOf name.qualifiedName), name.uri) ::
    attributeBindings attributes [prefixOf name.qualifiedName]

/-- The start tag that is written: declarations, then the attributes themselves. -/
def issued (name : QualifiedName) (attributes : List Dom.Attribute) : StartTag :=
  ⟨name.qualifiedName, tagBindings name attributes ++
    attributes.map fun stored => (stored.qualifiedName, stored.value)⟩

theorem attributeDeclarations_text (attributes : List Dom.Attribute) (declared : List Bytes) :
    attributeDeclarations attributes declared = (attributeBindings attributes declared).flatMap attributeText := by
  have space : ascii " xmlns:" = [0x20] ++ ascii "xmlns:" := rfl
  induction attributes generalizing declared with
  | nil => rfl
  | cons stored rest ih =>
      have step : bindings (stored.name :: rest.map Dom.Attribute.name) declared =
          if !stored.namespaceUri.isEmpty && !declared.contains (prefixOf stored.qualifiedName) then
            (prefixOf stored.qualifiedName, stored.namespaceUri) ::
              bindings (rest.map Dom.Attribute.name) (prefixOf stored.qualifiedName :: declared)
          else bindings (rest.map Dom.Attribute.name) declared := rfl
      unfold attributeBindings at ih ⊢
      rw [List.map_cons, step]
      simp only [attributeDeclarations, ih]
      split
      · simp [attributeText, space]
      · rfl

/-- What `serialize_element` writes of the start tag. -/
theorem tagText_issued (name : QualifiedName) (attributes : List Dom.Attribute) :
    tagText name.qualifiedName name.uri attributes = [0x3C] ++ startTagText (issued name attributes) := by
  have texts : attributeTexts attributes =
      (attributes.map fun stored => (stored.qualifiedName, stored.value)).flatMap attributeText := by
    induction attributes with
    | nil => rfl
    | cons stored rest ih => simp [attributeTexts, attributeText, ih]
  unfold tagText elementDeclaration startTagText issued tagBindings
  cases unbound : name.uri.isEmpty with
  | true => simp [attributeDeclarations_text, texts]
  | false =>
      cases plain : (prefixOf name.qualifiedName).isEmpty with
      | true =>
          have space : ascii " xmlns=\"" = [0x20] ++ ascii "xmlns" ++ ascii "=\"" := rfl
          simp [attributeDeclarations_text, texts, declarationName, plain, attributeText, space]
      | false =>
          have space : ascii " xmlns:" = [0x20] ++ ascii "xmlns:" := rfl
          simp [attributeDeclarations_text, texts, declarationName, plain, attributeText, space]

/-! ## What the tag declares -/

section Declared

variable {name : QualifiedName} {attributes : List Dom.Attribute}

/-- The names of a tag, the one of the element first. -/
def namesOf (name : QualifiedName) (attributes : List Dom.Attribute) : List QualifiedName :=
  name :: attributes.map Dom.Attribute.name

/-- The prefixes that attributes of these names and values declare, with their namespaces. -/
def declaredPairs (pairs : List (Bytes × Bytes)) : List (Bytes × Bytes) :=
  pairs.filterMap fun attr => (declaredPrefix attr.1).map fun pfx => (pfx, attr.2)

theorem declaredPairs_append (first second : List (Bytes × Bytes)) :
    declaredPairs (first ++ second) = declaredPairs first ++ declaredPairs second :=
  List.filterMap_append

theorem mem_declaredPairs {pairs : List (Bytes × Bytes)} {pfx value : Bytes} :
    (pfx, value) ∈ declaredPairs pairs ↔ ∃ attr ∈ pairs, declaredPrefix attr.1 = some pfx ∧ attr.2 = value := by
  simp [declaredPairs]

theorem declaredPrefix_prefixed (pfx : Bytes) : declaredPrefix (ascii "xmlns:" ++ pfx) = some pfx :=
  declaredPrefix_eq_some_iff.mpr (.inr rfl)

theorem declaredPairs_tagBindings (name : QualifiedName) (attributes : List Dom.Attribute) :
    declaredPairs (tagBindings name attributes) = bindings (namesOf name attributes) [] := by
  have others : ∀ declared, declaredPairs (attributeBindings attributes declared) =
      bindings (attributes.map Dom.Attribute.name) declared := by
    intro declared
    simp [declaredPairs, attributeBindings, List.filterMap_map, declaredPrefix_prefixed]
  unfold tagBindings namesOf bindings
  cases unbound : name.uri.isEmpty with
  | true => simp [others]
  | false =>
      have behind := others [prefixOf name.qualifiedName]
      simp only [declaredPairs] at behind
      simp [declaredPairs, behind]

/-- The declarations among the attributes themselves. -/
def clientPairs (attributes : List Dom.Attribute) : List (Bytes × Bytes) :=
  declaredPairs (attributes.map fun stored => (stored.qualifiedName, stored.value))

theorem declaredPairs_issued (name : QualifiedName) (attributes : List Dom.Attribute) :
    declaredPairs (issued name attributes).attributes =
      bindings (namesOf name attributes) [] ++ clientPairs attributes := by
  unfold issued
  rw [declaredPairs_append, declaredPairs_tagBindings]
  rfl

theorem lookupKey_of_mem {key value : Bytes} {entries : List (Bytes × Bytes)}
    (keys : (entries.map Prod.fst).Nodup) (member : (key, value) ∈ entries) : lookupKey key entries = some value := by
  induction entries with
  | nil => cases member
  | cons first rest ih =>
      obtain ⟨new, keysRest⟩ := List.nodup_cons.mp keys
      rcases List.mem_cons.mp member with rfl | later
      · simp [lookupKey]
      · have differs : first.1 ≠ key := fun same => new (same ▸ List.mem_map_of_mem later)
        have behind := ih keysRest later
        unfold lookupKey at behind ⊢
        simp [differs, behind]

/-- A tag that declares no prefix twice binds each to the value it declares. -/
theorem binding_of_once {tag : StartTag} (once : ((declaredPairs tag.attributes).map Prod.fst).Nodup)
    {pfx value : Bytes} (declared : (pfx, value) ∈ declaredPairs tag.attributes) :
    tag.binding pfx = some value := by
  rw [← lookupKey_scope, StartTag.scope]
  have scope : (declaredPairs tag.attributes).reverse.map Prod.fst |>.Nodup := by
    rw [List.map_reverse]
    exact List.nodup_reverse.mpr once
  exact lookupKey_of_mem scope (List.mem_reverse.mpr declared)

theorem lexicalUri_of_once {tag : StartTag} (once : ((declaredPairs tag.attributes).map Prod.fst).Nodup)
    {pfx value : Bytes} (declared : (pfx, value) ∈ declaredPairs tag.attributes)
    (xml : pfx = ascii "xml" → value = xmlNamespace) (outer : List StartTag) :
    lexicalUri (tag :: outer) pfx = value := by
  unfold lexicalUri
  split
  · rename_i isXml
    exact (xml isXml).symm
  · simp [binding_of_once once declared]

end Declared

/-! ## Tags that bind their names -/

/-- Behind the declarations of the tag the parser reads the name with this namespace,
whatever tags are around it. -/
def ResolvesTo (tag : StartTag) (isElement : Bool) (qname uri : Bytes) : Prop :=
  ∀ (p : Parser) (raws : List RawAttribute) (outer : List StartTag) (location : SourceLocation) (s : ParserState),
    p.options.namespaces = .enabled → raws.map RawAttribute.pair = tag.attributes →
      ∃ name, (p.resolveName (p.collectNamespaceDeclarations raws :: scopesOf .enabled outer) qname isElement
        location).run s = (.ok name, s) ∧ name.uri = uri

/-- The declarations of the tag are proper, no prefix is declared twice, and the names
with a namespace are read with it. -/
structure BindsNames (version : XmlVersion) (name : QualifiedName) (attributes : List Dom.Attribute) : Prop where
  proper : ∀ attr ∈ (issued name attributes).attributes, (declaredPrefix attr.1).isSome →
    NSAttName attr.1 ∧ LiteralValue version attr.2
  once : ((declaredPairs (issued name attributes).attributes).map Prod.fst).Nodup
  element : name.uri ≠ [] → ResolvesTo (issued name attributes) true name.qualifiedName name.uri
  attributes : ∀ stored ∈ attributes, stored.namespaceUri ≠ [] →
    ResolvesTo (issued name attributes) false stored.qualifiedName stored.namespaceUri

/-- Names whose prefixes can be declared in one tag. -/
structure CompatibleNames (version : XmlVersion) (name : QualifiedName) (attributes : List Dom.Attribute) : Prop where
  prefixed : ∀ stored ∈ attributes, stored.namespaceUri ≠ [] → prefixOf stored.qualifiedName ≠ []
  agree : ∀ first ∈ namesOf name attributes, ∀ second ∈ namesOf name attributes, first.uri ≠ [] →
    second.uri ≠ [] → prefixOf first.qualifiedName = prefixOf second.qualifiedName → first.uri = second.uri
  xml : ∀ bound ∈ namesOf name attributes, bound.uri ≠ [] → prefixOf bound.qualifiedName = ascii "xml" →
    bound.uri = xmlNamespace
  clients : ((clientPairs attributes).map Prod.fst).Nodup
  apart : ∀ declared ∈ clientPairs attributes, ∀ bound ∈ namesOf name attributes, bound.uri ≠ [] →
    prefixOf bound.qualifiedName ≠ declared.1
  literal : (∀ bound ∈ namesOf name attributes, bound.uri ≠ [] → LiteralValue version bound.uri) ∧
    ∀ declared ∈ clientPairs attributes, LiteralValue version declared.2

section Binding

variable {version : XmlVersion} {name : QualifiedName} {attributes : List Dom.Attribute}

theorem resolvesTo_iff_lexicalName {tag : StartTag} {isElement : Bool} {qname uri : Bytes} :
    ResolvesTo tag isElement qname uri ↔ ∀ outer, WellNamed (tag :: outer) qname ∧
      (lexicalName (tag :: outer) isElement qname).uri = uri := by
  constructor
  · intro resolves outer
    let p : Parser := ⟨.recording, {}, {}⟩
    let raws : List RawAttribute := tag.attributes.map fun attr => ⟨attr.1, attr.2, {}⟩
    have pairs : raws.map RawAttribute.pair = tag.attributes := by
      simp only [raws, List.map_map]
      exact List.map_id _
    obtain ⟨resolved, ran, same⟩ := resolves p raws outer {} { rest := [] } rfl pairs
    have scopes := collectNamespaceDeclarations_eq p tag.name raws outer
    rw [pairs] at scopes
    rw [scopes] at ran
    obtain ⟨wellNamed, rfl, _⟩ := p.resolveName_eq_ok_iff.mp ran
    exact ⟨wellNamed rfl, same⟩
  · intro lexical p raws outer location s enabled pairs
    have scopes := collectNamespaceDeclarations_eq p tag.name raws outer
    rw [pairs, enabled] at scopes
    rw [scopes]
    have ran := @Parser.resolveName_eq_ok_iff p _ (tag :: outer) qname isElement location s s
      (lexicalName (tag :: outer) isElement qname)
    rw [enabled] at ran
    exact ⟨_, ran.mpr ⟨fun _ => (lexical outer).1, rfl, rfl⟩, (lexical outer).2⟩

/-- A name with a namespace is read with it, if the tag binds its prefix so; without
prefix it has to be the name of the element. -/
theorem resolvesTo_iff {tag : StartTag} {isElement : Bool} {qname uri : Bytes} (named : QName qname)
    (bound : uri ≠ []) :
    ResolvesTo tag isElement qname uri ↔ (prefixOf qname = [] → isElement = true) ∧
      ∀ outer, lexicalUri (tag :: outer) (prefixOf qname) = uri := by
  rw [resolvesTo_iff_lexicalName]
  by_cases plain : prefixOf qname = []
  · have whole := named.whole plain
    have proper : ∀ tags, WellNamed tags qname := by
      intro tags pfx localName split
      rw [whole] at split
      cases split
    cases isElement with
    | true => simp [lexicalName, whole, plain, proper]
    | false => simp [lexicalName, whole, plain, proper, bound.symm]
  · obtain ⟨localName, split, isPrefix, isLocal⟩ := named.prefixed plain
    simp only [plain, false_implies, true_and]
    apply forall_congr'
    intro outer
    have here : (lexicalName (tag :: outer) isElement qname).uri = lexicalUri (tag :: outer) (prefixOf qname) := by
      simp only [lexicalName, split]
    rw [here]
    constructor
    · intro both
      exact both.2
    · intro same
      refine ⟨?_, same⟩
      intro pfx other parts
      cases split.symm.trans parts
      exact ⟨isPrefix.ne_nil, isLocal.ne_nil, isLocal.no_colon, same ▸ bound⟩

/-- A name with a namespace and the prefix of a declaration make it one of its values. -/
theorem mem_bindings_iff {pfx : Bytes} :
    pfx ∈ (bindings (namesOf name attributes) []).map Prod.fst ↔
      ∃ bound ∈ namesOf name attributes, bound.uri ≠ [] ∧ prefixOf bound.qualifiedName = pfx := by
  constructor
  · intro member
    obtain ⟨binding, isBinding, rfl⟩ := List.mem_map.mp member
    obtain ⟨_, bound, isName, filled, rfl⟩ := mem_bindings isBinding
    exact ⟨bound, isName, filled, rfl⟩
  · intro bound
    obtain ⟨bound, isName, filled, rfl⟩ := bound
    have declared := @declares_bindings _ [] _ isName filled
    exact declared.resolve_left List.not_mem_nil

/-- No prefix is declared twice exactly if the attributes that declare prefixes agree
neither with each other nor with a prefix in use. -/
theorem once_iff :
    ((declaredPairs (issued name attributes).attributes).map Prod.fst).Nodup ↔
      ((clientPairs attributes).map Prod.fst).Nodup ∧
        ∀ declared ∈ clientPairs attributes, ∀ bound ∈ namesOf name attributes, bound.uri ≠ [] →
          prefixOf bound.qualifiedName ≠ declared.1 := by
  rw [declaredPairs_issued, List.map_append, List.nodup_append]
  constructor
  · rintro ⟨_, clients, apart⟩
    refine ⟨clients, ?_⟩
    intro declared isDeclared bound isName filled same
    have inUse := mem_bindings_iff.mpr ⟨bound, isName, filled, same⟩
    exact apart declared.1 inUse declared.1 (List.mem_map_of_mem isDeclared) rfl
  · rintro ⟨clients, apart⟩
    refine ⟨nodup_bindings _ _, clients, ?_⟩
    intro first isBinding second isClient same
    obtain ⟨bound, isName, filled, rfl⟩ := mem_bindings_iff.mp isBinding
    obtain ⟨declared, isDeclared, rfl⟩ := List.mem_map.mp isClient
    exact apart declared isDeclared bound isName filled same

/-- In a tag of compatible names each prefix in use means its namespace. -/
theorem CompatibleNames.lexicalUri (compatible : CompatibleNames version name attributes) {bound : QualifiedName}
    (isName : bound ∈ namesOf name attributes) (filled : bound.uri ≠ []) (outer : List StartTag) :
    XmlParser.lexicalUri (issued name attributes :: outer) (prefixOf bound.qualifiedName) = bound.uri := by
  have once := once_iff.mpr ⟨compatible.clients, compatible.apart⟩
  obtain ⟨binding, isBinding, same⟩ := List.mem_map.mp (mem_bindings_iff.mpr ⟨bound, isName, filled, rfl⟩)
  obtain ⟨_, other, isOther, otherFilled, rfl⟩ := mem_bindings isBinding
  have declared : (prefixOf bound.qualifiedName, bound.uri) ∈ declaredPairs (issued name attributes).attributes := by
    rw [declaredPairs_issued, ← same, ← compatible.agree other isOther bound isName otherFilled filled same]
    exact List.mem_append_left _ isBinding
  exact lexicalUri_of_once once declared (compatible.xml bound isName filled) outer

/-- The names of a tag are qualified names. -/
structure QNames (name : QualifiedName) (attributes : List Dom.Attribute) : Prop where
  element : QName name.qualifiedName
  attributes : ∀ stored ∈ attributes, QName stored.qualifiedName

theorem QNames.named (names : QNames name attributes) :
    ∀ bound ∈ namesOf name attributes, QName bound.qualifiedName := by
  intro bound isName
  rcases List.mem_cons.mp isName with rfl | isAttribute
  · exact names.element
  · obtain ⟨stored, member, rfl⟩ := List.mem_map.mp isAttribute
    exact names.attributes stored member

/-- Each declaration is made for a name of the tag. -/
theorem mem_tagBindings {attr : Bytes × Bytes} (member : attr ∈ tagBindings name attributes) :
    name.uri ≠ [] ∧ attr = (declarationName (prefixOf name.qualifiedName), name.uri) ∨
      ∃ stored ∈ attributes, stored.namespaceUri ≠ [] ∧
        attr = (ascii "xmlns:" ++ prefixOf stored.qualifiedName, stored.namespaceUri) := by
  have others : ∀ declared, attr ∈ attributeBindings attributes declared →
      ∃ stored ∈ attributes, stored.namespaceUri ≠ [] ∧
        attr = (ascii "xmlns:" ++ prefixOf stored.qualifiedName, stored.namespaceUri) := by
    intro declared inside
    obtain ⟨binding, isBinding, rfl⟩ := List.mem_map.mp inside
    obtain ⟨_, bound, isName, filled, rfl⟩ := mem_bindings isBinding
    obtain ⟨stored, isStored, rfl⟩ := List.mem_map.mp isName
    exact ⟨stored, isStored, filled, rfl⟩
  unfold tagBindings at member
  split at member
  · exact .inr (others _ member)
  · rename_i filled
    rcases List.mem_cons.mp member with rfl | inside
    · exact .inl ⟨mt List.isEmpty_iff.mpr filled, rfl⟩
    · exact .inr (others _ inside)

theorem QName.nsAttName {qname : Bytes} (named : QName qname) : NSAttName (declarationName (prefixOf qname)) := by
  unfold declarationName
  split
  · exact .inl rfl
  · rename_i filled
    obtain ⟨_, _, isPrefix, _⟩ := named.prefixed (mt List.isEmpty_iff.mpr filled)
    exact .inr ⟨_, isPrefix, rfl⟩

theorem CompatibleNames.binds (compatible : CompatibleNames version name attributes)
    (names : QNames name attributes) : BindsNames version name attributes where
  proper := by
    intro attr member declares
    obtain ⟨pfx, declared⟩ := Option.isSome_iff_exists.mp declares
    rcases List.mem_append.mp member with isBinding | isAttribute
    · rcases mem_tagBindings isBinding with ⟨filled, rfl⟩ | ⟨stored, isStored, filled, rfl⟩
      · exact ⟨names.element.nsAttName, compatible.literal.1 name List.mem_cons_self filled⟩
      · obtain ⟨_, _, isPrefix, _⟩ :=
          (names.attributes stored isStored).prefixed (compatible.prefixed stored isStored filled)
        have isName : stored.name ∈ namesOf name attributes := List.mem_cons_of_mem _ (List.mem_map_of_mem isStored)
        exact ⟨.inr ⟨_, isPrefix, rfl⟩, compatible.literal.1 stored.name isName filled⟩
    · obtain ⟨stored, isStored, rfl⟩ := List.mem_map.mp isAttribute
      refine ⟨(names.attributes stored isStored).declares declared, ?_⟩
      exact compatible.literal.2 (pfx, stored.value) (mem_declaredPairs.mpr ⟨_, isAttribute, declared, rfl⟩)
  once := once_iff.mpr ⟨compatible.clients, compatible.apart⟩
  element filled := (resolvesTo_iff names.element filled).mpr
    ⟨fun _ => rfl, compatible.lexicalUri List.mem_cons_self filled⟩
  attributes := by
    intro stored member filled
    have isName : stored.name ∈ namesOf name attributes := List.mem_cons_of_mem _ (List.mem_map_of_mem member)
    refine (resolvesTo_iff (names.attributes stored member) filled).mpr ⟨?_, compatible.lexicalUri isName filled⟩
    intro plain
    exact absurd plain (compatible.prefixed stored member filled)

theorem BindsNames.lexicalUri (binds : BindsNames version name attributes) (names : QNames name attributes)
    {bound : QualifiedName} (isName : bound ∈ namesOf name attributes) (filled : bound.uri ≠ []) :
    XmlParser.lexicalUri [issued name attributes] (prefixOf bound.qualifiedName) = bound.uri := by
  rcases List.mem_cons.mp isName with rfl | isAttribute
  · exact ((resolvesTo_iff names.element filled).mp (binds.element filled)).2 []
  · obtain ⟨stored, member, rfl⟩ := List.mem_map.mp isAttribute
    exact ((resolvesTo_iff (names.attributes stored member) filled).mp (binds.attributes stored member filled)).2 []

theorem BindsNames.literal (binds : BindsNames version name attributes) {declared : Bytes × Bytes}
    (member : declared ∈ declaredPairs (issued name attributes).attributes) : LiteralValue version declared.2 := by
  obtain ⟨attr, isAttribute, declares, same⟩ := mem_declaredPairs.mp member
  rw [← same]
  exact (binds.proper attr isAttribute (Option.isSome_of_eq_some declares)).2

theorem BindsNames.compatible (binds : BindsNames version name attributes) (names : QNames name attributes) :
    CompatibleNames version name attributes := by
  have agree : ∀ first ∈ namesOf name attributes, ∀ second ∈ namesOf name attributes, first.uri ≠ [] →
      second.uri ≠ [] → prefixOf first.qualifiedName = prefixOf second.qualifiedName → first.uri = second.uri := by
    intro first isFirst second isSecond firstFilled secondFilled same
    have uri := binds.lexicalUri names isFirst firstFilled
    rw [same] at uri
    exact uri.symm.trans (binds.lexicalUri names isSecond secondFilled)
  have apart := once_iff.mp binds.once
  refine ⟨?_, agree, ?_, apart.1, apart.2, ?_, ?_⟩
  · intro stored member filled plain
    have resolves := (resolvesTo_iff (names.attributes stored member) filled).mp
      (binds.attributes stored member filled)
    exact absurd (resolves.1 plain) Bool.false_ne_true
  · intro bound isName filled isXml
    have uri := binds.lexicalUri names isName filled
    rw [isXml] at uri
    exact uri.symm
  · intro bound isName filled
    -- The declaration of its prefix was made for a name that agrees with it.
    obtain ⟨binding, isBinding, same⟩ := List.mem_map.mp (mem_bindings_iff.mpr ⟨bound, isName, filled, rfl⟩)
    obtain ⟨_, other, isOther, otherFilled, rfl⟩ := mem_bindings isBinding
    rw [← agree other isOther bound isName otherFilled filled same]
    have member : (prefixOf other.qualifiedName, other.uri) ∈ declaredPairs (issued name attributes).attributes := by
      rw [declaredPairs_issued]
      exact List.mem_append_left _ isBinding
    exact binds.literal member
  · intro declared isClient
    apply binds.literal
    rw [declaredPairs_issued]
    exact List.mem_append_right _ isClient

end Binding

/-! ## Serialized elements -/

/-- Whenever the element is serialized, the text begins with a start tag that binds
its own names. -/
def WritesBoundTag (version : XmlVersion) (heap : Heap) (element : NodeRef) (name : QualifiedName)
    (attributes : List Dom.Attribute) : Prop :=
  ∀ fuel written after, (serializeNode fuel element).run heap = (.ok written, after) →
    (∃ close rest, (close = ascii ">" ∨ close = ascii "/>") ∧
      writtenText written = [0x3C] ++ startTagText (issued name attributes) ++ close ++ rest) ∧
    BindsNames version name attributes

section Serialized

variable {heap : Heap} {element : NodeRef} {node : Node} {name : QualifiedName} {attributes : List Dom.Attribute}

theorem text_of_serializeNode (found : heap.nodes element = some node)
    (payload : node.payload = .element name.qualifiedName name.uri name.localName attributes) {fuel : Nat}
    {written : List Written} {after : Heap} (ran : (serializeNode fuel element).run heap = (.ok written, after)) :
    ∃ close rest, (close = ascii ">" ∨ close = ascii "/>") ∧
      writtenText written = [0x3C] ++ startTagText (issued name attributes) ++ close ++ rest := by
  cases fuel with
  | zero => cases ran
  | succ fuel =>
      unfold serializeNode at ran
      rw [run_bind_of_ok (run_deref found), payload] at ran
      dsimp only at ran
      unfold serializeElement at ran
      rw [tagText_issued] at ran
      obtain ⟨inside, middle, wrote, returned⟩ := bind_eq_ok.mp ran
      cases returned
      split at wrote
      · cases wrote
        exact ⟨ascii "/>", [], .inr rfl, by simp⟩
      · obtain ⟨below, _, _, wrote⟩ := bind_eq_ok.mp wrote
        cases wrote
        exact ⟨ascii ">", writtenText below ++ ascii "</" ++ name.qualifiedName ++ ascii ">", .inl rfl, by simp⟩

theorem exists_serializeNode (coherent : Coherent heap) (found : heap.nodes element = some node) :
    ∃ fuel written, (serializeNode fuel element).run heap = (.ok written, heap) := by
  have live : ∀ child ∈ node.children, heap.live child := by
    intro child member
    rw [← Heap.links_children_of_nodes found] at member
    exact Heap.live_of_parent ((coherent.forest.mem_children_iff child element).mp member)
  obtain ⟨below, shows⟩ := coherent.exists_shows node.children live
  exact ⟨below.height + 1, _, run_serializeNode found shows (shows.run_serialize le_rfl)⟩

/-- The start tag of an element binds its names exactly if they are compatible. -/
theorem writesBoundTag_iff (coherent : Coherent heap) (found : heap.nodes element = some node)
    (payload : node.payload = .element name.qualifiedName name.uri name.localName attributes)
    (names : QNames name attributes) (version : XmlVersion) :
    WritesBoundTag version heap element name attributes ↔ CompatibleNames version name attributes := by
  constructor
  · intro writes
    obtain ⟨fuel, written, ran⟩ := exists_serializeNode coherent found
    exact (writes fuel written heap ran).2.compatible names
  · intro compatible fuel written after ran
    exact ⟨text_of_serializeNode found payload ran, compatible.binds names⟩

end Serialized

/-! ## An attribute in a namespace -/

/-- The calls that make an element `a` with one attribute in a namespace. -/
def oneAttribute (qualifiedName : Bytes) : List Operation :=
  [.newDocument, .createElement 0 (ascii "a") [] [],
    .setAttributeNs 1 (ascii "u") (ascii "x") qualifiedName (ascii "1")]

def elementA : QualifiedName := ⟨[], ascii "a", ascii "a"⟩

def attributeX (qualifiedName : Bytes) : Dom.Attribute := ⟨ascii "u", ascii "x", qualifiedName, ascii "1"⟩

theorem oneAttribute_nodes (qualifiedName : Bytes) :
    (reached (oneAttribute qualifiedName)).nodes 1 = some
      ⟨some 0, none, [], .element elementA.qualifiedName elementA.uri elementA.localName [attributeX qualifiedName]⟩ :=
  rfl

theorem nCName_letters : NCName (ascii "a") ∧ NCName (ascii "p") ∧ NCName (ascii "x") := by
  have letter : ∀ c, FullNameStartChar c → c ≠ 0x3A → NCName (utf8 [c]) := by
    intro c start other
    refine ⟨[c], ⟨start, List.forall_mem_nil _⟩, ?_, rfl⟩
    rw [List.mem_singleton]
    exact other.symm
  exact ⟨letter 0x61 (by decide) (by decide), letter 0x70 (by decide) (by decide), letter 0x78 (by decide) (by decide)⟩

theorem writesBoundTag_iff_sample :
    WritesBoundTag .xml10 (reached (oneAttribute (ascii "p:x"))) 1 elementA [attributeX (ascii "p:x")] := by
  obtain ⟨a, p, x⟩ := nCName_letters
  have names : QNames elementA [attributeX (ascii "p:x")] := ⟨a, List.forall_mem_singleton.mpr ⟨p, x⟩⟩
  refine (writesBoundTag_iff (coherent_foldl coherent_empty _) (oneAttribute_nodes _) rfl names .xml10).mpr ?_
  refine ⟨by decide, by decide, by decide, by decide, by decide, ?_, List.forall_mem_nil _⟩
  intro bound isName filled
  have uri : bound.uri = utf8 (u32 "u") := by
    have known : ∀ bound ∈ namesOf elementA [attributeX (ascii "p:x")],
        bound.uri ≠ [] → bound.uri = utf8 (u32 "u") := by
      decide
    exact known bound isName filled
  have literal : (recommendedDialect .xml10).literal 0x75 := by
    change _ ∨ _
    omega
  exact ⟨u32 "u", uri, List.forall_mem_singleton.mpr literal⟩

/-- An attribute in a namespace that has no prefix. -/
theorem not_writesBoundTag :
    QNames elementA [attributeX (ascii "x")] ∧
      ((serializeNode 2 1).run (reached (oneAttribute (ascii "x")))).1.map writtenText =
        .ok (ascii "<a xmlns:=\"u\" x=\"1\"/>") ∧
      ¬ WritesBoundTag .xml10 (reached (oneAttribute (ascii "x"))) 1 elementA [attributeX (ascii "x")] := by
  obtain ⟨a, _, x⟩ := nCName_letters
  have names : QNames elementA [attributeX (ascii "x")] := ⟨a, List.forall_mem_singleton.mpr x⟩
  refine ⟨names, by decide +kernel, ?_⟩
  intro writes
  obtain ⟨fuel, written, ran⟩ := exists_serializeNode (coherent_foldl coherent_empty _) (oneAttribute_nodes (ascii "x"))
  have compatible := (writes fuel written _ ran).2.compatible names
  exact compatible.prefixed _ List.mem_cons_self (by decide) (by decide)

end XmlParser
