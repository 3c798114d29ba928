import XmlParser.Accepting
import XmlParser.LexicalScoping

/-! The constraints that the recommendation puts on names and on declarations, and
which of them hold in accepted documents. -/

set_option autoImplicit false

namespace XmlParser

open XmlParser.Computation Comp Grammar

/-! ## The constraints -/

/-- The parts of a name around its colon are not empty, and there is one colon at most. -/
def IsQName (qname : Bytes) : Prop :=
  match splitName qname with
  | none => qname ≠ []
  | some (pfx, localName) => pfx ≠ [] ∧ localName ≠ [] ∧ 0x3A ∉ localName

/-- What the recommendation asks of one start tag. -/
structure ObeysNamespaces (version : XmlVersion) (tag : StartTag) : Prop where
  element : IsQName tag.name
  attributes : ∀ attr ∈ tag.attributes, IsQName attr.1
  xmlnsUndeclared : ∀ attr ∈ tag.attributes, declaredPrefix attr.1 ≠ some (ascii "xmlns")
  xmlnsUnused : ∀ localName, splitName tag.name ≠ some (ascii "xmlns", localName)
  xmlBound : ∀ attr ∈ tag.attributes, declaredPrefix attr.1 = some (ascii "xml") →
    attr.2 = xmlNamespace
  otherBound : ∀ attr ∈ tag.attributes, ∀ pfx, declaredPrefix attr.1 = some pfx →
    pfx ≠ ascii "xml" → attr.2 ≠ xmlNamespace
  undeclared : version = .xml10 → ∀ attr ∈ tag.attributes, ∀ pfx, declaredPrefix attr.1 = some pfx →
    pfx ≠ [] → attr.2 ≠ []

/-- What it asks of an attribute that declares a prefix. -/
structure ProperDeclaration (version : XmlVersion) (attr : Bytes × Bytes) (pfx : Bytes) : Prop where
  name : attr.1 ≠ ascii "xmlns:"
  colon : 0x3A ∉ pfx
  xmlns : pfx ≠ ascii "xmlns"
  xml : pfx = ascii "xml" ↔ attr.2 = xmlNamespace
  bound : version = .xml10 → pfx ≠ [] → attr.2 ≠ []

/-! ## Names -/

/-- The two spellings of a declaration. -/
theorem declaredPrefix_eq_some_iff {name pfx : Bytes} :
    declaredPrefix name = some pfx ↔ name = ascii "xmlns" ∧ pfx = [] ∨ name = ascii "xmlns:" ++ pfx := by
  unfold declaredPrefix
  split
  · rename_i isDefault
    subst name
    constructor
    · intro declared
      cases declared
      exact .inl ⟨rfl, rfl⟩
    · intro spelled
      rcases spelled with ⟨_, rfl⟩ | spelled
      · rfl
      · have lengths := congrArg List.length spelled
        simp only [List.length_append] at lengths
        have five : (ascii "xmlns").length = 5 := rfl
        have six : (ascii "xmlns:").length = 6 := rfl
        omega
  · rename_i notDefault
    split
    · rename_i isPrefixed
      obtain ⟨rest, rfl⟩ := List.isPrefixOf_iff_prefix.mp isPrefixed
      have dropped : (ascii "xmlns:" ++ rest).drop 6 = rest := List.drop_left' rfl
      rw [dropped]
      constructor
      · intro declared
        cases declared
        exact .inr rfl
      · intro spelled
        rcases spelled with ⟨isDefault, _⟩ | spelled
        · exact absurd isDefault notDefault
        · exact congrArg some (List.append_cancel_left spelled)
    · rename_i notPrefixed
      constructor
      · intro declared
        cases declared
      · intro spelled
        rcases spelled with ⟨isDefault, _⟩ | spelled
        · exact absurd isDefault notDefault
        · exact absurd (List.isPrefixOf_iff_prefix.mpr ⟨pfx, spelled.symm⟩) notPrefixed

/-- The name of a declaration is a qualified name if its prefix is one without colon. -/
theorem isQName_declaration_iff {name pfx : Bytes} (declared : declaredPrefix name = some pfx) :
    IsQName name ↔ name ≠ ascii "xmlns:" ∧ 0x3A ∉ pfx := by
  rcases declaredPrefix_eq_some_iff.mp declared with ⟨rfl, rfl⟩ | rfl
  · unfold IsQName
    constructor
    · intro _
      exact ⟨by decide, List.not_mem_nil⟩
    · intro _
      change ascii "xmlns" ≠ []
      decide
  · have split : splitName (ascii "xmlns:" ++ pfx) = some (ascii "xmlns", pfx) := rfl
    unfold IsQName
    rw [split]
    dsimp only
    constructor
    · intro proper
      obtain ⟨_, nonempty, single⟩ := proper
      refine ⟨?_, single⟩
      intro same
      have empty : pfx = [] := List.append_cancel_left (same.trans (List.append_nil _).symm)
      exact nonempty empty
    · intro proper
      refine ⟨by decide, ?_, proper.2⟩
      intro empty
      subst empty
      exact proper.1 (List.append_nil _)

theorem WellNamed.isQName {tags : List StartTag} {qname : Bytes} (named : WellNamed tags qname)
    (nonempty : qname ≠ []) : IsQName qname := by
  unfold IsQName
  cases split : splitName qname with
  | none => exact nonempty
  | some parts =>
      obtain ⟨pfx, localName⟩ := parts
      obtain ⟨front, behind, single, _⟩ := named pfx localName split
      exact ⟨front, behind, single⟩

/-- A prefix with a namespace is declared by one of the tags. -/
theorem exists_declaration {tags : List StartTag} {pfx : Bytes} (other : pfx ≠ ascii "xml")
    (bound : lexicalUri tags pfx ≠ []) :
    ∃ tag ∈ tags, ∃ attr ∈ tag.attributes, declaredPrefix attr.1 = some pfx := by
  unfold lexicalUri at bound
  rw [if_neg other] at bound
  cases found : tags.findSome? fun tag => tag.binding pfx with
  | none =>
      rw [found] at bound
      exact absurd rfl bound
  | some uri =>
      obtain ⟨tag, member, binds⟩ := List.exists_of_findSome?_eq_some found
      obtain ⟨attr, last, _⟩ := Option.map_eq_some_iff.mp binds
      have inside := List.mem_of_getLast? last
      rw [List.mem_filter, decide_eq_true_eq] at inside
      exact ⟨tag, member, attr, inside.1, inside.2⟩

/-! ## The start tags of a document -/

/-- The tags around a start tag are start tags of the document themselves. -/
theorem Grammar.Content.enclosing_openTags {content : Content} {tags : List StartTag}
    {opened : OpenTag} (member : opened ∈ content.openTags tags) {outer : StartTag}
    (encloses : outer ∈ opened.enclosing) :
    outer ∈ tags ∨ ∃ other ∈ content.openTags tags, other.tag = outer := by
  induction content generalizing tags with
  | nil => cases member
  | piece item next ih => exact ih member
  | comment body next ih => exact ih member
  | cdata body next ih => exact ih member
  | instruction target gap data next ih => exact ih member
  | element tag children space next ihChildren ihNext =>
      unfold Content.openTags at member ⊢
      rcases List.mem_cons.mp member with rfl | later
      · exact .inl encloses
      · rcases List.mem_append.mp later with inside | behind
        · rcases ihChildren inside with known | ⟨other, isOther, same⟩
          · rcases List.mem_cons.mp known with rfl | known
            · exact .inr ⟨_, List.mem_cons_self, rfl⟩
            · exact .inl known
          · exact .inr ⟨other, List.mem_cons_of_mem _ (List.mem_append_left _ isOther), same⟩
        · rcases ihNext behind with known | ⟨other, isOther, same⟩
          · exact .inl known
          · exact .inr ⟨other, List.mem_cons_of_mem _ (List.mem_append_right _ isOther), same⟩
  | emptyElement tag next ih =>
      unfold Content.openTags at member ⊢
      rcases List.mem_cons.mp member with rfl | later
      · exact .inl encloses
      · rcases ih later with known | ⟨other, isOther, same⟩
        · exact .inl known
        · exact .inr ⟨other, List.mem_cons_of_mem _ isOther, same⟩

theorem utf8_ne_nil {text : Text} (named : Name text) : utf8 text ≠ [] := by
  obtain ⟨first, rest, rfl, _⟩ := named.front
  rw [utf8_cons]
  intro empty
  have long := utf8Unit_length_pos first
  rw [(List.append_eq_nil_iff.mp empty).1] at long
  cases long

theorem Grammar.Tag.Readable.names {d : Dialect} {tag : Tag} (readable : tag.Readable d) :
    tag.startTag.name ≠ [] ∧ ∀ attr ∈ tag.startTag.attributes, attr.1 ≠ [] := by
  refine ⟨utf8_ne_nil readable.name, ?_⟩
  intro attr member
  obtain ⟨written, isWritten, rfl⟩ := List.mem_map.mp member
  exact utf8_ne_nil (readable.attributes written isWritten).name

/-- The names in the start tags of readable content are not empty. -/
theorem Grammar.Content.names_openTags {d : Dialect} {content : Content} (readable : content.Readable d)
    {tags : List StartTag} {opened : OpenTag} (member : opened ∈ content.openTags tags) :
    opened.tag.name ≠ [] ∧ ∀ attr ∈ opened.tag.attributes, attr.1 ≠ [] := by
  induction content generalizing tags with
  | nil => cases member
  | piece item next ih => exact ih readable.2 member
  | comment body next ih => exact ih readable.2 member
  | cdata body next ih => exact ih readable.2 member
  | instruction target gap data next ih => exact ih readable.2 member
  | element tag children space next ihChildren ihNext =>
      obtain ⟨readableTag, readableChildren, _, readableNext⟩ := readable
      rcases List.mem_cons.mp member with rfl | later
      · exact readableTag.names
      · rcases List.mem_append.mp later with inside | behind
        · exact ihChildren readableChildren inside
        · exact ihNext readableNext behind
  | emptyElement tag next ih =>
      rcases List.mem_cons.mp member with rfl | later
      · exact readable.1.names
      · exact ih readable.2 later

/-- The start tags inside no other tag obey the constraints if and only if their
declarations are proper: names that are no declarations are resolved, and so checked. -/
theorem obeysNamespaces_iff {d : Dialect} {content : Content} (readable : content.Readable d)
    {version : XmlVersion}
    (resolved : ∀ opened ∈ content.openTags [], WellNamed opened.chain opened.tag.name ∧
      ∀ attr ∈ opened.tag.attributes, declaredPrefix attr.1 = none → WellNamed opened.chain attr.1) :
    (∀ opened ∈ content.openTags [], ObeysNamespaces version opened.tag) ↔
      ∀ opened ∈ content.openTags [], ∀ attr ∈ opened.tag.attributes, ∀ pfx,
        declaredPrefix attr.1 = some pfx → ProperDeclaration version attr pfx := by
  constructor
  · intro obeys opened member attr inTag pfx declared
    have obeyed := obeys opened member
    have qualified := (isQName_declaration_iff declared).mp (obeyed.attributes attr inTag)
    refine ⟨qualified.1, qualified.2, ?_, ?_, ?_⟩
    · intro isXmlns
      subst isXmlns
      exact obeyed.xmlnsUndeclared attr inTag declared
    · constructor
      · intro isXml
        subst isXml
        exact obeyed.xmlBound attr inTag declared
      · intro isUri
        by_contra other
        exact obeyed.otherBound attr inTag pfx declared other isUri
    · intro isVersion
      exact obeyed.undeclared isVersion attr inTag pfx declared
  · intro proper opened member
    obtain ⟨elementNamed, attributesNamed⟩ := resolved opened member
    obtain ⟨nonempty, attributesNonempty⟩ := Content.names_openTags readable member
    refine ⟨elementNamed.isQName nonempty, ?_, ?_, ?_, ?_, ?_, ?_⟩
    · intro attr inTag
      cases declared : declaredPrefix attr.1 with
      | none => exact (attributesNamed attr inTag declared).isQName (attributesNonempty attr inTag)
      | some pfx =>
          have properly := proper opened member attr inTag pfx declared
          exact (isQName_declaration_iff declared).mpr ⟨properly.name, properly.colon⟩
    · intro attr inTag declared
      exact (proper opened member attr inTag _ declared).xmlns rfl
    · -- an element could use the prefix only if a tag around it declared it
      intro localName split
      obtain ⟨_, _, _, bound⟩ := elementNamed _ _ split
      obtain ⟨outer, encloses, attr, inTag, declared⟩ := exists_declaration (by decide) bound
      rcases List.mem_cons.mp encloses with rfl | encloses
      · exact (proper opened member attr inTag _ declared).xmlns rfl
      · rcases Content.enclosing_openTags member encloses with none | ⟨other, isOther, rfl⟩
        · cases none
        · exact (proper other isOther attr inTag _ declared).xmlns rfl
    · intro attr inTag declared
      exact (proper opened member attr inTag _ declared).xml.mp rfl
    · intro attr inTag pfx declared other isUri
      exact other ((proper opened member attr inTag pfx declared).xml.mpr isUri)
    · intro isVersion attr inTag pfx declared
      exact (proper opened member attr inTag pfx declared).bound isVersion

/-- An accepted document has a document element, all of whose start tags obey the
constraints if and only if all declarations in them are proper. -/
theorem namespacesObeyed_iff (xml : Bytes) (handler : SaxHandler) (options : ParserOptions)
    (enabled : options.namespaces = .enabled)
    (accepted : (parseXmlDocument xml handler options).1 = .ok ()) :
    (∃ element, HasElement xml handler options element) ∧
      ∀ element, HasElement xml handler options element →
        ((∀ opened ∈ element.openTags [], ObeysNamespaces options.version opened.tag) ↔
          ∀ opened ∈ element.openTags [], ∀ attr ∈ opened.tag.attributes, ∀ pfx,
            declaredPrefix attr.1 = some pfx → ProperDeclaration options.version attr pfx) := by
  refine ⟨hasElement_of_accepted enabled accepted, ?_⟩
  intro element has
  obtain ⟨decoded, s, tag, body, epilog, _, _, _, readable, _, _, resolved⟩ := has
  apply obeysNamespaces_iff readable
  have named := resolved.imp fun opened parts lexical =>
    And.intro (And.intro lexical.elementBound lexical.attributesBound) lexical
  exact ((List.forall₂_and_left _ _).mp named).1

/-- A document whose element has the prefix `xmlns`, which it declares. -/
def xmlnsElement : Bytes := ascii "<xmlns:a xmlns:xmlns='u'/>"

theorem namespacesObeyed_iff_sample :
    (parseXmlDocument xmlnsElement .recording {}).1 = .ok () ∧
      (∃ element, HasElement xmlnsElement .recording {} element) ∧
      ∀ element, HasElement xmlnsElement .recording {} element →
        ((∀ opened ∈ element.openTags [], ObeysNamespaces .xml10 opened.tag) ↔
          ∀ opened ∈ element.openTags [], ∀ attr ∈ opened.tag.attributes, ∀ pfx,
            declaredPrefix attr.1 = some pfx → ProperDeclaration .xml10 attr pfx) := by
  have accepted : (parseXmlDocument xmlnsElement .recording {}).1 = .ok () := by decide +kernel
  exact ⟨accepted, namespacesObeyed_iff xmlnsElement .recording {} rfl accepted⟩

theorem qualifiedName_lexicalName (tags : List StartTag) (isElement : Bool) (qname : Bytes) :
    (lexicalName tags isElement qname).qualifiedName = qname := by
  unfold lexicalName
  cases splitName qname with
  | none => rfl
  | some parts => rfl

/-- The document is accepted, although its element has a reserved prefix. -/
theorem not_namespacesObeyed :
    (parseXmlDocument xmlnsElement .recording {}).1 = .ok () ∧
      ∀ element, HasElement xmlnsElement .recording {} element →
        ¬ ∀ opened ∈ element.openTags [], ObeysNamespaces .xml10 opened.tag := by
  refine ⟨by decide +kernel, ?_⟩
  intro element has obeys
  obtain ⟨_, _, _, _, _, _, _, _, _, _, _, resolved⟩ := has
  have events : ((parseXmlDocument xmlnsElement .recording {}).2.events.map
      Event.withoutLocations).filterMap Event.startParts =
        [(⟨ascii "u", ascii "a", ascii "xmlns:a"⟩, [])] := by decide +kernel
  rw [events, List.forall₂_cons_right_iff] at resolved
  obtain ⟨opened, rest, lexical, _, openTags⟩ := resolved
  have named : opened.tag.name = ascii "xmlns:a" := by
    rw [← qualifiedName_lexicalName opened.chain true opened.tag.name, ← lexical.element]
  have obeyed := obeys opened (openTags ▸ List.mem_cons_self)
  apply obeyed.xmlnsUnused (ascii "a")
  rw [named]
  decide

end XmlParser
