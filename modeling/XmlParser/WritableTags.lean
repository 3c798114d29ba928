import XmlParser.LeafContents

/-! The names and attributes that some start tag gives to an element, without
mention of the tag. -/

set_option autoImplicit false

namespace XmlParser

open Grammar Dom

/-- The parts of a name fit together: with a colon it has a namespace, and without
one only the name of an element may have it. -/
def FitsTogether (isElement : Bool) (name : QualifiedName) : Prop :=
  match splitName name.qualifiedName with
  | none => name.localName = name.qualifiedName ∧ (isElement = false → name.uri = [])
  | some (pfx, localName) =>
      pfx ≠ [] ∧ localName ≠ [] ∧ 0x3A ∉ localName ∧ name.uri ≠ [] ∧ name.localName = localName ∧
        (pfx = ascii "xml" → name.uri = xmlNamespace)

/-- One tag can declare the namespaces of these names. -/
structure BoundTogether (version : XmlVersion) (name : QualifiedName) (views : List AttributeView) : Prop where
  element : FitsTogether true name
  attributes : ∀ view ∈ views, FitsTogether false view.name
  undeclared : ∀ view ∈ views, declaredPrefix view.name.qualifiedName = none
  agree : ∀ first ∈ tagNames name views, ∀ second ∈ tagNames name views, first.uri ≠ [] → second.uri ≠ [] →
    prefixOf first.qualifiedName = prefixOf second.qualifiedName → first.uri = second.uri
  uris : ∀ bound ∈ tagNames name views, Encoded version bound.uri
  expanded : (views.map fun view => view.name.expanded).Nodup

/-- Names are names, values are legal text, no attribute is there twice, and the
namespaces are such that the mode can read them. -/
structure WritableTag (version : XmlVersion) (mode : NamespaceMode) (name : QualifiedName)
    (views : List AttributeView) : Prop where
  element : NameBytes name.qualifiedName
  attributes : ∀ view ∈ views, NameBytes view.name.qualifiedName ∧ Encoded version view.value ∧ view.location = {}
  distinct : (views.map fun view => view.name.qualifiedName).Nodup
  names : match mode with
    | .enabled => BoundTogether version name views
    | .disabled => ∀ bound ∈ tagNames name views, bound.uri = [] ∧ bound.localName = bound.qualifiedName

/-! ## Names that have been read -/

section Read

variable {version : XmlVersion} {tags : List StartTag} {tag : Tag}

theorem fitsTogether_lexicalName {isElement : Bool} {qname : Bytes} (proper : WellNamed tags qname) :
    FitsTogether isElement (lexicalName tags isElement qname) := by
  unfold FitsTogether
  rw [lexicalName_qualifiedName]
  cases split : splitName qname with
  | none =>
      simp only [lexicalName, split, true_and]
      intro isAttribute
      simp [isAttribute]
  | some parts =>
      obtain ⟨pfx, localName⟩ := parts
      obtain ⟨filled, localFilled, single, bound⟩ := proper pfx localName split
      simp only [lexicalName, split]
      refine ⟨filled, localFilled, single, bound, trivial, fun isXml => ?_⟩
      simp [lexicalUri, isXml]

theorem boundTogether_of_named (readable : tag.Readable (looseDialect version))
    (named : NamedIn .enabled [tag.startTag] tag.startTag) :
    BoundTogether version (lexicalName [tag.startTag] true tag.startTag.name)
      (attributesIn .enabled [tag.startTag] tag.startTag) where
  element := fitsTogether_lexicalName (named.element rfl)
  attributes := by
    intro view isView
    obtain ⟨attr, member, rfl⟩ := mem_attributesIn.mp isView
    exact fitsTogether_lexicalName (named.attributes attr member rfl)
  undeclared := undeclared_attributesIn
  agree := by
    intro first isFirst second isSecond firstBound secondBound same
    rw [resolved_tagNames first isFirst firstBound, resolved_tagNames second isSecond secondBound, same]
  uris := by
    intro bound isName
    have encoded := encodedTags_cons (legalDialect_loose version) readable (List.forall_mem_nil _)
    by_cases filled : bound.uri = []
    · rw [filled]
      exact Encoded.nil version
    · rw [resolved_tagNames bound isName filled]
      exact encoded_lexicalUri encoded _
  expanded := named.expanded

theorem writableTag_of_readable (readable : tag.Readable (looseDialect version)) {mode : NamespaceMode}
    (named : NamedIn mode [tag.startTag] tag.startTag) :
    WritableTag version mode (nameIn mode [tag.startTag] true tag.startTag.name)
      (attributesIn mode [tag.startTag] tag.startTag) := by
  have names := nameBytes_startTag readable
  have encoded := encodedTags_cons (legalDialect_loose version) readable (List.forall_mem_nil _)
  have qualified : ∀ isElement qname, (nameIn mode [tag.startTag] isElement qname).qualifiedName = qname := by
    intro isElement qname
    cases mode <;> simp [nameIn]
  refine ⟨?_, ?_, ?_, ?_⟩
  · rw [qualified]
    exact ⟨tag.name, readable.name, rfl⟩
  · intro view isView
    obtain ⟨attr, member, rfl⟩ := List.mem_map.mp isView
    have isAttribute : attr ∈ tag.startTag.attributes := (List.mem_filter.mp member).1
    rw [qualified]
    exact ⟨names attr isAttribute, encoded tag.startTag List.mem_cons_self attr isAttribute, rfl⟩
  · have keys : (attributesIn mode [tag.startTag] tag.startTag).map (fun view => view.name.qualifiedName) =
        (tag.startTag.plain mode).map Prod.fst := by
      simp [attributesIn, Function.comp_def, qualified]
    rw [keys]
    exact (distinct_startTag readable).sublist (List.filter_sublist.map _)
  · cases mode with
    | enabled => exact boundTogether_of_named readable named
    | disabled =>
        intro bound isName
        rcases List.mem_cons.mp isName with rfl | isAttribute
        · exact ⟨rfl, rfl⟩
        · obtain ⟨view, isView, rfl⟩ := List.mem_map.mp isAttribute
          obtain ⟨attr, _, rfl⟩ := List.mem_map.mp isView
          exact ⟨rfl, rfl⟩

end Read

/-! ## Tags for names -/

namespace BoundTogether

variable {version : XmlVersion} {name : QualifiedName} {views : List AttributeView}

theorem fits (together : BoundTogether version name views) {bound : QualifiedName}
    (isName : bound ∈ tagNames name views) : ∃ isElement, FitsTogether isElement bound := by
  rcases List.mem_cons.mp isName with rfl | isAttribute
  · exact ⟨true, together.element⟩
  · obtain ⟨view, isView, rfl⟩ := List.mem_map.mp isAttribute
    exact ⟨false, together.attributes view isView⟩

theorem uri_of_xml {isElement : Bool} {bound : QualifiedName} (fits : FitsTogether isElement bound)
    (isXml : prefixOf bound.qualifiedName = ascii "xml") : bound.uri = xmlNamespace := by
  unfold FitsTogether at fits
  cases split : splitName bound.qualifiedName with
  | none =>
      rw [prefixOf_of_whole split] at isXml
      cases isXml
  | some parts =>
      rw [prefixOf_of_split split] at isXml
      simp only [split] at fits
      exact fits.2.2.2.2.2 isXml

/-- The declarations come in front of attributes that declare nothing. -/
theorem binding_reissued (together : BoundTogether version name views) (pfx : Bytes) :
    (reissued name views).binding pfx =
      ((bindings (tagNames name views) []).find? fun binding => binding.1 = pfx).map Prod.snd := by
  have plain : ∀ attr ∈ views.map (fun view => (view.name.qualifiedName, view.value)),
      declaredPrefix attr.1 = none := by
    simpa using together.undeclared
  exact binding_map_declarations (nodup_bindings (tagNames name views) []) plain name.qualifiedName pfx

/-- The tag that is written binds the prefixes of its names to their namespaces. -/
theorem resolved (together : BoundTogether version name views) :
    Resolved (lexicalUri [reissued name views]) (tagNames name views) := by
  intro bound isName filled
  obtain ⟨isElement, fits⟩ := together.fits isName
  unfold lexicalUri
  split
  · rename_i isXml
    exact uri_of_xml fits isXml
  · have declared := (@declares_bindings _ [] bound isName filled).resolve_left List.not_mem_nil
    obtain ⟨binding, isBinding, same⟩ := List.mem_map.mp declared
    have found : ∃ first, ((bindings (tagNames name views) []).find? fun binding =>
        binding.1 = prefixOf bound.qualifiedName) = some first := by
      rw [← Option.isSome_iff_exists, List.find?_isSome]
      exact ⟨binding, isBinding, by simp [same]⟩
    obtain ⟨first, isFirst⟩ := found
    obtain ⟨_, other, isOther, otherFilled, rfl⟩ := mem_bindings (List.mem_of_find?_eq_some isFirst)
    have samePrefix : prefixOf other.qualifiedName = prefixOf bound.qualifiedName := by
      simpa using List.find?_some isFirst
    have uri := together.agree bound isName other isOther filled otherFilled samePrefix.symm
    simp [together.binding_reissued, isFirst, uri]

/-- Without a namespace for the element the tag declares no default. -/
theorem default_unbound (together : BoundTogether version name views) (unbound : name.uri = []) :
    lexicalUri [reissued name views] [] = [] := by
  have none : ((bindings (tagNames name views) []).find? fun binding => binding.1 = []) = none := by
    rw [List.find?_eq_none]
    intro binding isBinding
    obtain ⟨_, other, isOther, filled, rfl⟩ := mem_bindings isBinding
    rcases List.mem_cons.mp isOther with rfl | isAttribute
    · exact absurd unbound filled
    · obtain ⟨view, isView, rfl⟩ := List.mem_map.mp isAttribute
      have fits := together.attributes view isView
      unfold FitsTogether at fits
      cases split : splitName view.name.qualifiedName with
      | none =>
          simp only [split] at fits
          exact absurd (fits.2 trivial) filled
      | some parts =>
          simp only [split] at fits
          simp [prefixOf_of_split split, fits.1]
  have notXml : ([] : Bytes) ≠ ascii "xml" := by decide
  simp [lexicalUri, notXml, together.binding_reissued, none]

theorem lexicalName_of_fits (together : BoundTogether version name views) {isElement : Bool}
    {bound : QualifiedName} (isName : bound ∈ tagNames name views) (fits : FitsTogether isElement bound)
    (unprefixed : isElement = true → bound = name) :
    WellNamed [reissued name views] bound.qualifiedName ∧
      lexicalName [reissued name views] isElement bound.qualifiedName = bound := by
  unfold FitsTogether at fits
  cases split : splitName bound.qualifiedName with
  | none =>
      simp only [split] at fits
      have wellNamed : WellNamed [reissued name views] bound.qualifiedName := by
        intro pfx localName parts
        cases split.symm.trans parts
      refine ⟨wellNamed, ?_⟩
      have uri : (if isElement then lexicalUri [reissued name views] [] else []) = bound.uri := by
        cases isElement with
        | false => exact (fits.2 rfl).symm
        | true =>
            by_cases unbound : bound.uri = []
            · rw [unbound]
              exact together.default_unbound (unprefixed rfl ▸ unbound)
            · have same := together.resolved bound isName unbound
              rw [prefixOf_of_whole split] at same
              exact same.symm
      simp only [lexicalName, split, uri]
      nth_rewrite 1 [← fits.1]
      rfl
  | some parts =>
      obtain ⟨pfx, localName⟩ := parts
      simp only [split] at fits
      obtain ⟨filled, localFilled, single, boundUri, sameLocal, _⟩ := fits
      have same := together.resolved bound isName boundUri
      rw [prefixOf_of_split split] at same
      refine ⟨?_, ?_⟩
      · intro other otherLocal parts
        cases split.symm.trans parts
        exact ⟨filled, localFilled, single, same ▸ boundUri⟩
      · simp only [lexicalName, split, ← same, ← sameLocal]

theorem plain_reissued (together : BoundTogether version name views) :
    (reissued name views).plain .enabled = views.map fun view => (view.name.qualifiedName, view.value) := by
  have declarations : ((bindings (tagNames name views) []).map fun binding =>
      (declarationName binding.1, binding.2)).filter (fun attr => !declaresIn .enabled attr.1) = [] := by
    rw [List.filter_eq_nil_iff]
    intro attr member
    obtain ⟨binding, _, rfl⟩ := List.mem_map.mp member
    simp [declaresIn]
  have kept : (views.map fun view => (view.name.qualifiedName, view.value)).filter
      (fun attr => !declaresIn .enabled attr.1) = views.map fun view => (view.name.qualifiedName, view.value) := by
    rw [List.filter_eq_self]
    intro attr member
    obtain ⟨view, isView, rfl⟩ := List.mem_map.mp member
    simp [declaresIn, together.undeclared view isView]
  rw [StartTag.plain, reissued, List.filter_append, declarations, kept, List.nil_append]

theorem attributesIn_reissued (together : BoundTogether version name views)
    (plainLocations : ∀ view ∈ views, view.location = {}) :
    attributesIn .enabled [reissued name views] (reissued name views) = views := by
  unfold attributesIn
  rw [together.plain_reissued, List.map_map]
  refine (List.map_congr_left fun view isView => ?_).trans (List.map_id views)
  have named := (together.lexicalName_of_fits (List.mem_cons_of_mem _ (List.mem_map_of_mem isView))
    (together.attributes view isView) nofun).2
  have location := plainLocations view isView
  simp only [Function.comp_apply, nameIn, named, ← location, id]

theorem keys_reissued (together : BoundTogether version name views)
    (distinct : (views.map fun view => view.name.qualifiedName).Nodup) :
    ((reissued name views).attributes.map Prod.fst).Nodup := by
  rw [reissued, List.map_append, List.nodup_append]
  have keys : ((bindings (tagNames name views) []).map fun binding =>
      (declarationName binding.1, binding.2)).map Prod.fst =
      ((bindings (tagNames name views) []).map Prod.fst).map declarationName := by
    simp [Function.comp_def]
  have plain : (views.map fun view => (view.name.qualifiedName, view.value)).map Prod.fst =
      views.map fun view => view.name.qualifiedName := by
    simp [Function.comp_def]
  rw [keys, plain]
  refine ⟨(nodup_bindings _ _).map declarationName_injective, distinct, ?_⟩
  intro declared isDeclared other isOther same
  obtain ⟨pfx, _, rfl⟩ := List.mem_map.mp isDeclared
  obtain ⟨view, isView, rfl⟩ := List.mem_map.mp isOther
  have undeclared := together.undeclared view isView
  rw [← same, declaredPrefix_declarationName] at undeclared
  cases undeclared

end BoundTogether

namespace WritableTag

variable {version : XmlVersion} {name : QualifiedName} {views : List AttributeView}

theorem validlyNamed_enabled (writable : WritableTag version .enabled name views) :
    ValidlyNamed version .enabled name views := by
  have together : BoundTogether version name views := writable.names
  obtain ⟨text, isName, bytes⟩ := writable.element
  have named : ∀ bound ∈ tagNames name views, NameBytes bound.qualifiedName := by
    intro bound isBound
    rcases List.mem_cons.mp isBound with rfl | isAttribute
    · exact writable.element
    · obtain ⟨view, isView, rfl⟩ := List.mem_map.mp isAttribute
      exact (writable.attributes view isView).1
  have proper : ∀ attr ∈ (reissued name views).attributes, NameBytes attr.1 ∧ Encoded version attr.2 := by
    intro attr member
    rcases List.mem_append.mp member with isBinding | isAttribute
    · obtain ⟨binding, inside, rfl⟩ := List.mem_map.mp isBinding
      obtain ⟨_, bound, isBound, _, rfl⟩ := mem_bindings inside
      exact ⟨nameBytes_declarationName (named bound isBound), together.uris bound isBound⟩
    · obtain ⟨view, isView, rfl⟩ := List.mem_map.mp isAttribute
      exact ⟨(writable.attributes view isView).1, (writable.attributes view isView).2.1⟩
  obtain ⟨spelled, _, spells⟩ := exists_spells isName (together.keys_reissued writable.distinct) proper
  have tag : spelled.startTag = reissued name views := by
    rw [spells.startTag, ← bytes]
    rfl
  have element := together.lexicalName_of_fits List.mem_cons_self together.element fun _ => rfl
  have attributes := together.attributesIn_reissued fun view isView => (writable.attributes view isView).2.2
  refine ⟨spelled, spells.readable, ?_, ?_, ?_⟩
  · rw [tag]
    refine ⟨fun _ => element.1, ?_, ?_⟩
    · intro attr member _
      rw [together.plain_reissued] at member
      obtain ⟨view, isView, rfl⟩ := List.mem_map.mp member
      exact (together.lexicalName_of_fits (List.mem_cons_of_mem _ (List.mem_map_of_mem isView))
        (together.attributes view isView) nofun).1
    · rw [attributes]
      exact together.expanded
  · rw [tag]
    exact element.2
  · rw [tag]
    exact attributes

theorem validlyNamed_disabled (writable : WritableTag version .disabled name views) :
    ValidlyNamed version .disabled name views := by
  obtain ⟨text, isName, bytes⟩ := writable.element
  have proper : ∀ attr ∈ views.map (fun view => (view.name.qualifiedName, view.value)),
      NameBytes attr.1 ∧ Encoded version attr.2 := by
    intro attr member
    obtain ⟨view, isView, rfl⟩ := List.mem_map.mp member
    exact ⟨(writable.attributes view isView).1, (writable.attributes view isView).2.1⟩
  have distinct : ((views.map fun view => (view.name.qualifiedName, view.value)).map Prod.fst).Nodup := by
    simpa [Function.comp_def] using writable.distinct
  obtain ⟨spelled, _, spells⟩ := exists_spells isName distinct proper
  have plain : ∀ bound ∈ tagNames name views, (⟨[], bound.qualifiedName, bound.qualifiedName⟩ : QualifiedName) =
      bound := by
    intro bound isBound
    obtain ⟨uri, sameLocal⟩ := writable.names bound isBound
    rw [← uri]
    nth_rewrite 1 [← sameLocal]
    rfl
  have attributes : attributesIn .disabled [spelled.startTag] spelled.startTag = views := by
    have all : spelled.startTag.plain .disabled = spelled.startTag.attributes :=
      List.filter_eq_self.mpr fun _ _ => rfl
    unfold attributesIn
    rw [all, spells.startTag, List.map_map]
    refine (List.map_congr_left fun view isView => ?_).trans (List.map_id views)
    have same := plain view.name (List.mem_cons_of_mem _ (List.mem_map_of_mem isView))
    have location := (writable.attributes view isView).2.2
    simp only [Function.comp_apply, nameIn, same, ← location, id]
  refine ⟨spelled, spells.readable, ⟨by simp, by simp, ?_⟩, ?_, attributes⟩
  · rw [attributes]
    have expanded : views.map (fun view => view.name.expanded) =
        (views.map fun view => view.name.qualifiedName).map fun qname => (([] : Bytes), qname) := by
      rw [List.map_map]
      apply List.map_congr_left
      intro view isView
      obtain ⟨uri, sameLocal⟩ := writable.names view.name (List.mem_cons_of_mem _ (List.mem_map_of_mem isView))
      simp [QualifiedName.expanded, uri, sameLocal]
    rw [expanded]
    exact writable.distinct.map fun first second same => (Prod.mk.inj same).2
  · rw [spells.startTag, ← bytes]
    exact plain name List.mem_cons_self

/-- Some start tag gives an element this name and these attributes exactly if they
are writable. -/
theorem iff_validlyNamed {mode : NamespaceMode} :
    WritableTag version mode name views ↔ ValidlyNamed version mode name views := by
  constructor
  · intro writable
    cases mode with
    | enabled => exact writable.validlyNamed_enabled
    | disabled => exact writable.validlyNamed_disabled
  · intro named
    obtain ⟨tag, readable, proper, rfl, rfl⟩ := named
    exact writableTag_of_readable readable proper

end WritableTag

end XmlParser
