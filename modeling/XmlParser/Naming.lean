import XmlParser.Elements

/-! Lexical scoping of namespace declarations: what a name means in the start
tags around it, and that the scope stack of the parser computes it. -/

set_option autoImplicit false

namespace XmlParser

open XmlParser.Computation Comp

/-- The name and the attributes of a start tag as they are read. -/
structure StartTag where
  name : Bytes
  attributes : List (Bytes × Bytes)
  deriving DecidableEq, Repr

/-- The prefix that an attribute of this name declares. -/
def declaredPrefix (name : Bytes) : Option Bytes :=
  if name = ascii "xmlns" then some []
  else if (ascii "xmlns:").isPrefixOf name then some (name.drop 6)
  else none

/-- The value of the last attribute of the tag that declares the prefix. -/
def StartTag.binding (tag : StartTag) (pfx : Bytes) : Option Bytes :=
  ((tag.attributes.filter fun attr => declaredPrefix attr.1 = some pfx).getLast?).map Prod.snd

def xmlNamespace : Bytes := ascii "http://www.w3.org/XML/1998/namespace"

/-- The namespace of a prefix in a chain of tags, the innermost one first. -/
def lexicalUri (tags : List StartTag) (pfx : Bytes) : Bytes :=
  if pfx = ascii "xml" then xmlNamespace
  else (tags.findSome? fun tag => tag.binding pfx).getD []

/-- The parts of a name before and behind its first colon. -/
def splitName (qname : Bytes) : Option (Bytes × Bytes) :=
  (qname.findIdx? (· == 0x3A)).map fun colon => (qname.take colon, qname.drop (colon + 1))

def lexicalName (tags : List StartTag) (isElement : Bool) (qname : Bytes) : QualifiedName :=
  match splitName qname with
  | none => ⟨if isElement then lexicalUri tags [] else [], qname, qname⟩
  | some (pfx, localName) => ⟨lexicalUri tags pfx, localName, qname⟩

/-- The parts of a name with a colon are proper, and its prefix is bound. -/
def WellNamed (tags : List StartTag) (qname : Bytes) : Prop :=
  ∀ pfx localName, splitName qname = some (pfx, localName) →
    pfx ≠ [] ∧ localName ≠ [] ∧ 0x3A ∉ localName ∧ lexicalUri tags pfx ≠ []

/-! The meaning of a tag under either mode, `tags` being the tag itself and the
tags around it. -/

def nameIn (mode : NamespaceMode) (tags : List StartTag) (isElement : Bool) (qname : Bytes) :
    QualifiedName :=
  match mode with
  | .enabled => lexicalName tags isElement qname
  | .disabled => ⟨[], qname, qname⟩

def declaresIn (mode : NamespaceMode) (name : Bytes) : Bool :=
  mode = .enabled && (declaredPrefix name).isSome

/-- The attributes of a tag that are no declarations. -/
def StartTag.plain (mode : NamespaceMode) (tag : StartTag) : List (Bytes × Bytes) :=
  tag.attributes.filter fun attr => !declaresIn mode attr.1

def attributesIn (mode : NamespaceMode) (tags : List StartTag) (tag : StartTag) :
    List AttributeView :=
  (tag.plain mode).map fun attr => ⟨nameIn mode tags false attr.1, attr.2, {}⟩

def QualifiedName.expanded (name : QualifiedName) : Bytes × Bytes := (name.uri, name.localName)

/-- The names of a tag are proper, and no two of its attributes share an
expanded name. -/
structure NamedIn (mode : NamespaceMode) (tags : List StartTag) (tag : StartTag) : Prop where
  element : mode = .enabled → WellNamed tags tag.name
  attributes : ∀ attr ∈ tag.plain mode, mode = .enabled → WellNamed tags attr.1
  expanded : ((attributesIn mode tags tag).map fun view => view.name.expanded).Nodup

/-! ## The scope stack -/

/-- An attribute as the parser keeps it, without its place. -/
def RawAttribute.pair (raw : RawAttribute) : Bytes × Bytes := (raw.name, raw.value)

/-- The declarations of a tag, the last one first. -/
def StartTag.scope (tag : StartTag) : NamespaceScope :=
  (tag.attributes.filterMap fun attr =>
    (declaredPrefix attr.1).map fun pfx => (pfx, attr.2)).reverse

theorem collectDeclarations_eq (attributes : List RawAttribute) (scope : NamespaceScope) :
    Parser.collectDeclarations attributes scope =
      ((attributes.map RawAttribute.pair).filterMap fun attr =>
        (declaredPrefix attr.1).map fun pfx => (pfx, attr.2)).reverse ++ scope := by
  induction attributes generalizing scope with
  | nil => rfl
  | cons raw rest ih =>
      unfold Parser.collectDeclarations
      rw [List.map_cons, List.filterMap_cons]
      by_cases isDefault : raw.name = ascii "xmlns"
      · have declared : declaredPrefix raw.pair.1 = some [] := if_pos isDefault
        rw [if_pos (beq_iff_eq.mpr isDefault), ih, declared, Option.map_some, List.reverse_cons,
          List.append_assoc]
        rfl
      · rw [if_neg (mt beq_iff_eq.mp isDefault)]
        by_cases isPrefixed : (ascii "xmlns:").isPrefixOf raw.name = true
        · have declared : declaredPrefix raw.pair.1 = some (raw.name.drop 6) :=
            (if_neg isDefault).trans (if_pos isPrefixed)
          rw [if_pos isPrefixed, ih, declared, Option.map_some, List.reverse_cons,
            List.append_assoc]
          rfl
        · have declared : declaredPrefix raw.pair.1 = none :=
            (if_neg isDefault).trans (if_neg isPrefixed)
          rw [if_neg isPrefixed, ih, declared]
          rfl

/-- Looking a prefix up in the declarations of a tag finds the last one. -/
theorem lookupKey_scope (tag : StartTag) (pfx : Bytes) :
    lookupKey pfx tag.scope = tag.binding pfx := by
  unfold StartTag.scope StartTag.binding lookupKey
  rw [List.getLast?_eq_head?_reverse, ← List.filter_reverse, List.head?_filter, ← List.filterMap_reverse]
  induction tag.attributes.reverse with
  | nil => rfl
  | cons attr rest ih =>
      cases declared : declaredPrefix attr.1 with
      | none => simpa [declared] using ih
      | some other =>
          by_cases same : other = pfx
          · simp [declared, same]
          · simpa [declared, same] using ih

/-- The scope stack inside a chain of tags. -/
def scopesOf (mode : NamespaceMode) (tags : List StartTag) : List NamespaceScope :=
  match mode with
  | .enabled => tags.map StartTag.scope
  | .disabled => tags.map fun _ => []

theorem collectNamespaceDeclarations_eq (p : Parser) (name : Bytes)
    (attributes : List RawAttribute) (tags : List StartTag) :
    p.collectNamespaceDeclarations attributes :: scopesOf p.options.namespaces tags =
      scopesOf p.options.namespaces (⟨name, attributes.map RawAttribute.pair⟩ :: tags) := by
  unfold Parser.collectNamespaceDeclarations scopesOf
  cases p.options.namespaces with
  | disabled => rfl
  | enabled =>
      rw [if_neg (by decide), collectDeclarations_eq, List.append_nil]
      rfl

theorem lookupNamespace_eq (tags : List StartTag) (pfx : Bytes) :
    Parser.lookupNamespace (tags.map StartTag.scope) pfx = lexicalUri tags pfx := by
  unfold Parser.lookupNamespace lexicalUri xmlNamespace
  by_cases isXml : pfx = ascii "xml"
  · rw [if_pos (beq_iff_eq.mpr isXml), if_pos isXml]
  · rw [if_neg (mt beq_iff_eq.mp isXml), if_neg isXml, List.findSome?_map]
    congr 2
    funext tag
    exact lookupKey_scope tag pfx

theorem lexicalUri_xml (tags : List StartTag) : lexicalUri tags (ascii "xml") ≠ [] := by
  unfold lexicalUri
  rw [if_pos rfl]
  decide

theorem wellNamed_of_no_colon {tags : List StartTag} {qname : Bytes}
    (whole : qname.findIdx? (· == 0x3A) = none) : WellNamed tags qname := by
  intro pfx localName split
  unfold splitName at split
  rw [whole] at split
  cases split

theorem wellNamed_iff_of_colon {tags : List StartTag} {qname : Bytes} {colon : Nat}
    (found : qname.findIdx? (· == 0x3A) = some colon) :
    WellNamed tags qname ↔
      ¬ (colon = 0 || colon + 1 ≥ qname.length || (qname.drop (colon + 1)).contains 0x3A) = true ∧
        lexicalUri tags (qname.take colon) ≠ [] := by
  have short : colon < qname.length := (List.findIdx?_eq_some_iff_getElem.mp found).1
  have prefixEmpty : qname.take colon = [] ↔ colon = 0 := by
    rw [List.take_eq_nil_iff, or_iff_left_of_imp]
    intro empty
    rw [empty] at short
    cases short
  have localEmpty : qname.drop (colon + 1) = [] ↔ colon + 1 ≥ qname.length := List.drop_eq_nil_iff
  simp only [WellNamed, splitName, found, Option.map_some, Option.some.injEq, Prod.mk.injEq,
    and_imp, forall_apply_eq_imp_iff, forall_eq', Bool.or_eq_true, decide_eq_true_eq, not_or,
    List.contains_iff_mem, ne_eq, prefixEmpty, localEmpty, and_assoc]

namespace Parser

variable (p : Parser) {σ : Type}

theorem resolveName_eq_ok_iff {tags : List StartTag} {qname : Bytes} {isElement : Bool}
    {location : SourceLocation} {s t : σ} {name : QualifiedName} :
    (p.resolveName (scopesOf p.options.namespaces tags) qname isElement location).run s =
        (.ok name, t) ↔
      (p.options.namespaces = .enabled → WellNamed tags qname) ∧
        name = nameIn p.options.namespaces tags isElement qname ∧ t = s := by
  unfold resolveName nameIn scopesOf
  cases p.options.namespaces with
  | disabled => simp [eq_comm]
  | enabled =>
      rw [if_neg (by decide)]
      dsimp only
      unfold lexicalName splitName
      cases found : qname.findIdx? (· == 0x3A) with
      | none =>
          have proper : WellNamed tags qname := wellNamed_of_no_colon found
          simp [proper, lookupNamespace_eq, eq_comm]
      | some colon =>
          rw [wellNamed_iff_of_colon found]
          simp only [lookupNamespace_eq, Option.map_some]
          generalize (colon = 0 || colon + 1 ≥ qname.length ||
            (qname.drop (colon + 1)).contains 0x3A) = malformed
          cases malformed with
          | true => simp
          | false =>
              rw [if_neg Bool.false_ne_true]
              split
              · rename_i unbound
                have empty : lexicalUri tags (qname.take colon) = [] := by
                  simpa using (Bool.and_eq_true_iff.mp unbound).1
                simp [empty]
              · rename_i bound
                have nonempty : lexicalUri tags (qname.take colon) ≠ [] := by
                  intro empty
                  have isXml : qname.take colon = ascii "xml" := by simpa [empty] using bound
                  exact lexicalUri_xml tags (isXml ▸ empty)
                simp [nonempty, eq_comm]

theorem isNamespaceDeclaration_eq (name : Bytes) :
    p.isNamespaceDeclaration name = declaresIn p.options.namespaces name := by
  unfold isNamespaceDeclaration declaresIn declaredPrefix
  congr 1
  by_cases isDefault : name = ascii "xmlns"
  · rw [if_pos isDefault, beq_iff_eq.mpr isDefault, Bool.true_or, Option.isSome_some]
  · rw [if_neg isDefault, beq_eq_false_iff_ne.mpr isDefault, Bool.false_or]
    cases (ascii "xmlns:").isPrefixOf name with
    | true => rfl
    | false => rfl

/-- The attributes of a tag under the names they mean, each at its place. -/
def viewsOf (mode : NamespaceMode) (tags : List StartTag) (raws : List RawAttribute) :
    List AttributeView :=
  (raws.filter fun raw => !declaresIn mode raw.name).map fun raw =>
    ⟨nameIn mode tags false raw.name, raw.value, raw.location⟩

theorem attributeViews_eq_ok_iff {tags : List StartTag} {raws : List RawAttribute}
    {seen : List (Bytes × Bytes)} {s t : σ} {views : List AttributeView} :
    (p.attributeViews (scopesOf p.options.namespaces tags) raws seen).run s = (.ok views, t) ↔
      (∀ raw ∈ raws, declaresIn p.options.namespaces raw.name = false →
        p.options.namespaces = .enabled → WellNamed tags raw.name) ∧
      ((viewsOf p.options.namespaces tags raws).map fun view => view.name.expanded).Nodup ∧
      (∀ view ∈ viewsOf p.options.namespaces tags raws, view.name.expanded ∉ seen) ∧
      views = viewsOf p.options.namespaces tags raws ∧ t = s := by
  induction raws generalizing seen views s t with
  | nil =>
      unfold attributeViews
      constructor
      · intro returned
        cases returned
        simp [viewsOf]
      · intro holds
        obtain ⟨_, _, _, rfl, rfl⟩ := holds
        rfl
  | cons raw rest ih =>
      unfold attributeViews
      rw [isNamespaceDeclaration_eq]
      cases declares : declaresIn p.options.namespaces raw.name with
      | true =>
          rw [if_pos rfl, ih]
          simp [viewsOf, declares]
      | false =>
          rw [if_neg Bool.false_ne_true]
          have shown : viewsOf p.options.namespaces tags (raw :: rest) =
              ⟨nameIn p.options.namespaces tags false raw.name, raw.value, raw.location⟩ ::
                viewsOf p.options.namespaces tags rest := by
            simp [viewsOf, declares]
          simp only [bind_eq_ok, resolveName_eq_ok_iff, shown, List.map_cons, List.nodup_cons,
            List.forall_mem_cons, declares]
          constructor
          · intro returned
            obtain ⟨name, _, ⟨proper, rfl, rfl⟩, returned⟩ := returned
            split at returned
            · cases returned
            · rename_i unseen
              obtain ⟨others, _, viewed, returned⟩ := bind_eq_ok.mp returned
              obtain ⟨properRest, distinct, unseenRest, rfl, same⟩ := ih.mp viewed
              cases returned
              refine ⟨⟨fun _ => proper, properRest⟩, ⟨?_, distinct⟩, ⟨?_, ?_⟩, rfl, same⟩
              · intro member
                obtain ⟨view, member, same⟩ := List.mem_map.mp member
                exact unseenRest view member (same ▸ List.mem_cons_self)
              · simpa [QualifiedName.expanded] using unseen
              · exact fun view member seen => unseenRest view member (List.mem_cons_of_mem _ seen)
          · intro holds
            obtain ⟨⟨proper, properRest⟩, ⟨new, distinct⟩, ⟨unseen, unseenRest⟩, rfl, rfl⟩ := holds
            refine ⟨_, _, ⟨proper trivial, rfl, rfl⟩, ?_⟩
            rw [if_neg (by simpa [QualifiedName.expanded] using unseen), bind_eq_ok]
            refine ⟨_, _, ih.mpr ⟨properRest, distinct, ?_, rfl, rfl⟩, rfl⟩
            intro view member seen
            cases List.mem_cons.mp seen with
            | inl same => exact new (List.mem_map.mpr ⟨view, member, same⟩)
            | inr seen => exact unseenRest view member seen

/-- Up to their places the views are the attributes the tag means. -/
theorem viewsOf_withoutLocation (mode : NamespaceMode) (tags : List StartTag)
    (raws : List RawAttribute) (name : Bytes) :
    (viewsOf mode tags raws).map AttributeView.withoutLocation =
      attributesIn mode tags ⟨name, raws.map RawAttribute.pair⟩ := by
  simp [viewsOf, attributesIn, StartTag.plain, List.filter_map, Function.comp_def,
    AttributeView.withoutLocation, RawAttribute.pair]

/-- The names of a start tag are resolved exactly if they are proper, to the
names the tag means. -/
theorem resolveTag_ok_iff {tags : List StartTag} {name : Bytes} {raws : List RawAttribute}
    {location : SourceLocation} {s t u : σ} {elementName : QualifiedName}
    {views : List AttributeView} :
    ((p.resolveName (scopesOf p.options.namespaces tags) name true location).run s =
        (.ok elementName, t) ∧
      (p.attributeViews (scopesOf p.options.namespaces tags) raws []).run t = (.ok views, u)) ↔
      NamedIn p.options.namespaces tags ⟨name, raws.map RawAttribute.pair⟩ ∧
        elementName = nameIn p.options.namespaces tags true name ∧
        views = viewsOf p.options.namespaces tags raws ∧ t = s ∧ u = s := by
  have shown := viewsOf_withoutLocation p.options.namespaces tags raws name
  have expanded : (attributesIn p.options.namespaces tags ⟨name, raws.map RawAttribute.pair⟩).map
      (fun view => view.name.expanded) =
      (viewsOf p.options.namespaces tags raws).map fun view => view.name.expanded := by
    rw [← shown, List.map_map]
    rfl
  rw [resolveName_eq_ok_iff, attributeViews_eq_ok_iff]
  constructor
  · intro resolved
    obtain ⟨⟨proper, rfl, rfl⟩, properAttributes, distinct, _, rfl, rfl⟩ := resolved
    refine ⟨⟨proper, ?_, expanded ▸ distinct⟩, rfl, rfl, rfl, rfl⟩
    intro attr member
    obtain ⟨listed, plain⟩ := List.mem_filter.mp member
    obtain ⟨raw, isRaw, rfl⟩ := List.mem_map.mp listed
    exact properAttributes raw isRaw (by simpa [RawAttribute.pair] using plain)
  · intro named
    obtain ⟨⟨proper, properAttributes, distinct⟩, rfl, rfl, rfl, rfl⟩ := named
    refine ⟨⟨proper, rfl, rfl⟩, ?_, expanded ▸ distinct, fun _ _ => List.not_mem_nil, rfl, rfl⟩
    intro raw member plain
    refine properAttributes raw.pair (List.mem_filter.mpr ⟨List.mem_map_of_mem member, ?_⟩)
    simpa [RawAttribute.pair] using plain

end Parser

end XmlParser
