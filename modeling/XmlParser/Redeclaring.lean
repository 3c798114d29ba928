import XmlParser.Naming
import XmlParser.WrittenEvents

/-! The start tags that serializing writes. Each declares the namespaces of its own
names again: names with a prefix mean the same under any tags around it, and an
element without prefix and namespace falls into the default written around it. -/

set_option autoImplicit false

namespace XmlParser

open Dom

/-! ## Prefixes and their declarations -/

theorem prefixOf_eq (qname : Bytes) : prefixOf qname = ((splitName qname).map Prod.fst).getD [] := by
  unfold prefixOf splitName
  cases qname.findIdx? (· == 0x3A) with
  | none => rfl
  | some colon => rfl

theorem prefixOf_of_whole {qname : Bytes} (whole : splitName qname = none) : prefixOf qname = [] := by
  simp [prefixOf_eq, whole]

theorem prefixOf_of_split {qname pfx localName : Bytes} (split : splitName qname = some (pfx, localName)) :
    prefixOf qname = pfx := by
  simp [prefixOf_eq, split]

/-- The name of the attribute that declares a prefix. -/
def declarationName (pfx : Bytes) : Bytes :=
  if pfx.isEmpty then ascii "xmlns" else ascii "xmlns:" ++ pfx

@[simp] theorem declaredPrefix_declarationName (pfx : Bytes) :
    declaredPrefix (declarationName pfx) = some pfx := by
  cases pfx with
  | nil => rfl
  | cons first rest =>
      have longer : ascii "xmlns:" ++ first :: rest ≠ ascii "xmlns" := by
        intro same
        have lengths := congrArg List.length same
        simp [ascii] at lengths
      have isPrefixed : (ascii "xmlns:").isPrefixOf (ascii "xmlns:" ++ first :: rest) = true :=
        List.isPrefixOf_iff_prefix.mpr (List.prefix_append _ _)
      have dropped : (ascii "xmlns:" ++ first :: rest).drop 6 = first :: rest :=
        List.drop_left' rfl
      simp only [declarationName, List.isEmpty_cons, Bool.false_eq_true, if_false, declaredPrefix,
        if_neg longer, isPrefixed, if_true, dropped]

theorem declarationName_injective : Function.Injective declarationName := by
  intro left right same
  have declared := congrArg declaredPrefix same
  simpa using declared

/-! ## What a written tag declares -/

/-- The prefixes that a tag declares for these names, and their namespaces, when
some prefixes are declared already. -/
def bindings : List QualifiedName → List Bytes → List (Bytes × Bytes)
  | [], _ => []
  | name :: rest, declared =>
      if !name.uri.isEmpty && !declared.contains (prefixOf name.qualifiedName) then
        (prefixOf name.qualifiedName, name.uri) :: bindings rest (prefixOf name.qualifiedName :: declared)
      else bindings rest declared

/-- The names of a start tag, the one of the element first. -/
def tagNames (name : QualifiedName) (views : List AttributeView) : List QualifiedName :=
  name :: views.map AttributeView.name

/-- The start tag that is written for an element. -/
def reissued (name : QualifiedName) (views : List AttributeView) : StartTag :=
  ⟨name.qualifiedName, (bindings (tagNames name views) []).map (fun binding =>
    (declarationName binding.1, binding.2)) ++ views.map fun view => (view.name.qualifiedName, view.value)⟩

theorem mem_bindings {names : List QualifiedName} {declared : List Bytes} {binding : Bytes × Bytes}
    (member : binding ∈ bindings names declared) :
    binding.1 ∉ declared ∧ ∃ name ∈ names, name.uri ≠ [] ∧
      binding = (prefixOf name.qualifiedName, name.uri) := by
  induction names generalizing declared with
  | nil => cases member
  | cons name rest ih =>
      simp only [bindings, Bool.and_eq_true, Bool.not_eq_true', List.isEmpty_eq_false_iff,
        List.contains_eq_mem, decide_eq_false_iff_not] at member
      split at member
      · rename_i new
        rcases List.mem_cons.mp member with rfl | later
        · exact ⟨new.2, name, List.mem_cons_self, new.1, rfl⟩
        · obtain ⟨fresh, other, isOther, bound, same⟩ := ih later
          simp only [List.mem_cons, not_or] at fresh
          exact ⟨fresh.2, other, List.mem_cons_of_mem _ isOther, bound, same⟩
      · obtain ⟨fresh, other, isOther, bound, same⟩ := ih member
        exact ⟨fresh, other, List.mem_cons_of_mem _ isOther, bound, same⟩

theorem nodup_bindings (names : List QualifiedName) (declared : List Bytes) :
    ((bindings names declared).map Prod.fst).Nodup := by
  induction names generalizing declared with
  | nil => exact List.nodup_nil
  | cons name rest ih =>
      unfold bindings
      split
      · rw [List.map_cons, List.nodup_cons]
        refine ⟨?_, ih _⟩
        intro member
        obtain ⟨binding, isBinding, same⟩ := List.mem_map.mp member
        exact (mem_bindings isBinding).1 (same ▸ List.mem_cons_self)
      · exact ih _

/-- The prefix of a name with a namespace is declared. -/
theorem declares_bindings {names : List QualifiedName} {declared : List Bytes} {name : QualifiedName}
    (member : name ∈ names) (bound : name.uri ≠ []) :
    prefixOf name.qualifiedName ∈ declared ∨
      prefixOf name.qualifiedName ∈ (bindings names declared).map Prod.fst := by
  induction names generalizing declared with
  | nil => cases member
  | cons other rest ih =>
      simp only [bindings, Bool.and_eq_true, Bool.not_eq_true', List.isEmpty_eq_false_iff,
        List.contains_eq_mem, decide_eq_false_iff_not]
      split
      · rcases List.mem_cons.mp member with rfl | later
        · exact .inr List.mem_cons_self
        · rcases ih later with known | found
          · rcases List.mem_cons.mp known with same | old
            · exact .inr (same ▸ List.mem_cons_self)
            · exact .inl old
          · exact .inr (List.mem_cons_of_mem _ found)
      · rename_i skipped
        rcases List.mem_cons.mp member with rfl | later
        · exact .inl (by simpa [bound] using skipped)
        · exact ih later

/-! ## The text of a tag -/

def attributeText (attr : Bytes × Bytes) : Bytes :=
  [0x20] ++ attr.1 ++ ascii "=\"" ++ escapeAttribute attr.2 ++ ascii "\""

/-- A start tag between its brackets. -/
def startTagText (tag : StartTag) : Bytes := tag.name ++ tag.attributes.flatMap attributeText

theorem attributeTexts_eq (views : List AttributeView) :
    attributeTexts (views.map storedView) =
      (views.map fun view => (view.name.qualifiedName, view.value)).flatMap attributeText := by
  induction views with
  | nil => rfl
  | cons view rest ih => simp [attributeTexts, attributeText, storedView, ih]

/-- Attributes with a namespace have a prefix. -/
def Prefixed (views : List AttributeView) : Prop :=
  ∀ view ∈ views, view.name.uri ≠ [] → prefixOf view.name.qualifiedName ≠ []

theorem attributeDeclarations_eq {views : List AttributeView} (prefixed : Prefixed views)
    (declared : List Bytes) :
    attributeDeclarations (views.map storedView) declared =
      ((bindings (views.map AttributeView.name) declared).map fun binding =>
        (declarationName binding.1, binding.2)).flatMap attributeText := by
  induction views generalizing declared with
  | nil => rfl
  | cons view rest ih =>
      obtain ⟨here, later⟩ := List.forall_mem_cons.mp prefixed
      simp only [List.map_cons, attributeDeclarations, bindings, storedView, ih later]
      cases bound : view.name.uri.isEmpty with
      | true => simp
      | false =>
          have named := here (List.isEmpty_eq_false_iff.mp bound)
          split
          · have space : ascii " xmlns:" = [0x20] ++ ascii "xmlns:" := rfl
            simp [attributeText, declarationName, named, space]
          · rfl

/-- What is written for a start tag is the text of the reissued one. -/
theorem tagText_eq (name : QualifiedName) {views : List AttributeView} (prefixed : Prefixed views) :
    tagText name.qualifiedName name.uri (views.map storedView) =
      [0x3C] ++ startTagText (reissued name views) := by
  simp only [tagText, elementDeclaration, attributeTexts_eq, startTagText, reissued, tagNames, bindings]
  cases bound : name.uri.isEmpty with
  | true => simp [attributeDeclarations_eq prefixed]
  | false =>
      cases plain : (prefixOf name.qualifiedName).isEmpty with
      | true =>
          have space : ascii " xmlns=\"" = [0x20] ++ ascii "xmlns" ++ ascii "=\"" := rfl
          have none := List.isEmpty_iff.mp plain
          simp [attributeDeclarations_eq prefixed, attributeText, declarationName, none, space]
      | false =>
          have space : ascii " xmlns:" = [0x20] ++ ascii "xmlns:" := rfl
          have named := List.isEmpty_eq_false_iff.mp plain
          simp [attributeDeclarations_eq prefixed, attributeText, declarationName, named, space]

/-! ## What the names of a written tag mean -/

/-- The namespaces of these names are those of their prefixes. -/
def Resolved (uriOf : Bytes → Bytes) (names : List QualifiedName) : Prop :=
  ∀ name ∈ names, name.uri ≠ [] → name.uri = uriOf (prefixOf name.qualifiedName)

theorem binding_map_declarations {bound : List (Bytes × Bytes)} (distinct : (bound.map Prod.fst).Nodup)
    {plain : List (Bytes × Bytes)} (undeclared : ∀ attr ∈ plain, declaredPrefix attr.1 = none)
    (qname pfx : Bytes) :
    (StartTag.mk qname ((bound.map fun binding => (declarationName binding.1, binding.2)) ++ plain)).binding pfx =
      (bound.find? fun binding => binding.1 = pfx).map Prod.snd := by
  have none : plain.filter (fun attr => declaredPrefix attr.1 = some pfx) = [] := by
    rw [List.filter_eq_nil_iff]
    intro attr member
    simp [undeclared attr member]
  unfold StartTag.binding
  rw [List.filter_append, none, List.append_nil, List.filter_map, List.getLast?_map, Option.map_map]
  induction bound with
  | nil => rfl
  | cons binding rest ih =>
      obtain ⟨new, distinctRest⟩ := List.nodup_cons.mp distinct
      by_cases same : binding.1 = pfx
      · have unbound : rest.filter (fun other => other.1 = pfx) = [] := by
          rw [List.filter_eq_nil_iff]
          intro other member isSame
          exact new (List.mem_map.mpr ⟨other, member, (of_decide_eq_true isSame).trans same.symm⟩)
        simp [Function.comp_def, same, unbound]
      · simpa [Function.comp_def, same] using ih distinctRest

/-- A written tag gives its own prefixes the namespaces they had, and leaves the
others to the tags around it. -/
theorem lexicalUri_reissued {inner : List StartTag} {name : QualifiedName} {views : List AttributeView}
    (resolved : Resolved (lexicalUri inner) (tagNames name views))
    (undeclared : ∀ view ∈ views, declaredPrefix view.name.qualifiedName = none)
    (outer : List StartTag) (pfx : Bytes) :
    lexicalUri (reissued name views :: outer) pfx =
      if pfx ∈ (bindings (tagNames name views) []).map Prod.fst then lexicalUri inner pfx
      else lexicalUri outer pfx := by
  by_cases isXml : pfx = ascii "xml"
  · simp [lexicalUri, isXml]
  · have plain : ∀ attr ∈ views.map (fun view => (view.name.qualifiedName, view.value)),
        declaredPrefix attr.1 = none := by simpa using undeclared
    have bound := binding_map_declarations (nodup_bindings (tagNames name views) []) plain
      name.qualifiedName pfx
    have found : (reissued name views).binding pfx =
        ((bindings (tagNames name views) []).find? fun binding => binding.1 = pfx).map Prod.snd := bound
    have around : lexicalUri (reissued name views :: outer) pfx =
        ((reissued name views).binding pfx).getD (lexicalUri outer pfx) := by
      simp only [lexicalUri, if_neg isXml, List.findSome?_cons]
      cases (reissued name views).binding pfx with
      | none => rfl
      | some uri => rfl
    rw [around, found]
    split
    · rename_i declared
      obtain ⟨binding, isBinding, same⟩ := List.mem_map.mp declared
      cases first : (bindings (tagNames name views) []).find? fun binding => binding.1 = pfx with
      | none =>
          have differs := List.find?_eq_none.mp first binding isBinding
          simp [same] at differs
      | some other =>
          have isSame : other.1 = pfx := by simpa using List.find?_some first
          obtain ⟨_, source, isSource, nonempty, rfl⟩ := mem_bindings (List.mem_of_find?_eq_some first)
          have uri := resolved source isSource nonempty
          simp [uri, ← isSame]
    · rename_i undeclaredHere
      have none : ((bindings (tagNames name views) []).find? fun binding => binding.1 = pfx) = none := by
        rw [List.find?_eq_none]
        intro binding isBinding isSame
        exact undeclaredHere (List.mem_map.mpr ⟨binding, isBinding, of_decide_eq_true isSame⟩)
      simp [none]

/-! ## The default namespace -/

/-- The default namespace inside a chain of tags. -/
def defaultIn (mode : NamespaceMode) (tags : List StartTag) : Bytes :=
  match mode with
  | .enabled => lexicalUri tags []
  | .disabled => []

/-- An element without prefix and namespace, as it is read inside a written default. -/
def rebound (default : Bytes) (name : QualifiedName) : QualifiedName :=
  if (prefixOf name.qualifiedName).isEmpty && name.uri.isEmpty then { name with uri := default } else name

/-- The default written inside an element of this name. -/
def innerDefault (default : Bytes) (name : QualifiedName) : Bytes :=
  if (prefixOf name.qualifiedName).isEmpty && !name.uri.isEmpty then name.uri else default

@[simp] theorem rebound_qualifiedName (default : Bytes) (name : QualifiedName) :
    (rebound default name).qualifiedName = name.qualifiedName := by
  unfold rebound
  split <;> rfl

theorem rebound_nil (name : QualifiedName) : rebound [] name = name := by
  unfold rebound
  split
  · rename_i unbound
    have empty : name.uri = [] := by simpa using (Bool.and_eq_true_iff.mp unbound).2
    rw [← empty]
  · rfl

/-- Inside and outside of an element its name is read in the same way. -/
theorem rebound_innerDefault (default : Bytes) (name : QualifiedName) :
    rebound (innerDefault default name) name = rebound default name := by
  unfold rebound innerDefault
  cases (prefixOf name.qualifiedName).isEmpty with
  | false => rfl
  | true =>
      cases name.uri.isEmpty with
      | false => rfl
      | true => rfl

/-- How a written tag is read again inside other written tags. -/
structure Reissues (mode : NamespaceMode) (name : QualifiedName) (views : List AttributeView)
    (outer : List StartTag) : Prop where
  prefixed : Prefixed views
  named : NamedIn mode (reissued name views :: outer) (reissued name views)
  attributes : attributesIn mode (reissued name views :: outer) (reissued name views) = views
  element : nameIn mode (reissued name views :: outer) true name.qualifiedName =
    rebound (defaultIn mode outer) name
  default : defaultIn mode (reissued name views :: outer) = innerDefault (defaultIn mode outer) name

section Enabled

variable {tags outer : List StartTag} {name : QualifiedName} {views : List AttributeView}

@[simp] theorem lexicalName_qualifiedName (isElement : Bool) (qname : Bytes) :
    (lexicalName tags isElement qname).qualifiedName = qname := by
  unfold lexicalName
  split <;> rfl

theorem lexicalName_uri {isElement : Bool} {qname : Bytes}
    (bound : (lexicalName tags isElement qname).uri ≠ []) :
    (lexicalName tags isElement qname).uri = lexicalUri tags (prefixOf qname) := by
  unfold lexicalName at bound ⊢
  cases split : splitName qname with
  | none =>
      simp only [split] at bound ⊢
      cases isElement with
      | false => exact absurd rfl bound
      | true => rw [prefixOf_of_whole split, if_pos rfl]
  | some parts =>
      obtain ⟨pfx, localName⟩ := parts
      simp only [prefixOf_of_split split]

/-- Attributes with a namespace have a prefix. -/
theorem prefixed_of_wellNamed {qname : Bytes} (proper : WellNamed tags qname)
    (bound : (lexicalName tags false qname).uri ≠ []) : prefixOf qname ≠ [] := by
  unfold lexicalName at bound
  cases split : splitName qname with
  | none => simp [split] at bound
  | some parts =>
      obtain ⟨pfx, localName⟩ := parts
      rw [prefixOf_of_split split]
      exact (proper pfx localName split).1

theorem lexicalUri_of_name (resolved : Resolved (lexicalUri tags) (tagNames name views))
    (undeclared : ∀ view ∈ views, declaredPrefix view.name.qualifiedName = none)
    {isElement : Bool} {qname pfx localName : Bytes} (proper : WellNamed tags qname)
    (listed : lexicalName tags isElement qname ∈ tagNames name views)
    (split : splitName qname = some (pfx, localName)) :
    lexicalUri (reissued name views :: outer) pfx = lexicalUri tags pfx := by
  have bound : (lexicalName tags isElement qname).uri ≠ [] := by
    simp only [lexicalName, split]
    exact (proper pfx localName split).2.2.2
  have declared := @declares_bindings _ [] _ listed bound
  rw [lexicalName_qualifiedName, prefixOf_of_split split] at declared
  rw [lexicalUri_reissued resolved undeclared, if_pos (declared.resolve_left List.not_mem_nil)]

/-- Reading a prefixed name inside the written tag gives what it was. -/
theorem lexicalName_reissued (resolved : Resolved (lexicalUri tags) (tagNames name views))
    (undeclared : ∀ view ∈ views, declaredPrefix view.name.qualifiedName = none)
    {isElement : Bool} {qname pfx localName : Bytes} (proper : WellNamed tags qname)
    (listed : lexicalName tags isElement qname ∈ tagNames name views)
    (split : splitName qname = some (pfx, localName)) :
    lexicalName (reissued name views :: outer) isElement qname = lexicalName tags isElement qname := by
  simp only [lexicalName, split, lexicalUri_of_name resolved undeclared proper listed split]

theorem wellNamed_reissued (resolved : Resolved (lexicalUri tags) (tagNames name views))
    (undeclared : ∀ view ∈ views, declaredPrefix view.name.qualifiedName = none)
    {isElement : Bool} {qname : Bytes} (proper : WellNamed tags qname)
    (listed : lexicalName tags isElement qname ∈ tagNames name views) :
    WellNamed (reissued name views :: outer) qname := by
  intro pfx localName split
  rw [lexicalUri_of_name resolved undeclared proper listed split]
  exact proper pfx localName split

/-- Only the name of the element itself can declare a default. -/
theorem default_reissued (resolved : Resolved (lexicalUri tags) (tagNames name views))
    (undeclared : ∀ view ∈ views, declaredPrefix view.name.qualifiedName = none)
    (prefixed : Prefixed views) :
    lexicalUri (reissued name views :: outer) [] = innerDefault (lexicalUri outer []) name := by
  rw [lexicalUri_reissued resolved undeclared]
  unfold innerDefault
  split
  · rename_i declared
    obtain ⟨binding, isBinding, same⟩ := List.mem_map.mp declared
    obtain ⟨_, source, isSource, bound, rfl⟩ := mem_bindings isBinding
    rcases List.mem_cons.mp isSource with rfl | isAttribute
    · have none : prefixOf source.qualifiedName = [] := same
      have uri := resolved source List.mem_cons_self bound
      rw [none] at uri
      simp [none, bound, ← uri]
    · obtain ⟨view, isView, rfl⟩ := List.mem_map.mp isAttribute
      exact absurd same (prefixed view isView bound)
  · rename_i undeclaredHere
    split
    · rename_i plain
      simp only [Bool.and_eq_true, List.isEmpty_iff, Bool.not_eq_true', List.isEmpty_eq_false_iff] at plain
      have declared := @declares_bindings (tagNames name views) [] name List.mem_cons_self plain.2
      rw [plain.1] at declared
      exact absurd (declared.resolve_left List.not_mem_nil) undeclaredHere
    · rfl

end Enabled

/-! ## Tags that have been read -/

section Read

variable {tags : List StartTag} {tag : StartTag}

theorem mem_attributesIn {view : AttributeView} :
    view ∈ attributesIn .enabled tags tag ↔
      ∃ attr ∈ tag.plain .enabled, view = ⟨lexicalName tags false attr.1, attr.2, {}⟩ := by
  simp [attributesIn, nameIn, eq_comm]

theorem declaredPrefix_of_plain {attr : Bytes × Bytes} (member : attr ∈ tag.plain .enabled) :
    declaredPrefix attr.1 = none := by
  have undeclared := (List.mem_filter.mp member).2
  simpa [declaresIn] using undeclared

theorem undeclared_attributesIn :
    ∀ view ∈ attributesIn .enabled tags tag, declaredPrefix view.name.qualifiedName = none := by
  intro view isView
  obtain ⟨attr, member, rfl⟩ := mem_attributesIn.mp isView
  simpa using declaredPrefix_of_plain member

theorem resolved_tagNames :
    Resolved (lexicalUri tags) (tagNames (lexicalName tags true tag.name) (attributesIn .enabled tags tag)) := by
  intro source isSource bound
  rcases List.mem_cons.mp isSource with rfl | isAttribute
  · rw [lexicalName_uri bound, lexicalName_qualifiedName]
  · obtain ⟨view, isView, rfl⟩ := List.mem_map.mp isAttribute
    obtain ⟨attr, _, rfl⟩ := mem_attributesIn.mp isView
    dsimp only at bound ⊢
    rw [lexicalName_uri bound, lexicalName_qualifiedName]

theorem prefixed_attributesIn (named : NamedIn .enabled tags tag) :
    Prefixed (attributesIn .enabled tags tag) := by
  intro view isView bound
  obtain ⟨attr, member, rfl⟩ := mem_attributesIn.mp isView
  simpa using prefixed_of_wellNamed (named.attributes attr member rfl) bound

theorem listed_attributesIn {attr : Bytes × Bytes} (member : attr ∈ tag.plain .enabled)
    (name : QualifiedName) :
    lexicalName tags false attr.1 ∈ tagNames name (attributesIn .enabled tags tag) :=
  List.mem_cons_of_mem _ (List.mem_map.mpr ⟨_, mem_attributesIn.mpr ⟨attr, member, rfl⟩, rfl⟩)

/-- The written tag has the attributes of the tag read behind its declarations. -/
theorem reissued_attributes (name : QualifiedName) :
    (reissued name (attributesIn .enabled tags tag)).attributes =
      (bindings (tagNames name (attributesIn .enabled tags tag)) []).map (fun binding =>
        (declarationName binding.1, binding.2)) ++ tag.plain .enabled := by
  have pairs : (attributesIn .enabled tags tag).map (fun view => (view.name.qualifiedName, view.value)) =
      tag.plain .enabled := by
    simp [attributesIn, nameIn, Function.comp_def]
  simp [reissued, pairs]

theorem plain_reissued (name : QualifiedName) :
    (reissued name (attributesIn .enabled tags tag)).plain .enabled = tag.plain .enabled := by
  have declarations : ((bindings (tagNames name (attributesIn .enabled tags tag)) []).map fun binding =>
      (declarationName binding.1, binding.2)).filter (fun attr => !declaresIn .enabled attr.1) = [] := by
    rw [List.filter_eq_nil_iff]
    intro attr member
    obtain ⟨binding, _, rfl⟩ := List.mem_map.mp member
    simp [declaresIn]
  rw [StartTag.plain, reissued_attributes, List.filter_append, declarations]
  simp [StartTag.plain]

theorem attributesIn_reissued (named : NamedIn .enabled tags tag) (outer : List StartTag) :
    let name := lexicalName tags true tag.name
    let views := attributesIn .enabled tags tag
    attributesIn .enabled (reissued name views :: outer) (reissued name views) = views := by
  intro name views
  have same : ∀ attr ∈ tag.plain .enabled,
      lexicalName (reissued name views :: outer) false attr.1 = lexicalName tags false attr.1 := by
    intro attr member
    cases split : splitName attr.1 with
    | none => simp [lexicalName, split]
    | some parts =>
        exact lexicalName_reissued resolved_tagNames undeclared_attributesIn
          (named.attributes attr member rfl) (listed_attributesIn member name) split
  unfold attributesIn
  rw [plain_reissued]
  apply List.map_congr_left
  intro attr member
  simp only [nameIn, same attr member]

/-- Without prefix the name takes the written default, unless it has a namespace. -/
theorem elementName_reissued (named : NamedIn .enabled tags tag) (outer : List StartTag) :
    let name := lexicalName tags true tag.name
    lexicalName (reissued name (attributesIn .enabled tags tag) :: outer) true tag.name =
      rebound (lexicalUri outer []) name := by
  intro name
  cases split : splitName tag.name with
  | none =>
      have default := @default_reissued tags outer name _ resolved_tagNames undeclared_attributesIn
        (prefixed_attributesIn named)
      have here : name = ⟨lexicalUri tags [], tag.name, tag.name⟩ := by
        simp [name, lexicalName, split]
      simp only [lexicalName, split, if_true, default]
      cases bound : (lexicalUri tags []).isEmpty with
      | true => simp [here, innerDefault, rebound, prefixOf_of_whole split, bound]
      | false => simp [here, innerDefault, rebound, prefixOf_of_whole split, bound]
  | some parts =>
      have proper := named.element rfl
      have pfx : prefixOf tag.name = parts.1 := prefixOf_of_split split
      rw [lexicalName_reissued resolved_tagNames undeclared_attributesIn proper List.mem_cons_self split]
      simp [name, rebound, pfx, (proper parts.1 parts.2 split).1]

theorem reissues_enabled (named : NamedIn .enabled tags tag) (outer : List StartTag) :
    Reissues .enabled (nameIn .enabled tags true tag.name) (attributesIn .enabled tags tag) outer where
  prefixed := prefixed_attributesIn named
  attributes := attributesIn_reissued named outer
  default := default_reissued resolved_tagNames undeclared_attributesIn (prefixed_attributesIn named)
  element := by
    have element := elementName_reissued named outer
    simpa [nameIn, defaultIn] using element
  named := by
    constructor
    · intro _
      have proper := @wellNamed_reissued tags outer _ _ resolved_tagNames undeclared_attributesIn true tag.name
        (named.element rfl) List.mem_cons_self
      simpa [reissued, nameIn] using proper
    · intro attr member _
      rw [plain_reissued] at member
      exact wellNamed_reissued resolved_tagNames undeclared_attributesIn (named.attributes attr member rfl)
        (listed_attributesIn member _)
    · have attributes := attributesIn_reissued named outer
      have expanded := named.expanded
      rwa [← attributes] at expanded

/-- Without namespace processing the tag is written as it was read. -/
theorem reissued_disabled :
    reissued (nameIn .disabled tags true tag.name) (attributesIn .disabled tags tag) = tag := by
  have unbound : bindings (tagNames (nameIn .disabled tags true tag.name) (attributesIn .disabled tags tag)) [] =
      [] := by
    rw [List.eq_nil_iff_forall_not_mem]
    intro binding isBinding
    obtain ⟨_, source, isSource, bound, _⟩ := mem_bindings isBinding
    rcases List.mem_cons.mp isSource with rfl | isAttribute
    · exact bound rfl
    · obtain ⟨view, isView, rfl⟩ := List.mem_map.mp isAttribute
      obtain ⟨attr, _, rfl⟩ := List.mem_map.mp isView
      exact bound rfl
  have plain : tag.plain .disabled = tag.attributes := List.filter_eq_self.mpr fun _ _ => rfl
  have pairs : (attributesIn .disabled tags tag).map (fun view => (view.name.qualifiedName, view.value)) =
      tag.attributes := by
    simp [attributesIn, plain, nameIn, Function.comp_def]
  unfold reissued
  rw [unbound, pairs]
  rfl

theorem reissues_disabled (named : NamedIn .disabled tags tag) (outer : List StartTag) :
    Reissues .disabled (nameIn .disabled tags true tag.name) (attributesIn .disabled tags tag) outer where
  prefixed := by
    intro view isView bound
    obtain ⟨attr, _, rfl⟩ := List.mem_map.mp isView
    exact absurd rfl bound
  named := by
    rw [reissued_disabled]
    exact ⟨nofun, fun _ _ => nofun, named.expanded⟩
  attributes := by
    rw [reissued_disabled]
    rfl
  element := (rebound_nil _).symm
  default := by
    unfold innerDefault
    split <;> rfl

/-- Inside any written tags, the written tag has the attributes it was written
for, and its name up to the default. -/
theorem reissues {mode : NamespaceMode} (named : NamedIn mode tags tag) (outer : List StartTag) :
    Reissues mode (nameIn mode tags true tag.name) (attributesIn mode tags tag) outer := by
  cases mode with
  | enabled => exact reissues_enabled named outer
  | disabled => exact reissues_disabled named outer

end Read

end XmlParser
