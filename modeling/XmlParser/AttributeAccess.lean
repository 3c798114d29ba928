import XmlParser.RoundTrip

/-! Attributes are written by namespace and local name, and read by qualified name.
Which calls keep the two apart from each other. -/

set_option autoImplicit false

namespace XmlParser.Dom

open XmlParser.Computation Comp

/-! ## Reading attributes -/

/-- The loop of `get_attribute`. -/
def valueNamed (name : Bytes) : List Attribute → Bytes
  | [] => []
  | stored :: rest => if stored.qualifiedName == name then stored.value else valueNamed name rest

def getAttribute (this : NodeRef) (name : Bytes) : DomM Bytes := do
  match (← deref this).payload with
  | .element _ _ _ attributes => pure (valueNamed name attributes)
  | _ => Comp.throw .undefinedBehavior

section Values

variable {attributes : List Attribute}

theorem valueNamed_of_mem (distinct : (attributes.map Attribute.qualifiedName).Nodup) {stored : Attribute}
    (member : stored ∈ attributes) : valueNamed stored.qualifiedName attributes = stored.value := by
  induction attributes with
  | nil => cases member
  | cons first rest ih =>
      obtain ⟨new, distinctRest⟩ := List.nodup_cons.mp distinct
      rcases List.mem_cons.mp member with rfl | later
      · simp [valueNamed]
      · have differs : first.qualifiedName ≠ stored.qualifiedName :=
          fun same => new (same ▸ List.mem_map_of_mem later)
        simp [valueNamed, differs, ih distinctRest later]

theorem valueNamed_of_not_mem {name : Bytes} (absent : ∀ stored ∈ attributes, stored.qualifiedName ≠ name) :
    valueNamed name attributes = [] := by
  induction attributes with
  | nil => rfl
  | cons first rest ih =>
      obtain ⟨differs, others⟩ := List.forall_mem_cons.mp absent
      simp [valueNamed, differs, ih others]

end Values

/-! ## Storing an attribute -/

section Storing

variable {attributes : List Attribute} {stored : Attribute}

/-- The entry of the same key is replaced; without one, the attribute comes last. -/
theorem storeAttribute_eq (keys : (attributes.map Attribute.expanded).Nodup) (stored : Attribute) :
    (∃ before old behind, attributes = before ++ old :: behind ∧ old.expanded = stored.expanded ∧
        (∀ other ∈ before ++ behind, other.expanded ≠ stored.expanded) ∧
        storeAttribute stored attributes = before ++ stored :: behind) ∨
      (∀ other ∈ attributes, other.expanded ≠ stored.expanded) ∧
        storeAttribute stored attributes = attributes ++ [stored] := by
  induction attributes with
  | nil => exact .inr ⟨List.forall_mem_nil _, rfl⟩
  | cons first rest ih =>
      obtain ⟨new, keysRest⟩ := List.nodup_cons.mp keys
      by_cases same : first.expanded = stored.expanded
      · left
        obtain ⟨uri, localName⟩ := Prod.mk.inj same
        refine ⟨[], first, rest, rfl, same, ?_, ?_⟩
        · intro other member isSame
          exact new ((isSame.trans same.symm) ▸ List.mem_map_of_mem member)
        · simp [storeAttribute, uri, localName]
      · have differs : ¬ (first.namespaceUri = stored.namespaceUri ∧ first.localName = stored.localName) :=
          fun equal => same (Prod.ext equal.1 equal.2)
        have later : storeAttribute stored (first :: rest) = first :: storeAttribute stored rest := by
          simp [storeAttribute, differs]
        rcases ih keysRest with ⟨before, old, behind, rfl, isOld, apart, here⟩ | ⟨apart, here⟩
        · left
          refine ⟨first :: before, old, behind, rfl, isOld, List.forall_mem_cons.mpr ⟨same, apart⟩, ?_⟩
          rw [later, here]
          rfl
        · right
          refine ⟨List.forall_mem_cons.mpr ⟨same, apart⟩, ?_⟩
          rw [later, here]
          rfl

theorem mem_storeAttribute_iff (keys : (attributes.map Attribute.expanded).Nodup) {other : Attribute} :
    other ∈ storeAttribute stored attributes ↔
      other = stored ∨ other ∈ attributes ∧ other.expanded ≠ stored.expanded := by
  rcases storeAttribute_eq keys stored with ⟨before, old, behind, rfl, isOld, apart, here⟩ | ⟨apart, here⟩
  · obtain ⟨apartBefore, apartBehind⟩ := List.forall_mem_append.mp apart
    rw [here]
    simp only [List.mem_append, List.mem_cons]
    constructor
    · rintro (first | rfl | last)
      · exact .inr ⟨.inl first, apartBefore other first⟩
      · exact .inl rfl
      · exact .inr ⟨.inr (.inr last), apartBehind other last⟩
    · rintro (rfl | ⟨first | rfl | last, differs⟩)
      · exact .inr (.inl rfl)
      · exact .inl first
      · exact absurd isOld differs
      · exact .inr (.inr last)
  · rw [here, List.mem_append, List.mem_singleton, or_comm]
    exact or_congr_right ⟨fun member => ⟨member, apart other member⟩, And.left⟩

/-- What is distinct among the attributes stays so, if no other attribute shares it
with the one that is stored. -/
theorem nodup_storeAttribute {β : Type} {part : Attribute → β} (keys : (attributes.map Attribute.expanded).Nodup)
    (distinct : (attributes.map part).Nodup)
    (fresh : ∀ other ∈ attributes, other.expanded ≠ stored.expanded → part other ≠ part stored) :
    ((storeAttribute stored attributes).map part).Nodup := by
  rcases storeAttribute_eq keys stored with ⟨before, old, behind, rfl, _, apart, here⟩ | ⟨apart, here⟩
  · have inside : (before ++ behind).Sublist (before ++ old :: behind) :=
      List.Sublist.append_left (List.sublist_cons_self _ _) _
    rw [here, (List.perm_middle.map part).nodup_iff, List.map_cons, List.nodup_cons]
    refine ⟨?_, distinct.sublist (inside.map part)⟩
    intro member
    obtain ⟨other, isOther, same⟩ := List.mem_map.mp member
    exact fresh other (inside.subset isOther) (apart other isOther) same
  · rw [here, (List.perm_append_singleton _ _ |>.map part).nodup_iff, List.map_cons, List.nodup_cons]
    refine ⟨?_, distinct⟩
    intro member
    obtain ⟨other, isOther, same⟩ := List.mem_map.mp member
    exact fresh other isOther (apart other isOther) same

theorem keys_storeAttribute (keys : (attributes.map Attribute.expanded).Nodup) :
    ((storeAttribute stored attributes).map Attribute.expanded).Nodup :=
  nodup_storeAttribute keys keys fun _ _ => id

/-- No other attribute has the qualified name that is stored. -/
def OwnsName (stored : Attribute) (attributes : List Attribute) : Prop :=
  ∀ existing ∈ attributes, existing.qualifiedName = stored.qualifiedName → existing.expanded = stored.expanded

theorem names_storeAttribute_iff (keys : (attributes.map Attribute.expanded).Nodup)
    (names : (attributes.map Attribute.qualifiedName).Nodup) :
    ((storeAttribute stored attributes).map Attribute.qualifiedName).Nodup ↔ OwnsName stored attributes := by
  constructor
  · intro distinct existing member sameName
    by_contra differs
    have first := (mem_storeAttribute_iff keys).mpr (.inr ⟨member, differs⟩)
    have second := (mem_storeAttribute_iff keys).mpr (.inl (Eq.refl stored))
    exact differs (congrArg Attribute.expanded (List.inj_on_of_nodup_map distinct first second sameName))
  · intro owns
    exact nodup_storeAttribute keys names fun other member differs same => differs (owns other member same)

end Storing

/-! ## Calls on one element -/

/-- A call of one of the two setters of an element. -/
inductive AttributeCall where
  | setAttribute (name value : Bytes)
  | setAttributeNs (namespaceUri localName qualifiedName value : Bytes)

namespace AttributeCall

def operation (this : NodeRef) : AttributeCall → Operation
  | .setAttribute name value => .setAttribute this name value
  | .setAttributeNs namespaceUri localName qualifiedName value =>
      .setAttributeNs this namespaceUri localName qualifiedName value

/-- The attribute that the call stores. -/
def stored : AttributeCall → Attribute
  | .setAttribute name value => ⟨[], name, name, value⟩
  | .setAttributeNs namespaceUri localName qualifiedName value =>
      ⟨namespaceUri, localName, qualifiedName, value⟩

/-- The values that `get_attribute` owes to names since `set_attribute`; setting a
name by the other setter ends it. -/
def owed (owes : Bytes → Option Bytes) : AttributeCall → Bytes → Option Bytes
  | .setAttribute name value => Function.update owes name (some value)
  | .setAttributeNs _ _ qualifiedName _ => Function.update owes qualifiedName none

end AttributeCall

/-- `attributes()`. -/
def Heap.attributes (heap : Heap) (reference : NodeRef) : List Attribute :=
  match (heap.nodes reference).map Node.payload with
  | some (.element _ _ _ attributes) => attributes
  | _ => []

theorem Heap.exists_element {heap : Heap} {this : NodeRef} (isElement : heap.payloadIs Payload.isElement this = true) :
    ∃ node qualifiedName namespaceUri localName, heap.nodes this = some node ∧
      node.payload = .element qualifiedName namespaceUri localName (heap.attributes this) := by
  cases found : heap.nodes this with
  | none => simp [Heap.payloadIs, found] at isElement
  | some node =>
      rw [Heap.payloadIs_of_nodes found] at isElement
      cases payload : node.payload with
      | element qualifiedName namespaceUri localName attributes =>
          have here : heap.attributes this = attributes := by simp [Heap.attributes, found, payload]
          exact ⟨node, qualifiedName, namespaceUri, localName, rfl, by rw [here, payload]⟩
      | _ =>
          rw [payload] at isElement
          cases isElement

section OfElement

variable {heap : Heap} {this : NodeRef} (isElement : heap.payloadIs Payload.isElement this = true)

include isElement

/-- The attributes of an element after a call. -/
theorem attributes_after (call : AttributeCall) :
    ((call.operation this).after heap).payloadIs Payload.isElement this = true ∧
      ((call.operation this).after heap).attributes this = storeAttribute call.stored (heap.attributes this) := by
  have stores : ∀ namespaceUri localName qualifiedName value,
      let next := ((setAttributeNs this namespaceUri localName qualifiedName value).run heap).2
      next.payloadIs Payload.isElement this = true ∧
        next.attributes this =
          storeAttribute ⟨namespaceUri, localName, qualifiedName, value⟩ (heap.attributes this) := by
    intro namespaceUri localName qualifiedName value next
    obtain ⟨node, name, uri, localPart, found, payload⟩ := Heap.exists_element isElement
    generalize heap.attributes this = attributes at payload ⊢
    have ran : next = heap.update this (Node.setPayload (.element name uri localPart
        (storeAttribute ⟨namespaceUri, localName, qualifiedName, value⟩ attributes))) := by
      simp only [next]
      unfold setAttributeNs
      rw [run_bind_of_ok (run_deref found), payload]
      rfl
    rw [ran]
    simp [Heap.payloadIs, Heap.attributes, Heap.update, Node.setPayload, found, Payload.isElement]
  cases call with
  | setAttribute name value => exact stores [] name name value
  | setAttributeNs namespaceUri localName qualifiedName value =>
      exact stores namespaceUri localName qualifiedName value

theorem run_getAttribute (name : Bytes) :
    (getAttribute this name).run heap = (.ok (valueNamed name (heap.attributes this)), heap) := by
  obtain ⟨node, _, _, _, found, payload⟩ := Heap.exists_element isElement
  unfold getAttribute
  rw [run_bind_of_ok (run_deref found), payload]
  rfl

end OfElement

/-! ## Coherent access -/

/-- The qualified names are distinct, and `get_attribute` returns what it owes. -/
structure AccessCoherent (heap : Heap) (this : NodeRef) (owes : Bytes → Option Bytes) : Prop where
  distinct : ((heap.attributes this).map Attribute.qualifiedName).Nodup
  returned : ∀ name value, owes name = some value → (getAttribute this name).run heap = (.ok value, heap)

/-- The access is coherent before, between and after the calls. -/
def StaysCoherent (this : NodeRef) : Heap → (Bytes → Option Bytes) → List AttributeCall → Prop
  | heap, owes, [] => AccessCoherent heap this owes
  | heap, owes, call :: rest =>
      AccessCoherent heap this owes ∧ StaysCoherent this ((call.operation this).after heap) (call.owed owes) rest

/-- No other attribute has the name that the call sets, and an attribute that it
renames has no name with a value that is owed. -/
structure AttributeCall.InStep (call : AttributeCall) (attributes : List Attribute)
    (owes : Bytes → Option Bytes) : Prop where
  owns : OwnsName call.stored attributes
  renames : ∀ existing ∈ attributes, existing.expanded = call.stored.expanded →
    existing.qualifiedName ≠ call.stored.qualifiedName →
      ∀ value, owes existing.qualifiedName = some value → value = []

/-- Calls that are in step, whenever it is their turn. -/
def KeepsStep (this : NodeRef) : Heap → (Bytes → Option Bytes) → List AttributeCall → Prop
  | _, _, [] => True
  | heap, owes, call :: rest =>
      call.InStep (heap.attributes this) owes ∧
        KeepsStep this ((call.operation this).after heap) (call.owed owes) rest

section Steps

variable {attributes : List Attribute} {owes : Bytes → Option Bytes} {call : AttributeCall}

theorem owed_of_ne {name : Bytes} (other : name ≠ call.stored.qualifiedName) : call.owed owes name = owes name := by
  cases call with
  | setAttribute set value => exact Function.update_of_ne other _ _
  | setAttributeNs namespaceUri localName qualifiedName value => exact Function.update_of_ne other _ _

theorem value_of_owed {value : Bytes} (owed : call.owed owes call.stored.qualifiedName = some value) :
    value = call.stored.value := by
  cases call with
  | setAttribute name stored =>
      simp only [AttributeCall.owed, AttributeCall.stored, Function.update_self, Option.some.injEq] at owed
      exact owed.symm
  | setAttributeNs namespaceUri localName qualifiedName stored =>
      simp only [AttributeCall.owed, AttributeCall.stored, Function.update_self, reduceCtorEq] at owed

/-- What is owed after a call in step is what the attributes hold. -/
theorem valueNamed_stored (keys : (attributes.map Attribute.expanded).Nodup)
    (names : (attributes.map Attribute.qualifiedName).Nodup)
    (returned : ∀ name value, owes name = some value → valueNamed name attributes = value)
    (inStep : call.InStep attributes owes) {name value : Bytes} (owed : call.owed owes name = some value) :
    valueNamed name (storeAttribute call.stored attributes) = value := by
  have distinct := (names_storeAttribute_iff keys names).mpr inStep.owns
  by_cases isSet : name = call.stored.qualifiedName
  · subst isSet
    rw [value_of_owed owed]
    exact valueNamed_of_mem distinct ((mem_storeAttribute_iff keys).mpr (.inl rfl))
  · rw [owed_of_ne isSet] at owed
    have before := returned name value owed
    by_cases kept : ∃ existing ∈ attributes, existing.qualifiedName = name ∧ existing.expanded ≠ call.stored.expanded
    · obtain ⟨existing, member, rfl, differs⟩ := kept
      rw [valueNamed_of_mem names member] at before
      rw [← before]
      exact valueNamed_of_mem distinct ((mem_storeAttribute_iff keys).mpr (.inr ⟨member, differs⟩))
    · -- The name is gone; if it was there before, the call has renamed it.
      have absent : ∀ other ∈ storeAttribute call.stored attributes, other.qualifiedName ≠ name := by
        intro other member same
        rcases (mem_storeAttribute_iff keys).mp member with rfl | ⟨existing, differs⟩
        · exact isSet same.symm
        · exact kept ⟨other, existing, same, differs⟩
      rw [valueNamed_of_not_mem absent]
      by_cases there : ∃ existing ∈ attributes, existing.qualifiedName = name
      · obtain ⟨existing, member, rfl⟩ := there
        have renamed : existing.expanded = call.stored.expanded := by
          by_contra differs
          exact kept ⟨existing, member, rfl, differs⟩
        exact (inStep.renames existing member renamed isSet value owed).symm
      · push Not at there
        rw [← before, valueNamed_of_not_mem there]

/-- A call is in step exactly if coherent access survives it. -/
theorem inStep_iff {heap : Heap} {this : NodeRef} (isElement : heap.payloadIs Payload.isElement this = true)
    (keys : ((heap.attributes this).map Attribute.expanded).Nodup) (coherent : AccessCoherent heap this owes) :
    AccessCoherent ((call.operation this).after heap) this (call.owed owes) ↔
      call.InStep (heap.attributes this) owes := by
  obtain ⟨stillElement, attributes⟩ := attributes_after isElement call
  have returned : ∀ name value, owes name = some value → valueNamed name (heap.attributes this) = value := by
    intro name value owed
    have ran := coherent.returned name value owed
    rw [run_getAttribute isElement] at ran
    exact Except.ok.inj (congrArg Prod.fst ran)
  constructor
  · intro after
    have distinct := after.distinct
    rw [attributes] at distinct
    refine ⟨(names_storeAttribute_iff keys coherent.distinct).mp distinct, ?_⟩
    intro existing member sameKey renamed value owed
    have ran := after.returned existing.qualifiedName value ((owed_of_ne renamed).trans owed)
    rw [run_getAttribute stillElement, attributes] at ran
    have held := Except.ok.inj (congrArg Prod.fst ran)
    rw [← held]
    apply valueNamed_of_not_mem
    intro other isOther same
    rcases (mem_storeAttribute_iff keys).mp isOther with rfl | ⟨before, differs⟩
    · exact renamed same.symm
    · exact differs ((List.inj_on_of_nodup_map coherent.distinct before member same) ▸ sameKey)
  · intro inStep
    constructor
    · rw [attributes]
      exact (names_storeAttribute_iff keys coherent.distinct).mpr inStep.owns
    · intro name value owed
      rw [run_getAttribute stillElement, attributes,
        valueNamed_stored keys coherent.distinct returned inStep owed]

theorem staysCoherent_iff_of_keys {heap : Heap} {this : NodeRef}
    (isElement : heap.payloadIs Payload.isElement this = true)
    (keys : ((heap.attributes this).map Attribute.expanded).Nodup) (coherent : AccessCoherent heap this owes)
    (calls : List AttributeCall) : StaysCoherent this heap owes calls ↔ KeepsStep this heap owes calls := by
  induction calls generalizing heap owes with
  | nil => exact iff_of_true coherent trivial
  | cons call rest ih =>
      obtain ⟨stillElement, attributes⟩ := attributes_after isElement call
      have keysAfter : ((((call.operation this).after heap).attributes this).map Attribute.expanded).Nodup := by
        rw [attributes]
        exact keys_storeAttribute keys
      have step := @inStep_iff owes call heap this isElement keys coherent
      constructor
      · rintro ⟨_, behind⟩
        have after : AccessCoherent ((call.operation this).after heap) this (call.owed owes) := by
          cases rest with
          | nil => exact behind
          | cons _ _ => exact behind.1
        exact ⟨step.mp after, (ih stillElement keysAfter after).mp behind⟩
      · rintro ⟨inStep, behind⟩
        exact ⟨coherent, (ih stillElement keysAfter (step.mpr inStep)).mpr behind⟩

end Steps

end XmlParser.Dom

namespace XmlParser

open XmlParser.Computation Comp Grammar Dom

/-! ## Elements of parsed documents -/

/-- The attributes of an event have distinct names, qualified and expanded. -/
def Event.NamesApart : Event → Prop
  | .startElement _ views => (views.map fun view => view.name.qualifiedName).Nodup ∧
      (views.map fun view => view.name.expanded).Nodup
  | _ => True

section NamesApart

variable {d : Dialect} {mode : NamespaceMode}

theorem namesApart_attributesIn {tag : Tag} (readable : tag.Readable d) {tags : List StartTag}
    (named : NamedIn mode tags tag.startTag) (name : QualifiedName) :
    (Event.startElement name (attributesIn mode tags tag.startTag)).NamesApart := by
  refine ⟨?_, named.expanded⟩
  have names : (attributesIn mode tags tag.startTag).map (fun view => view.name.qualifiedName) =
      (tag.startTag.plain mode).map Prod.fst := by
    cases mode with
    | enabled => simp [attributesIn, nameIn, Function.comp_def]
    | disabled => simp [attributesIn, nameIn, Function.comp_def]
  rw [names]
  exact (distinct_startTag readable).sublist (List.filter_sublist.map _)

theorem namesApart_content {content : Content} (readable : content.Readable d) {tags : List StartTag}
    (named : content.Named mode tags) (text : Bytes) :
    ∀ event ∈ content.events mode tags text, event.NamesApart := by
  let kind : List StartTag → Content → Prop := fun tags content => content.Readable d ∧ content.Named mode tags
  have head : ∀ tags content, kind tags content → content.HeadMeets mode Event.NamesApart kind tags := by
    rintro tags content ⟨readable, named⟩
    cases content with
    | nil => trivial
    | piece item next => exact ⟨readable.2, named⟩
    | comment body next => exact ⟨trivial, readable.2, named⟩
    | cdata body next => exact ⟨trivial, readable.2, named⟩
    | instruction target gap data next => exact ⟨trivial, readable.2, named⟩
    | element tag children space next =>
        obtain ⟨readableTag, inside, _, behind⟩ := readable
        obtain ⟨namedTag, namedInside, namedBehind⟩ := named
        exact ⟨⟨namesApart_attributesIn readableTag namedTag _, trivial⟩, ⟨inside, namedInside⟩, behind, namedBehind⟩
    | emptyElement tag next =>
        exact ⟨⟨namesApart_attributesIn readable.1 named.1 _, trivial⟩, readable.2, named.2⟩
  exact Content.forall_events (fun _ => trivial) head ⟨readable, named⟩ text

theorem namesApart_miscEvents (miscs : List Misc) : ∀ event ∈ miscEvents miscs, event.NamesApart := by
  apply forall_miscEvents
  intro misc _
  cases misc with
  | space c => exact List.forall_mem_nil _
  | comment body => exact List.forall_mem_singleton.mpr trivial
  | instruction target gap data => exact List.forall_mem_singleton.mpr trivial

theorem ReadAs.namesApart {version : XmlVersion} {prolog : List Misc} {tag : Tag}
    {body : Option (Content × Text)} {epilog : List Misc} {events : List Event}
    (read : ReadAs version mode d prolog tag body epilog events) :
    ∀ event ∈ shownEvents events, event.NamesApart := by
  rw [read.shown]
  exact List.forall_mem_append.mpr ⟨namesApart_miscEvents prolog, List.forall_mem_append.mpr
    ⟨namesApart_content read.element read.named [], namesApart_miscEvents epilog⟩⟩

end NamesApart

namespace Dom

/-- The events of a node that is shown are among those of the tree. -/
theorem Shows.opening_subset {heap : Heap} {refs : List NodeRef} {nodes : Nodes} (shows : Shows heap refs nodes)
    {reference : NodeRef} (member : reference ∈ nodes.references) {node : Node}
    (found : heap.nodes reference = some node) : node.payload.opening ⊆ nodes.events := by
  induction shows with
  | nil => cases member
  | @cons first children refs payload below rest isFirst inside after ihInside ihAfter =>
      intro event isOpening
      rw [Nodes.references, List.mem_cons, List.mem_append] at member
      rw [Nodes.events]
      rcases member with rfl | within | behind
      · rw [Heap.content_of_nodes found] at isFirst
        obtain ⟨_, rfl⟩ := Prod.mk.inj (Option.some.inj isFirst)
        simp [isOpening]
      · simp [ihInside within isOpening]
      · simp [ihAfter behind isOpening]

/-- The attributes of an element have distinct names, qualified and expanded. -/
def DistinctAttributes (heap : Heap) (element : NodeRef) : Prop :=
  ((heap.attributes element).map Attribute.qualifiedName).Nodup ∧
    ((heap.attributes element).map Attribute.expanded).Nodup

theorem distinct_of_parsed {xml : Bytes} {options : ParserOptions} {document : NodeRef} {heap : Heap}
    (parsed : parseDocument xml options = (.ok document, heap)) {element : NodeRef}
    (below : Relation.TransGen heap.links.Child element document) : DistinctAttributes heap element := by
  obtain ⟨fits, accepted⟩ := accepted_of_parseDocument (congrArg Prod.fst parsed)
  obtain ⟨found, heap', refs, nodes, parsed', holds⟩ := parseDocument_holds fits accepted
  cases parsed.symm.trans parsed'
  obtain ⟨shown, _⟩ := holds.run_serialize
  obtain ⟨d, prolog, tag, body, epilog, read⟩ := exists_readAs accepted
  have apart := read.namesApart
  rw [← holds.events] at apart
  have member := (shown.mem_iff element).mpr below
  cases isNode : heap.nodes element with
  | none => simp [DistinctAttributes, Heap.attributes, isNode]
  | some node =>
      have opening := shown.shows.opening_subset member isNode
      cases payload : node.payload with
      | element qualifiedName namespaceUri localName attributes =>
          rw [payload] at opening
          have start := apart _ (opening List.mem_cons_self)
          simp only [Event.NamesApart, List.map_map] at start
          have here : heap.attributes element = attributes := by simp [Heap.attributes, isNode, payload]
          rw [DistinctAttributes, here]
          exact start
      | _ => simp [DistinctAttributes, Heap.attributes, isNode, payload]

/-- An element as `create_element` makes it, or as `parse` has built it. -/
inductive Unset (heap : Heap) (element : NodeRef) : Prop where
  | created (bare : heap.attributes element = [])
  | parsed (xml : Bytes) (options : ParserOptions) (document : NodeRef)
      (parsed : parseDocument xml options = (.ok document, heap))
      (below : Relation.TransGen heap.links.Child element document)

theorem Unset.distinct {heap : Heap} {element : NodeRef} (unset : Unset heap element) :
    DistinctAttributes heap element := by
  cases unset with
  | created bare =>
      rw [DistinctAttributes, bare]
      exact ⟨List.nodup_nil, List.nodup_nil⟩
  | parsed xml options document parsed below => exact distinct_of_parsed parsed below

/-- Access by qualified name stays coherent exactly in the runs whose calls are in
step: none sets a name that another attribute has, and none renames an attribute
whose value is owed. -/
theorem staysCoherent_iff {heap : Heap} {element : NodeRef}
    (isElement : heap.payloadIs Payload.isElement element = true) (unset : Unset heap element)
    (calls : List AttributeCall) :
    StaysCoherent element heap (fun _ => none) calls ↔ KeepsStep element heap (fun _ => none) calls := by
  obtain ⟨names, keys⟩ := unset.distinct
  have coherent : AccessCoherent heap element fun _ => none := by
    refine ⟨names, fun name value owed => ?_⟩
    cases owed
  exact staysCoherent_iff_of_keys isElement keys coherent calls

/-- A document whose element has an attribute with a prefix. -/
def prefixedAttribute : Bytes := ascii "<a xmlns:p='u' p:x='1'/>"

theorem prefixedAttribute_unset :
    (parseDocument prefixedAttribute {}).2.payloadIs Payload.isElement 1 = true ∧
      Unset (parseDocument prefixedAttribute {}).2 1 := by
  have returned : (parseDocument prefixedAttribute {}).1 = .ok 2 := by decide +kernel
  have isParent : (parseDocument prefixedAttribute {}).2.links.parent 1 = some 2 := by decide +kernel
  have parsed : parseDocument prefixedAttribute {} = (.ok 2, (parseDocument prefixedAttribute {}).2) := by
    rw [← returned]
  exact ⟨by decide +kernel, .parsed prefixedAttribute {} 2 parsed (.single isParent)⟩

theorem staysCoherent_iff_sample :
    StaysCoherent 1 (parseDocument prefixedAttribute {}).2 (fun _ => none)
      [.setAttributeNs (ascii "u") (ascii "x") (ascii "p:x") (ascii "2")] := by
  refine (staysCoherent_iff prefixedAttribute_unset.1 prefixedAttribute_unset.2 _).mpr ⟨⟨?_, ?_⟩, trivial⟩
  · unfold OwnsName
    decide +kernel
  · exact fun _ _ _ _ _ owed => nomatch owed

/-- Setting the attribute by the name it was parsed with adds another one. -/
theorem not_staysCoherent :
    (parseDocument prefixedAttribute {}).2.payloadIs Payload.isElement 1 = true ∧
      Unset (parseDocument prefixedAttribute {}).2 1 ∧
      ¬ StaysCoherent 1 (parseDocument prefixedAttribute {}).2 (fun _ => none)
        [.setAttribute (ascii "p:x") (ascii "2")] := by
  refine ⟨prefixedAttribute_unset.1, prefixedAttribute_unset.2, ?_⟩
  rintro ⟨_, after⟩
  have twice : ¬ ((((AttributeCall.setAttribute (ascii "p:x") (ascii "2")).operation 1).after
      (parseDocument prefixedAttribute {}).2).attributes 1 |>.map Attribute.qualifiedName).Nodup := by
    decide +kernel
  exact twice after.distinct

end Dom

end XmlParser
