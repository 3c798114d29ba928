import XmlParser.Conformance
import XmlParser.LooserLimits
import XmlParser.RespelledContent

/-! Serializing a parsed document and parsing the text again. -/

set_option autoImplicit false

namespace XmlParser

open XmlParser.Computation Comp Grammar Dom

/-! ## Misc items -/

/-- A misc item as it is written; white space is not. -/
def writtenMisc : Misc → Option Misc
  | .space _ => none
  | .comment body => some (.comment body)
  | .instruction target _ data => some (.instruction target (writtenGap data) data)

def writtenMiscs (miscs : List Misc) : List Misc := miscs.filterMap writtenMisc

section Miscs

variable {version : XmlVersion} {d : Dialect}

theorem readable_writtenMiscs (honest : LegalDialect version d) {miscs : List Misc}
    (readable : ∀ misc ∈ miscs, misc.Readable d) :
    ∀ misc ∈ writtenMiscs miscs, misc.Readable (looseDialect version) := by
  intro misc member
  obtain ⟨source, isSource, written⟩ := List.mem_filterMap.mp member
  have readableSource := readable source isSource
  cases source with
  | space c => cases written
  | comment body =>
      cases written
      exact ⟨fun c inside => honest.literal c (readableSource.literals c inside), readableSource.hyphens⟩
  | instruction target gap data =>
      cases written
      exact readable_writtenGap honest readableSource

theorem miscEvents_cons (misc : Misc) (rest : List Misc) :
    miscEvents (misc :: rest) = misc.events ++ miscEvents rest := rfl

theorem renderMiscs_cons (misc : Misc) (rest : List Misc) :
    renderMiscs (misc :: rest) = misc.render ++ renderMiscs rest := rfl

theorem writtenMiscs_space (c : Nat) (rest : List Misc) :
    writtenMiscs (.space c :: rest) = writtenMiscs rest := rfl

theorem writtenMiscs_comment (body : Text) (rest : List Misc) :
    writtenMiscs (.comment body :: rest) = .comment body :: writtenMiscs rest := rfl

theorem writtenMiscs_instruction (target gap data : Text) (rest : List Misc) :
    writtenMiscs (.instruction target gap data :: rest) =
      .instruction target (writtenGap data) data :: writtenMiscs rest := rfl

theorem miscEvents_written (miscs : List Misc) : miscEvents (writtenMiscs miscs) = miscEvents miscs := by
  induction miscs with
  | nil => rfl
  | cons misc rest ih =>
      cases misc with
      | space c => simp [writtenMiscs_space, miscEvents_cons, Misc.events, ih]
      | comment body => simp [writtenMiscs_comment, miscEvents_cons, Misc.events, ih]
      | instruction target gap data => simp [writtenMiscs_instruction, miscEvents_cons, Misc.events, ih]

theorem write_miscEvents (miscs : List Misc) (rest : List Event) :
    write false (miscEvents miscs ++ rest) = utf8 (renderMiscs (writtenMiscs miscs)) ++ write false rest := by
  induction miscs with
  | nil => rfl
  | cons misc others ih =>
      cases misc with
      | space c => simp [writtenMiscs_space, miscEvents_cons, Misc.events, ih]
      | comment body =>
          simp [writtenMiscs_comment, miscEvents_cons, renderMiscs_cons, Misc.events, Misc.render, write,
            leafText, utf8_append, utf8_renderComment, ih]
      | instruction target gap data =>
          simp [writtenMiscs_instruction, miscEvents_cons, renderMiscs_cons, Misc.events, Misc.render, write,
            leafText_instruction, utf8_append, ih]

theorem rebind_miscEvents (defaults : List Bytes) (miscs : List Misc) (rest : List Event) :
    rebind defaults (miscEvents miscs ++ rest) = miscEvents miscs ++ rebind defaults rest := by
  induction miscs with
  | nil => rfl
  | cons misc others ih =>
      cases misc with
      | space c => simp [miscEvents_cons, Misc.events, ih]
      | comment body => simp [miscEvents_cons, Misc.events, rebind, ih]
      | instruction target gap data => simp [miscEvents_cons, Misc.events, rebind, ih]

end Miscs

/-! ## Documents -/

/-- The events between the start and the end of a document. -/
def bodyEvents (mode : NamespaceMode) (prolog : List Misc) (element : Content) (epilog : List Misc) :
    List Event :=
  miscEvents prolog ++ (element.events mode [] [] ++ miscEvents epilog)

theorem inDocument_miscEvents (miscs : List Misc) : ∀ event ∈ miscEvents miscs, event.inDocument = true := by
  apply forall_miscEvents
  intro misc _
  cases misc with
  | space c => exact List.forall_mem_nil _
  | comment body => exact List.forall_mem_singleton.mpr rfl
  | instruction target gap data => exact List.forall_mem_singleton.mpr rfl

theorem inDocument_content (mode : NamespaceMode) (content : Content) (tags : List StartTag) (text : Bytes) :
    ∀ event ∈ content.events mode tags text, event.inDocument = true := by
  have head : ∀ tags (content : Content), True →
      content.HeadMeets mode (fun event => event.inDocument = true) (fun _ _ => True) tags := by
    intro tags content _
    cases content with
    | nil | piece => trivial
    | comment | cdata | instruction => exact ⟨rfl, trivial⟩
    | element => exact ⟨⟨rfl, rfl⟩, trivial, trivial⟩
    | emptyElement => exact ⟨⟨rfl, rfl⟩, trivial⟩
  exact Content.forall_events (fun _ => rfl) head trivial text

@[simp] theorem Event.inDocument_withoutLocations (event : Event) :
    event.withoutLocations.inDocument = event.inDocument := by
  cases event <;> rfl

theorem shownEvents_eq (events : List Event) :
    shownEvents events = (events.map Event.withoutLocations).filter Event.inDocument := by
  unfold shownEvents
  rw [List.filter_map]
  congr 1
  exact List.filter_congr fun event _ => (Event.inDocument_withoutLocations event).symm

theorem shownEvents_body {events : List Event} {mode : NamespaceMode} {prolog epilog : List Misc}
    {element : Content} (shape : events.map Event.withoutLocations =
      .startDocument :: (miscEvents prolog ++ (element.events mode [] [] ++ (miscEvents epilog ++ [.endDocument])))) :
    shownEvents events = bodyEvents mode prolog element epilog := by
  rw [shownEvents_eq, shape]
  have kept : ∀ {events : List Event}, (∀ event ∈ events, event.inDocument = true) →
      events.filter Event.inDocument = events := fun inside => List.filter_eq_self.mpr inside
  simp [bodyEvents, kept (inDocument_miscEvents _), kept (inDocument_content mode element [] []), Event.inDocument]

theorem exists_respelled_element {version : XmlVersion} {d : Dialect} (honest : LegalDialect version d)
    {mode : NamespaceMode} {tag : Tag} {body : Option (Content × Text)}
    (readable : (elementContent tag body .nil).Readable d) (named : (elementContent tag body .nil).Named mode []) :
    ∃ spelled respelledBody, Respells mode version [] ((elementContent tag body .nil).events mode [] [])
      (elementContent spelled respelledBody .nil) := by
  have encoded : EncodedTags version [] := List.forall_mem_nil _
  cases body with
  | none =>
      obtain ⟨readableTag, _⟩ := readable
      obtain ⟨namedTag, _⟩ := named
      obtain ⟨spelled, _, spells⟩ := exists_reissued honest readableTag encoded mode
      exact ⟨spelled, Respells.writtenBody .nil, Respells.element spells (reissues namedTag []) .nil .nil⟩
  | some parts =>
      obtain ⟨children, space⟩ := parts
      obtain ⟨readableTag, readableChildren, _, _⟩ := readable
      obtain ⟨namedTag, namedChildren, _⟩ := named
      obtain ⟨spelled, _, spells⟩ := exists_reissued honest readableTag encoded mode
      obtain ⟨inner, inside⟩ := exists_respells honest readableChildren namedChildren
        (encodedTags_cons honest readableTag encoded) (reissued _ _ :: []) (Legal.nil version)
      exact ⟨spelled, Respells.writtenBody inner, Respells.element spells (reissues namedTag []) inside .nil⟩

theorem defaultIn_nil (mode : NamespaceMode) : defaultIn mode [] = [] := by
  cases mode <;> rfl

/-- An accepted document has been read as a syntax tree of a legal dialect. -/
structure ReadAs (version : XmlVersion) (mode : NamespaceMode) (d : Dialect) (prolog : List Misc) (tag : Tag)
    (body : Option (Content × Text)) (epilog : List Misc) (events : List Event) : Prop where
  honest : LegalDialect version d
  readableProlog : ∀ misc ∈ prolog, misc.Readable d
  element : (elementContent tag body .nil).Readable d
  readableEpilog : ∀ misc ∈ epilog, misc.Readable d
  named : (elementContent tag body .nil).Named mode []
  shown : shownEvents events = bodyEvents mode prolog (elementContent tag body .nil) epilog

theorem exists_readAs {options : ParserOptions} {xml : Bytes}
    (accepted : (parseXmlDocument xml .recording options).1 = .ok ()) :
    ∃ d prolog tag body epilog, ReadAs options.version options.namespaces d prolog tag body epilog
      (parseXmlDocument xml .recording options).2.events := by
  unfold parseXmlDocument at accepted ⊢
  cases ran : decodeDocument xml options with
  | error error =>
      rw [ran] at accepted
      cases accepted
  | ok decoded =>
      rw [ran] at accepted
      let p : Parser := ⟨.recording, options, decoded.endLocation⟩
      obtain ⟨s, miscs, tag, body, epilog, _, readableMiscs, readable, readableEpilog, named, _, events⟩ :=
        p.parse_reads_element (decodeDocument_legal ran) (Prod.ext accepted rfl)
      have honest : LegalDialect options.version (p.dialect s.dtd.entities) :=
        ⟨fun _ valid => valid, fun _ _ denotes => denotes.1⟩
      have literal : ∀ c, (p.dialect []).literal c → (p.dialect s.dtd.entities).literal c := fun _ valid => valid
      exact ⟨p.dialect s.dtd.entities, miscs, tag, body, epilog, honest,
        fun misc member => (readableMiscs misc member).of_literal literal, readable, readableEpilog, named,
        shownEvents_body events⟩

/-- What is written for a parsed document is a document of the dialect again. -/
theorem ReadAs.exists_respelled {version : XmlVersion} {mode : NamespaceMode} {d : Dialect} {prolog : List Misc}
    {tag : Tag} {body : Option (Content × Text)} {epilog : List Misc} {events : List Event}
    (read : ReadAs version mode d prolog tag body epilog events) :
    ∃ document : Document, document.Readable (looseDialect version) ∧ document.Named mode ∧
      write false (shownEvents events) = utf8 document.render ∧
      ∀ again : List Event, again.map Event.withoutLocations = document.events mode →
        shownEvents again = rebind [[]] (shownEvents events) := by
  obtain ⟨spelled, respelledBody, respells⟩ := exists_respelled_element read.honest read.element read.named
  refine ⟨⟨writtenMiscs prolog, spelled, respelledBody, writtenMiscs epilog⟩, ?_, respells.named, ?_, ?_⟩
  · exact ⟨readable_writtenMiscs read.honest read.readableProlog, respells.readable,
      readable_writtenMiscs read.honest read.readableEpilog⟩
  · have behind := write_miscEvents epilog []
    rw [List.append_nil] at behind
    rw [read.shown, bodyEvents, write_miscEvents, respells.written_false, behind]
    simp [Document.render, utf8_append, write]
  · intro again shape
    have inside := respells.rebinds [] (miscEvents epilog)
    have behind := rebind_miscEvents [defaultIn mode []] epilog []
    rw [List.append_nil] at behind
    rw [behind, defaultIn_nil] at inside
    have same : shownEvents again = bodyEvents mode (writtenMiscs prolog)
        (elementContent spelled respelledBody .nil) (writtenMiscs epilog) := shownEvents_body shape
    rw [same, read.shown, bodyEvents, bodyEvents, rebind_miscEvents, inside]
    simp [miscEvents_written, rebind]

/-! ## Names that fall into a default -/

theorem isNode_rebind (defaults : List Bytes) (events : List Event) :
    (rebind defaults events).countP Event.isNode = events.countP Event.isNode := by
  induction events generalizing defaults with
  | nil => rfl
  | cons event rest ih =>
      cases event with
      | startElement name views => simp [rebind, List.countP_cons, Event.isNode, ih]
      | endElement name => simp [rebind, Event.isNode, ih]
      | _ => simp [rebind, List.countP_cons, ih]

theorem isNode_shownEvents (events : List Event) :
    (shownEvents events).countP Event.isNode = events.countP Event.isNode := by
  unfold shownEvents
  rw [List.countP_map, List.countP_filter]
  apply List.countP_congr
  intro event _
  cases event <;> simp [Event.inDocument, Event.isNode, Event.withoutLocations]

namespace Dom

/-- An element without prefix that has a namespace. -/
def Payload.hasDefault : Payload → Bool
  | .element qualifiedName namespaceUri _ _ => (prefixOf qualifiedName).isEmpty && !namespaceUri.isEmpty
  | _ => false

/-- An element with neither prefix nor namespace. -/
def Payload.isUnbound : Payload → Bool
  | .element qualifiedName namespaceUri _ _ => (prefixOf qualifiedName).isEmpty && namespaceUri.isEmpty
  | _ => false

@[simp] theorem Payload.hasDefault_visible (payload : Payload) : payload.visible.hasDefault = payload.hasDefault := by
  cases payload <;> rfl

@[simp] theorem Payload.isUnbound_visible (payload : Payload) : payload.visible.isUnbound = payload.isUnbound := by
  cases payload <;> rfl

/-- A payload inside a written default, and the default written inside of it. -/
def Payload.rebound (default : Bytes) : Payload → Payload
  | .element qualifiedName namespaceUri localName attributes =>
      .element qualifiedName (XmlParser.rebound default ⟨namespaceUri, localName, qualifiedName⟩).uri localName
        attributes
  | payload => payload

def Payload.innerDefault (default : Bytes) : Payload → Bytes
  | .element qualifiedName namespaceUri localName _ =>
      XmlParser.innerDefault default ⟨namespaceUri, localName, qualifiedName⟩
  | _ => default

/-- The nodes as they are read inside a written default. -/
def Nodes.rebound : Bytes → Nodes → Nodes
  | _, .nil => .nil
  | default, .cons reference payload below rest =>
      .cons reference (payload.rebound default) (below.rebound (payload.innerDefault default))
        (rest.rebound default)

theorem rebound_eta (default : Bytes) (name : QualifiedName) :
    XmlParser.rebound default name =
      ⟨(XmlParser.rebound default name).uri, name.localName, name.qualifiedName⟩ := by
  unfold XmlParser.rebound
  split <;> rfl

theorem Nodes.rebind_events (nodes : Nodes) (default : Bytes) (defaults : List Bytes) (rest : List Event) :
    rebind (default :: defaults) (nodes.events ++ rest) =
      (nodes.rebound default).events ++ rebind (default :: defaults) rest := by
  induction nodes generalizing default defaults rest with
  | nil => rfl
  | cons reference payload below others ihBelow ihOthers =>
      cases payload with
      | element qualifiedName namespaceUri localName attributes =>
          have name := rebound_eta default ⟨namespaceUri, localName, qualifiedName⟩
          simp [Nodes.events, Nodes.rebound, Payload.opening, Payload.closing, Payload.rebound, Payload.innerDefault,
            rebind, ihBelow, ihOthers, rebound_innerDefault, ← name]
      | _ =>
          simp [Nodes.events, Nodes.rebound, Payload.opening, Payload.closing, Payload.rebound, Payload.innerDefault,
            rebind, ihBelow, ihOthers]

theorem Payload.rebound_eq_iff (default : Bytes) (payload : Payload) :
    payload.rebound default = payload ↔ (payload.isUnbound = true → default = []) := by
  cases payload with
  | element qualifiedName namespaceUri localName attributes =>
      cases plain : (prefixOf qualifiedName).isEmpty with
      | false => simp [Payload.rebound, XmlParser.rebound, Payload.isUnbound, plain]
      | true =>
          cases unbound : namespaceUri.isEmpty with
          | false => simp [Payload.rebound, XmlParser.rebound, Payload.isUnbound, plain, unbound]
          | true =>
              rw [List.isEmpty_iff] at unbound
              simp [Payload.rebound, XmlParser.rebound, Payload.isUnbound, plain, unbound]
  | _ => simp [Payload.rebound, Payload.isUnbound]

theorem Payload.innerDefault_ne_nil (default : Bytes) (payload : Payload) :
    payload.innerDefault default ≠ [] ↔ payload.hasDefault = true ∨ default ≠ [] := by
  cases payload with
  | element qualifiedName namespaceUri localName attributes =>
      simp only [Payload.innerDefault, XmlParser.innerDefault, Payload.hasDefault]
      split
      · rename_i declares
        have bound : namespaceUri ≠ [] := by
          simpa using (Bool.and_eq_true_iff.mp declares).2
        simp [declares, bound]
      · rename_i silent
        simp [silent]
  | _ => simp [Payload.innerDefault, Payload.hasDefault]

theorem Nodes.length_rebound (nodes : Nodes) (default : Bytes) :
    (nodes.rebound default).events.length = nodes.events.length := by
  induction nodes generalizing default with
  | nil => rfl
  | cons reference payload below others ihBelow ihOthers =>
      have parts : (payload.rebound default).opening.length = payload.opening.length ∧
          (payload.rebound default).closing.length = payload.closing.length := by
        cases payload <;> exact ⟨rfl, rfl⟩
      simp [Nodes.rebound, Nodes.events, ihBelow, ihOthers, parts.1, parts.2]

/-- Different nodes are read if the events differ. -/
theorem Nodes.rebound_events_iff (nodes : Nodes) (default : Bytes) :
    (nodes.rebound default).events = nodes.events ↔ nodes.rebound default = nodes := by
  refine ⟨fun same => ?_, congrArg Nodes.events⟩
  induction nodes generalizing default with
  | nil => rfl
  | cons reference payload below others ihBelow ihOthers =>
      have inner := below.length_rebound (payload.innerDefault default)
      cases payload with
      | element qualifiedName namespaceUri localName attributes =>
          simp only [Nodes.rebound, Nodes.events, Payload.rebound, Payload.opening, Payload.closing,
            List.cons_append, List.nil_append, List.append_assoc, List.cons.injEq, Event.startElement.injEq,
            QualifiedName.mk.injEq, and_true] at same
          obtain ⟨uri, within⟩ := same
          obtain ⟨sameBelow, behind⟩ := List.append_inj within inner
          have sameOthers := (List.cons.inj behind).2
          simp only [Nodes.rebound, Payload.rebound, uri, ihBelow _ sameBelow, ihOthers _ sameOthers]
      | _ =>
          simp only [Nodes.rebound, Nodes.events, Payload.rebound, Payload.opening, Payload.closing,
            List.cons_append, List.nil_append, List.append_nil, List.cons.injEq, true_and] at same
          obtain ⟨sameBelow, sameOthers⟩ := List.append_inj same inner
          simp only [Nodes.rebound, Payload.rebound, ihBelow _ sameBelow, ihOthers _ sameOthers]

/-- Below an element that has a namespace and no prefix, no element has neither. -/
def DefaultsReach (heap : Heap) (document : NodeRef) : Prop :=
  ∀ outer, Relation.TransGen heap.links.Child outer document →
    heap.payloadIs Payload.hasDefault outer = true →
    ∀ inner, Relation.TransGen heap.links.Child inner outer → heap.payloadIs Payload.isUnbound inner = false

theorem Shows.rebound_iff {heap : Heap} (forest : heap.links.IsForest) {refs : List NodeRef} {nodes : Nodes}
    (shows : Shows heap refs nodes) (default : Bytes) :
    nodes.rebound default = nodes ↔
      (default ≠ [] → ∀ reference ∈ nodes.references, heap.payloadIs Payload.isUnbound reference = false) ∧
        ∀ outer ∈ nodes.references, heap.payloadIs Payload.hasDefault outer = true →
          ∀ inner, Relation.TransGen heap.links.Child inner outer →
            heap.payloadIs Payload.isUnbound inner = false := by
  induction shows generalizing default with
  | nil => simp [Nodes.rebound, Nodes.references]
  | @cons reference children refs payload below rest found inside after ihInside ihAfter =>
      have listed := Heap.children_of_content found
      obtain ⟨node, isNode, same⟩ := Option.map_eq_some_iff.mp found
      obtain ⟨_, rfl⟩ := Prod.mk.inj same
      have unbound : heap.payloadIs Payload.isUnbound reference = node.payload.visible.isUnbound := by
        rw [Heap.payloadIs_of_nodes isNode, Payload.isUnbound_visible]
      have declares : heap.payloadIs Payload.hasDefault reference = node.payload.visible.hasDefault := by
        rw [Heap.payloadIs_of_nodes isNode, Payload.hasDefault_visible]
      -- What is below the first node are its descendants.
      have descends : ∀ inner, inner ∈ below.references ↔ Relation.TransGen heap.links.Child inner reference := by
        intro inner
        rw [inside.mem_references_iff forest, Relation.TransGen.tail'_iff]
        constructor
        · intro path
          obtain ⟨child, member, before⟩ := path
          rw [← listed] at member
          exact ⟨child, before, (forest.mem_children_iff child reference).mp member⟩
        · intro path
          obtain ⟨child, before, isChild⟩ := path
          rw [← listed]
          exact ⟨child, (forest.mem_children_iff child reference).mpr isChild, before⟩
      simp only [Nodes.rebound, Nodes.cons.injEq, true_and, Payload.rebound_eq_iff, ihInside, ihAfter,
        Payload.innerDefault_ne_nil, Nodes.references_cons, List.forall_mem_cons, List.forall_mem_append, unbound,
        declares, ← descends]
      cases node.payload.visible.isUnbound with
      | true =>
          by_cases default = [] <;> simp_all
          tauto
      | false =>
          by_cases default = [] <;> simp_all
          all_goals tauto

end Dom

/-! ## The round trip -/

/-- The limits leave room for a text with that tree. -/
structure HasRoom (options : ParserOptions) (text : Bytes) (tree : List Event) : Prop where
  generous : Generous options text.length
  bytes : text.length ≤ options.maxDocumentBytes
  nodes : tree.countP Event.isNode ≤ options.maxDomNodes

/-- The text written for the document is parsed, with the same version and mode
and enough room, to a document with the same tree. -/
def RoundTrips (options : ParserOptions) (heap : Heap) (document : NodeRef) : Prop :=
  ∃ written tree, (serialize document).run heap = (.ok written, heap) ∧
    (flatten document).run heap = (.ok tree, heap) ∧
    ∀ again : ParserOptions, again.version = options.version → again.namespaces = options.namespaces →
      HasRoom again (writtenText written) tree →
      ∃ copy, (parseDocument (writtenText written) again).1 = .ok copy ∧
        (flatten copy).run (parseDocument (writtenText written) again).2 =
          (.ok tree, (parseDocument (writtenText written) again).2)

/-- Options with these limits. -/
def ParserOptions.roomy (version : XmlVersion) (namespaces : NamespaceMode) (limit : Nat) : ParserOptions :=
  { version, namespaces, maxDocumentBytes := limit, maxTokenBytes := limit, maxDepth := limit,
    maxAttributesPerElement := limit, maxEntityExpansions := limit, maxDomNodes := limit }

theorem hasRoom_roomy (version : XmlVersion) (namespaces : NamespaceMode) (text : Bytes) (tree : List Event) :
    HasRoom (.roomy version namespaces (text.length + tree.countP Event.isNode)) text tree where
  generous := ⟨Nat.le_add_right _ _, Nat.le_add_right _ _, Nat.le_add_right _ _, Nat.le_add_right _ _⟩
  bytes := Nat.le_add_right _ _
  nodes := Nat.le_add_left _ _

/-- With room, a document is made of a text of the loose dialect. -/
theorem parseDocument_loose {document : Document} {options : ParserOptions}
    (readable : document.Readable (looseDialect options.version)) (named : document.Named options.namespaces)
    {tree : List Event} (shows : ∀ events : List Event,
      events.map Event.withoutLocations = document.events options.namespaces → shownEvents events = tree)
    (room : HasRoom options (utf8 document.render) tree) :
    ∃ copy, (parseDocument (utf8 document.render) options).1 = .ok copy ∧
      (flatten copy).run (parseDocument (utf8 document.render) options).2 =
        (.ok tree, (parseDocument (utf8 document.render) options).2) := by
  obtain ⟨s, accepts, events⟩ := parseXmlDocument_loose readable named SaxHandler.recording_nonThrowing
    (.inl rfl) room.bytes room.generous
  rw [List.nil_append] at accepts
  have parses := @parseDocument_of_ok (utf8 document.render) options
  have few : s.events.countP Event.isNode ≤ options.maxDomNodes := by
    rw [← isNode_shownEvents, shows s.events events]
    exact room.nodes
  rw [accepts] at parses
  obtain ⟨copy, isCopy, flat⟩ := parses few rfl
  rw [shows s.events events] at flat
  exact ⟨copy, isCopy, flat⟩

/-- The text written for a parsed document is parsed to the tree that its events
make inside the defaults that are written. -/
theorem parseDocument_written {xml : Bytes} {options : ParserOptions} {document : NodeRef}
    (returned : (parseDocument xml options).1 = .ok document) :
    ∃ nodes written, ShowsDocument (parseDocument xml options).2 document nodes ∧
      Coherent (parseDocument xml options).2 ∧
      nodes.events = shownEvents (parseXmlDocument xml .recording options).2.events ∧
      (serialize document).run (parseDocument xml options).2 = (.ok written, (parseDocument xml options).2) ∧
      (flatten document).run (parseDocument xml options).2 =
        (.ok nodes.events, (parseDocument xml options).2) ∧
      ∀ again : ParserOptions, again.version = options.version → again.namespaces = options.namespaces →
        HasRoom again (writtenText written) nodes.events →
        ∃ copy, (parseDocument (writtenText written) again).1 = .ok copy ∧
          (flatten copy).run (parseDocument (writtenText written) again).2 =
            (.ok (nodes.rebound []).events, (parseDocument (writtenText written) again).2) := by
  obtain ⟨fits, accepted⟩ := accepted_of_parseDocument returned
  obtain ⟨found, heap, refs, nodes, parsed, holds⟩ := parseDocument_holds fits accepted
  rw [parsed] at returned ⊢
  cases returned
  obtain ⟨shown, written, ran, text⟩ := holds.run_serialize
  have flat := holds.run_flatten
  rw [← holds.events] at flat text
  refine ⟨nodes, written, shown, holds.coherent, holds.events, ran, flat, ?_⟩
  intro again version namespaces room
  obtain ⟨d, prolog, tag, body, epilog, read⟩ := exists_readAs accepted
  obtain ⟨respelled, readable, named, spelled, events⟩ := read.exists_respelled
  rw [← holds.events] at spelled events
  rw [text, spelled] at room ⊢
  rw [← version] at readable
  rw [← namespaces] at named events
  have rebinds := Nodes.rebind_events nodes [] [] []
  simp only [List.append_nil, rebind] at rebinds
  rw [rebinds] at events
  have nodes : (nodes.rebound []).events.countP Event.isNode ≤ again.maxDomNodes := by
    rw [← rebinds, isNode_rebind]
    exact room.nodes
  exact parseDocument_loose readable named events ⟨room.generous, room.bytes, nodes⟩

/-- The round trip keeps the tree exactly if no element with neither prefix nor
namespace is below an element without prefix that has one. -/
theorem roundTrips_iff {xml : Bytes} {options : ParserOptions} {document : NodeRef}
    (returned : (parseDocument xml options).1 = .ok document) :
    RoundTrips options (parseDocument xml options).2 document ↔
      DefaultsReach (parseDocument xml options).2 document := by
  obtain ⟨nodes, written, shown, coherent, _, ran, flat, parses⟩ := parseDocument_written returned
  have reach : DefaultsReach (parseDocument xml options).2 document ↔ (nodes.rebound []).events = nodes.events := by
    rw [nodes.rebound_events_iff, shown.shows.rebound_iff coherent.forest]
    simp only [ne_eq, not_true_eq_false, false_implies, true_and, shown.mem_iff]
    rfl
  rw [reach]
  constructor
  · intro trips
    obtain ⟨otherWritten, tree, sameRun, sameFlat, again⟩ := trips
    cases ran.symm.trans sameRun
    cases flat.symm.trans sameFlat
    let roomy := ParserOptions.roomy options.version options.namespaces
      ((writtenText written).length + nodes.events.countP Event.isNode)
    have room := hasRoom_roomy options.version options.namespaces (writtenText written) nodes.events
    obtain ⟨copy, isCopy, copyFlat⟩ := parses roomy rfl rfl room
    obtain ⟨other, isOther, otherFlat⟩ := again roomy rfl rfl room
    cases isCopy.symm.trans isOther
    have outcomes := congrArg Prod.fst (copyFlat.symm.trans otherFlat)
    exact Except.ok.inj outcomes
  · intro same
    rw [same] at parses
    exact ⟨written, nodes.events, ran, flat, parses⟩

/-- An element without namespace in one with a default namespace. -/
def undeclaredDefault : Bytes := ascii "<a xmlns='u'><b xmlns=''/></a>"

theorem roundTrips_iff_sample :
    RoundTrips {} (parseDocument undeclaredDefault {}).2 3 ↔
      DefaultsReach (parseDocument undeclaredDefault {}).2 3 :=
  roundTrips_iff (by decide +kernel)

theorem not_roundTrips :
    (parseDocument undeclaredDefault {}).1 = .ok 3 ∧
      ¬ RoundTrips {} (parseDocument undeclaredDefault {}).2 3 := by
  refine ⟨by decide +kernel, ?_⟩
  intro trips
  obtain ⟨written, tree, ran, flat, again⟩ := trips
  have text : writtenText written = ascii "<a xmlns=\"u\"><b/></a>" := by
    have known : ((serialize 3).run (parseDocument undeclaredDefault {}).2).1.map writtenText =
        .ok (ascii "<a xmlns=\"u\"><b/></a>") := by decide +kernel
    rw [ran] at known
    exact Except.ok.inj known
  have isTree : tree = [.startElement ⟨ascii "u", ascii "a", ascii "a"⟩ [],
      .startElement ⟨[], ascii "b", ascii "b"⟩ [], .endElement ⟨[], ascii "b", ascii "b"⟩,
      .endElement ⟨ascii "u", ascii "a", ascii "a"⟩] := by
    have known : ((flatten 3).run (parseDocument undeclaredDefault {}).2).1 =
        .ok [.startElement ⟨ascii "u", ascii "a", ascii "a"⟩ [],
          .startElement ⟨[], ascii "b", ascii "b"⟩ [], .endElement ⟨[], ascii "b", ascii "b"⟩,
          .endElement ⟨ascii "u", ascii "a", ascii "a"⟩] := by decide +kernel
    rw [flat] at known
    exact Except.ok.inj known
  rw [text, isTree] at again
  have room : HasRoom {} (ascii "<a xmlns=\"u\"><b/></a>")
      [.startElement ⟨ascii "u", ascii "a", ascii "a"⟩ [],
        .startElement ⟨[], ascii "b", ascii "b"⟩ [], .endElement ⟨[], ascii "b", ascii "b"⟩,
        .endElement ⟨ascii "u", ascii "a", ascii "a"⟩] :=
    ⟨⟨by decide, by decide, by decide, by decide⟩, by decide, by decide⟩
  obtain ⟨copy, isCopy, copyFlat⟩ := again {} rfl rfl room
  have known : (parseDocument (ascii "<a xmlns=\"u\"><b/></a>") {}).1 = .ok 3 := by decide +kernel
  cases known.symm.trans isCopy
  have bound : ((flatten 3).run (parseDocument (ascii "<a xmlns=\"u\"><b/></a>") {}).2).1 =
      .ok [.startElement ⟨ascii "u", ascii "a", ascii "a"⟩ [],
        .startElement ⟨ascii "u", ascii "b", ascii "b"⟩ [], .endElement ⟨ascii "u", ascii "b", ascii "b"⟩,
        .endElement ⟨ascii "u", ascii "a", ascii "a"⟩] := by decide +kernel
  rw [copyFlat] at bound
  exact absurd bound (by decide)

/-! ## Without namespace processing -/

/-- The names of the event have no namespace. -/
def Event.Unbound : Event → Prop
  | .startElement name _ => name.uri = []
  | .endElement name => name.uri = []
  | _ => True

theorem unbound_content (content : Content) (tags : List StartTag) (text : Bytes) :
    ∀ event ∈ content.events .disabled tags text, event.Unbound := by
  have head : ∀ tags (content : Content), True → content.HeadMeets .disabled Event.Unbound (fun _ _ => True) tags := by
    intro tags content _
    cases content with
    | nil | piece => trivial
    | comment | cdata | instruction => exact ⟨trivial, trivial⟩
    | element => exact ⟨⟨rfl, rfl⟩, trivial, trivial⟩
    | emptyElement => exact ⟨⟨rfl, rfl⟩, trivial⟩
  exact Content.forall_events (fun _ => trivial) head trivial text

theorem unbound_miscEvents (miscs : List Misc) : ∀ event ∈ miscEvents miscs, event.Unbound := by
  apply forall_miscEvents
  intro misc _
  cases misc with
  | space c => exact List.forall_mem_nil _
  | comment body => exact List.forall_mem_singleton.mpr trivial
  | instruction target gap data => exact List.forall_mem_singleton.mpr trivial

theorem innerDefault_nil {name : QualifiedName} (unbound : name.uri = []) : innerDefault [] name = [] := by
  simp [innerDefault, unbound]

/-- Where no name has a namespace no default is written. -/
theorem rebind_unbound {events : List Event} (unbound : ∀ event ∈ events, event.Unbound)
    {defaults : List Bytes} (none : ∀ default ∈ defaults, default = []) : rebind defaults events = events := by
  induction events generalizing defaults with
  | nil => rfl
  | cons event rest ih =>
      obtain ⟨first, others⟩ := List.forall_mem_cons.mp unbound
      have front : defaults.headD [] = [] := by
        cases defaults with
        | nil => rfl
        | cons default outer => exact none default List.mem_cons_self
      cases event with
      | startElement name views =>
          have inner : ∀ default ∈ innerDefault [] name :: defaults, default = [] :=
            List.forall_mem_cons.mpr ⟨innerDefault_nil first, none⟩
          simp only [rebind, front, ih others inner, rebound_nil]
      | endElement name =>
          have outer : ∀ default ∈ defaults.tail, default = [] :=
            fun default member => none default (List.mem_of_mem_tail member)
          simp only [rebind, ih others outer, front, rebound_nil]
      | _ => simp only [rebind, ih others none]

/-- Without namespace processing every accepted document survives the round trip. -/
theorem roundTrips_disabled {xml : Bytes} {options : ParserOptions} {document : NodeRef}
    (disabled : options.namespaces = .disabled) (returned : (parseDocument xml options).1 = .ok document) :
    RoundTrips options (parseDocument xml options).2 document := by
  obtain ⟨nodes, written, _, _, events, ran, flat, parses⟩ := parseDocument_written returned
  obtain ⟨_, accepted⟩ := accepted_of_parseDocument returned
  obtain ⟨d, prolog, tag, body, epilog, read⟩ := exists_readAs accepted
  have unbound : ∀ event ∈ nodes.events, event.Unbound := by
    rw [events, read.shown, disabled]
    exact List.forall_mem_append.mpr ⟨unbound_miscEvents _,
      List.forall_mem_append.mpr ⟨unbound_content _ _ _, unbound_miscEvents _⟩⟩
  have rebinds := Nodes.rebind_events nodes [] [] []
  simp only [List.append_nil, rebind] at rebinds
  rw [rebind_unbound unbound (List.forall_mem_singleton.mpr rfl)] at rebinds
  rw [← rebinds] at parses
  exact ⟨written, nodes.events, ran, flat, parses⟩

theorem roundTrips_disabled_sample :
    RoundTrips { namespaces := .disabled } (parseDocument (ascii "<a xmlns='u'>&lt;<!--c--></a>")
      { namespaces := .disabled }).2 4 := by
  exact roundTrips_disabled rfl (by decide +kernel)

end XmlParser
