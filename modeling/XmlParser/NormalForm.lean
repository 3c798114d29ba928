import XmlParser.DocumentIsolation
import XmlParser.WritableTags

/-! What parsing makes of the text that serializing writes for any document of a
client: the tree with joined text and without the nodes that are not written. -/

set_option autoImplicit false

namespace XmlParser

open XmlParser.Computation Comp Grammar Dom

/-! ## Joined text -/

/-- The events with adjacent text joined and without empty text, behind the text
read so far. -/
def joined : Bytes → List Event → List Event
  | text, [] => flushText text
  | text, event :: rest =>
      match event with
      | .characters more => joined (text ++ more) rest
      | other => flushText text ++ other :: joined [] rest

def Event.isCharacters : Event → Bool
  | .characters _ => true
  | _ => false

theorem joined_cons {event : Event} (markup : event.isCharacters = false) (text : Bytes) (rest : List Event) :
    joined text (event :: rest) = flushText text ++ event :: joined [] rest := by
  cases event with
  | characters more => cases markup
  | _ => rfl

/-- Markup parts the text in front of it from the text behind it. -/
theorem joined_append {event : Event} (markup : event.isCharacters = false) (text : Bytes)
    (before rest : List Event) :
    joined text (before ++ event :: rest) = joined text before ++ event :: joined [] rest := by
  induction before generalizing text with
  | nil => exact joined_cons markup text rest
  | cons first before ih =>
      cases first with
      | characters more => exact ih (text ++ more)
      | _ => simp [joined, ih]

theorem rebind_flushText (defaults : List Bytes) (text : Bytes) (rest : List Event) :
    rebind defaults (flushText text ++ rest) = flushText text ++ rebind defaults rest := by
  unfold flushText
  split
  · rfl
  · rfl

/-! ## What can be written -/

/-- The leaf has a spelling for these contents. -/
def Leaf.Writable (version : XmlVersion) (leaf : Leaf) (contents : Bytes) : Prop :=
  leaf.Proper ∧ ∃ text, contents = utf8 text ∧ Legal version text ∧ leaf.Represents text

/-- The node of the event can be written so that it is read as a node of its kind. -/
def Event.Writable (version : XmlVersion) (mode : NamespaceMode) : Event → Prop
  | .startElement name views => WritableTag version mode name views
  | .characters contents => Encoded version contents
  | .comment contents => Leaf.comment.Writable version contents
  | .cdata contents => Leaf.cdataSection.Writable version contents
  | .processingInstruction target contents =>
      ∃ name, target = utf8 name ∧ (Leaf.processingInstruction name).Writable version contents
  | _ => True

theorem Leaf.Writable.comment {version : XmlVersion} {contents : Bytes}
    (writable : Leaf.comment.Writable version contents) :
    ∃ body, contents = utf8 body ∧ CommentReadable (looseDialect version) body := by
  obtain ⟨_, body, same, legal, represents⟩ := writable
  exact ⟨body, same, legal, represents⟩

theorem Leaf.Writable.cdata {version : XmlVersion} {contents : Bytes}
    (writable : Leaf.cdataSection.Writable version contents) :
    ∃ body, contents = utf8 body ∧ CdataReadable (looseDialect version) body := by
  obtain ⟨_, body, same, legal, represents⟩ := writable
  exact ⟨body, same, legal, represents⟩

theorem Leaf.Writable.instruction {version : XmlVersion} {target : Text} {contents : Bytes}
    (writable : (Leaf.processingInstruction target).Writable version contents) :
    ∃ data, contents = utf8 data ∧ InstructionReadable (looseDialect version) target (writtenGap data) data := by
  obtain ⟨proper, data, same, legal, represents⟩ := writable
  refine ⟨data, same, proper.1, proper.2, ?_, legal, represents.1, represents.2, ?_⟩
  · unfold writtenGap
    split
    · exact List.forall_mem_nil _
    · exact List.forall_mem_singleton.mpr (.inl rfl)
  · cases data with
    | nil => exact fun _ => nofun
    | cons c rest => exact nofun

namespace Dom

/-- The nodes that serializing gets to: nothing below a leaf. -/
def Nodes.trimmed : Nodes → Nodes
  | .nil => .nil
  | .cons reference payload below rest =>
      .cons reference payload (if payload.isLeaf then .nil else below.trimmed) rest.trimmed

/-- The payloads of the outermost nodes. -/
def Nodes.outermost : Nodes → List Payload
  | .nil => []
  | .cons _ payload _ rest => payload :: rest.outermost

def Payload.isMisc : Payload → Bool
  | .comment _ | .processingInstruction _ _ => true
  | _ => false

/-- One element, and beside it nothing but comments and processing instructions. -/
structure Nodes.IsBody (nodes : Nodes) : Prop where
  element : nodes.outermost.countP Payload.isElement = 1
  others : ∀ payload ∈ nodes.outermost, payload.isElement = true ∨ payload.isMisc = true

/-- The nodes below a document are no documents. -/
def Nodes.Inner : Nodes → Prop
  | .nil => True
  | .cons _ payload below rest => payload.isDocument = false ∧ below.Inner ∧ rest.Inner

section Trimmed

theorem Nodes.isEmpty_trimmed (nodes : Nodes) : nodes.trimmed.references.isEmpty = nodes.references.isEmpty := by
  cases nodes with
  | nil => rfl
  | cons reference payload below rest => rfl

theorem Payload.written_of_isLeaf {payload : Payload} (leaf : payload.isLeaf = true) (childless other : Bool)
    (inside outside : List Written) : payload.written childless inside = payload.written other outside := by
  cases payload with
  | document storage => cases leaf
  | element qualifiedName namespaceUri localName attributes => cases leaf
  | _ => rfl

theorem Nodes.writtenText_trimmed (nodes : Nodes) : writtenText nodes.trimmed.written = writtenText nodes.written := by
  induction nodes with
  | nil => rfl
  | cons reference payload below rest ihBelow ihRest =>
      cases leaf : payload.isLeaf with
      | true =>
          have same := Payload.written_of_isLeaf leaf true below.references.isEmpty [] below.written
          simp [Nodes.trimmed, Nodes.written, leaf, ihRest, Nodes.references, same]
      | false =>
          have inside : writtenText (payload.written below.references.isEmpty below.trimmed.written) =
              writtenText (payload.written below.references.isEmpty below.written) := by
            cases payload with
            | document storage => exact ihBelow
            | element qualifiedName namespaceUri localName attributes =>
                simp only [Payload.written]
                split
                · rfl
                · simp [ihBelow]
            | _ => cases leaf
          simp [Nodes.trimmed, Nodes.written, leaf, ihRest, Nodes.isEmpty_trimmed, inside]

theorem Nodes.Inner.built_trimmed {nodes : Nodes} (inner : nodes.Inner) : nodes.trimmed.Built := by
  induction nodes with
  | nil => trivial
  | cons reference payload below rest ihBelow ihRest =>
      obtain ⟨isInner, innerBelow, innerRest⟩ := inner
      refine ⟨isInner, ?_, ?_, ihRest innerRest⟩
      · intro other
        have leaf : payload.isLeaf = true := by
          cases payload with
          | document storage => cases isInner
          | element qualifiedName namespaceUri localName attributes => cases other
          | _ => rfl
        simp [leaf]
      · cases payload.isLeaf with
        | true => trivial
        | false => exact ihBelow innerBelow

theorem Nodes.outermost_trimmed (nodes : Nodes) : nodes.trimmed.outermost = nodes.outermost := by
  induction nodes with
  | nil => rfl
  | cons reference payload below rest _ ihRest => simp [Nodes.trimmed, Nodes.outermost, ihRest]

theorem Shows.inner {heap : Heap} {refs : List NodeRef} {nodes : Nodes} (shows : Shows heap refs nodes)
    (inside : ∀ reference ∈ nodes.references, ¬ heap.isDocument reference) : nodes.Inner := by
  induction shows with
  | nil => trivial
  | @cons reference children refs payload below rest found within after ihWithin ihAfter =>
      rw [Nodes.references_cons, List.forall_mem_cons, List.forall_mem_append] at inside
      refine ⟨?_, ihWithin inside.2.1, ihAfter inside.2.2⟩
      obtain ⟨node, isNode, same⟩ := Option.map_eq_some_iff.mp found
      obtain ⟨_, rfl⟩ := Prod.mk.inj same
      have outside := inside.1
      rw [Heap.isDocument_of_nodes isNode, Bool.not_eq_true] at outside
      cases isPayload : node.payload with
      | document storage =>
          rw [isPayload] at outside
          cases outside
      | _ => rfl

/-- What is below a document has a parent, so it is no document. -/
theorem ShowsDocument.inner {heap : Heap} {document : NodeRef} {nodes : Nodes}
    (shown : ShowsDocument heap document nodes) (coherent : Coherent heap) : nodes.Inner := by
  apply shown.shows.inner
  intro reference member isDocument
  have none := (coherent.document reference isDocument).2
  cases (shown.mem_iff reference).mp member with
  | single isChild => exact absurd (none.symm.trans isChild) nofun
  | tail path isChild =>
      obtain ⟨parent, isParent, _⟩ := Relation.TransGen.head'_iff.mp (.tail path isChild)
      exact absurd (none.symm.trans isParent) nofun

end Trimmed

end Dom

/-- The tags of an element part the text around and inside of it. -/
theorem joined_element (name : QualifiedName) (attributes : List Dom.Attribute) (text : Bytes)
    (reference : NodeRef) (below rest : Nodes) :
    joined text (Nodes.cons reference (.element name.qualifiedName name.uri name.localName attributes) below
      rest).events =
      flushText text ++ .startElement name (attributes.map Attribute.view) ::
        (joined [] below.events ++ .endElement name :: joined [] rest.events) := by
  have inner := @joined_append (.endElement name) rfl [] below.events rest.events
  simp [Nodes.events, Payload.opening, Payload.closing, joined, inner]

/-! ## Spelling a tree -/

/-- The content is written for the nodes inside the tags `outer`, and read as their
joined events inside the defaults that are written around them. -/
structure SpellsNodes (mode : NamespaceMode) (version : XmlVersion) (outer : List StartTag) (nodes : Nodes)
    (content : Content) : Prop where
  readable : content.Readable (looseDialect version)
  named : content.Named mode outer
  written : utf8 content.render = writtenText nodes.written
  rebinds : ∀ text defaults rest, rebind (defaultIn mode outer :: defaults) (joined text nodes.events ++ rest) =
    content.events mode outer text ++ rebind (defaultIn mode outer :: defaults) rest

namespace SpellsNodes

variable {mode : NamespaceMode} {version : XmlVersion} {outer : List StartTag} {rest below : Nodes}
  {content : Content}

theorem nil : SpellsNodes mode version outer .nil .nil where
  readable := trivial
  named := trivial
  written := rfl
  rebinds text _ rest := rebind_flushText _ text rest

theorem text (spells : SpellsNodes mode version outer rest content) (reference : NodeRef) {text : Text}
    (legal : Legal version text) :
    SpellsNodes mode version outer (.cons reference (.text (utf8 text)) .nil rest)
      (prependPieces (text.map (escapedPiece textEscape)) content) where
  readable := readable_prependPieces.mpr ⟨readable_escaped escapes_text legal, spells.readable⟩
  named := named_prependPieces.mpr spells.named
  written := by
    have escaped := escapeBytes_utf8 escapes_text legal
    simp [render_prependPieces, utf8_append, Nodes.written, Payload.written, spells.written, escapeText_eq, escaped]
  rebinds before defaults rest := by
    rw [events_prependPieces, pieceValues_escaped, ← spells.rebinds]
    rfl

theorem comment (spells : SpellsNodes mode version outer rest content) (reference : NodeRef) {body : Text}
    (readable : CommentReadable (looseDialect version) body) :
    SpellsNodes mode version outer (.cons reference (.comment (utf8 body)) .nil rest) (.comment body content) where
  readable := ⟨readable, spells.readable⟩
  named := spells.named
  written := by
    simp [Content.render, utf8_append, utf8_renderComment, Nodes.written, Payload.written, spells.written]
  rebinds before defaults rest := by
    simp [Nodes.events, Payload.opening, Payload.closing, joined, rebind_flushText, rebind, spells.rebinds,
      Content.events]

theorem cdata (spells : SpellsNodes mode version outer rest content) (reference : NodeRef) {body : Text}
    (readable : CdataReadable (looseDialect version) body) :
    SpellsNodes mode version outer (.cons reference (.cdataSection (utf8 body)) .nil rest) (.cdata body content) where
  readable := ⟨readable, spells.readable⟩
  named := spells.named
  written := by
    simp [Content.render, utf8_append, utf8_renderCdata, Nodes.written, Payload.written, spells.written]
  rebinds before defaults rest := by
    simp [Nodes.events, Payload.opening, Payload.closing, joined, rebind_flushText, rebind, spells.rebinds,
      Content.events]

/-- What is written for a processing instruction. -/
theorem writtenText_instruction (target data : Text) (childless : Bool) (inside : List Written) :
    writtenText ((Payload.processingInstruction (utf8 target) (utf8 data)).written childless inside) =
      utf8 (renderInstruction target (writtenGap data) data) := by
  have leaf := leafText_instruction target data
  unfold leafText at leaf
  rw [← leaf]
  simp only [Payload.written, apply_ite writtenText, writtenText_bytes, writtenText_nil, List.append_nil]

theorem instruction (spells : SpellsNodes mode version outer rest content) (reference : NodeRef)
    {target data : Text} (readable : InstructionReadable (looseDialect version) target (writtenGap data) data) :
    SpellsNodes mode version outer (.cons reference (.processingInstruction (utf8 target) (utf8 data)) .nil rest)
      (.instruction target (writtenGap data) data content) where
  readable := ⟨readable, spells.readable⟩
  named := spells.named
  written := by
    simp [Content.render, utf8_append, Nodes.written, writtenText_instruction, spells.written]
  rebinds before defaults rest := by
    simp [Nodes.events, Payload.opening, Payload.closing, joined, rebind_flushText, rebind, spells.rebinds,
      Content.events]

/-- The written form of an element: an empty-element tag if it has no children. -/
def bodyOf (below : Nodes) (children : Content) : Option (Content × Text) :=
  if below.references.isEmpty then none else some (children, [])

theorem eq_nil_of_isEmpty {below : Nodes} (empty : below.references.isEmpty = true) : below = .nil := by
  cases below with
  | nil => rfl
  | cons reference payload inside rest => cases empty

/-- An element whose children are spelled inside the tag that is written for it. -/
theorem element {name : QualifiedName} {attributes : List Dom.Attribute} {spelled : Tag} {children : Content}
    (spells : Spells version (reissued name (attributes.map Attribute.view)) spelled)
    (reissues : Reissues mode name (attributes.map Attribute.view) outer)
    (inside : SpellsNodes mode version (reissued name (attributes.map Attribute.view) :: outer) below children)
    (behind : SpellsNodes mode version outer rest content) (reference : NodeRef) :
    SpellsNodes mode version outer
      (.cons reference (.element name.qualifiedName name.uri name.localName attributes) below rest)
      (elementContent spelled (bodyOf below children) content) := by
  have sameName : name.qualifiedName = utf8 spelled.name := by
    have named := congrArg StartTag.name spells.startTag
    exact named.symm
  have stored : (attributes.map Attribute.view).map storedView = attributes := by
    simp [Function.comp_def, storedView_view]
  have tag := tagText_eq name reissues.prefixed
  rw [← spells.text, stored] at tag
  have namedTag : NamedIn mode (spelled.startTag :: outer) spelled.startTag := by
    rw [spells.startTag]
    exact reissues.named
  have elementName : spelled.elementName mode (spelled.startTag :: outer) = rebound (defaultIn mode outer) name := by
    rw [Tag.elementName, spells.startTag, ← sameName]
    exact reissues.element
  have views : attributesIn mode (spelled.startTag :: outer) spelled.startTag = attributes.map Attribute.view := by
    rw [spells.startTag]
    exact reissues.attributes
  have rebinds : ∀ before defaults following, rebind (defaultIn mode outer :: defaults)
      (joined before (Nodes.cons reference (.element name.qualifiedName name.uri name.localName attributes)
        below rest).events ++ following) =
      flushText before ++ .startElement (rebound (defaultIn mode outer) name) (attributes.map Attribute.view) ::
        (children.events mode (spelled.startTag :: outer) [] ++
          .endElement (rebound (defaultIn mode outer) name) ::
            (content.events mode outer [] ++ rebind (defaultIn mode outer :: defaults) following)) := by
    intro before defaults following
    have within := inside.rebinds [] (defaultIn mode outer :: defaults)
      (.endElement name :: (joined [] rest.events ++ following))
    rw [reissues.default, ← spells.startTag] at within
    rw [joined_element name]
    simp [rebind_flushText, rebind, within, rebound_innerDefault, behind.rebinds]
  unfold bodyOf
  cases empty : below.references.isEmpty with
  | true =>
      have none := eq_nil_of_isEmpty empty
      subst none
      have noChildren : children.events mode (spelled.startTag :: outer) [] = [] := by
        have within := inside.rebinds [] [] []
        rw [← spells.startTag] at within
        simpa [Nodes.events, joined, flushText, rebind] using within.symm
      refine ⟨⟨spells.readable, behind.readable⟩, ⟨namedTag, behind.named⟩, ?_, fun before defaults following => ?_⟩
      · simp [elementContent, utf8_render_emptyElement, Nodes.written, Payload.written, tag, Nodes.references,
          behind.written]
      · rw [rebinds, noChildren]
        simp [elementContent, Content.events, elementName, views]
  | false =>
      refine ⟨⟨spells.readable, inside.readable, List.forall_mem_nil _, behind.readable⟩, ⟨namedTag, ?_, behind.named⟩,
        ?_, fun before defaults following => ?_⟩
      · rw [spells.startTag]
        exact inside.named
      · rw [sameName] at tag
        simp [elementContent, utf8_render_element, Nodes.written, Payload.written, tag, empty, inside.written,
          behind.written, sameName]
      · rw [rebinds]
        simp [elementContent, Content.events, elementName, views]

end SpellsNodes

section Trees

variable {mode : NamespaceMode} {version : XmlVersion}

/-- The name and the attributes of an element, spelled in a tag of their own. -/
theorem exists_spelledElement {outer : List StartTag} {name : QualifiedName} {attributes : List Dom.Attribute}
    (writable : WritableTag version mode name (attributes.map Attribute.view)) {below rest : Nodes}
    {content : Content}
    (inside : ∃ children,
      SpellsNodes mode version (reissued name (attributes.map Attribute.view) :: outer) below children)
    (behind : SpellsNodes mode version outer rest content) (reference : NodeRef) :
    ∃ spelled body, SpellsNodes mode version outer
      (.cons reference (.element name.qualifiedName name.uri name.localName attributes) below rest)
      (elementContent spelled body content) := by
  obtain ⟨tag, readable, named, rfl, views⟩ := WritableTag.iff_validlyNamed.mp writable
  obtain ⟨children, spellsBelow⟩ := inside
  obtain ⟨spelled, _, spells⟩ := exists_reissued (legalDialect_loose version) readable (List.forall_mem_nil _) mode
  have reissued := reissues named outer
  rw [views] at spells reissued
  exact ⟨spelled, _, SpellsNodes.element spells reissued spellsBelow behind reference⟩

/-- Nodes that can be written are spelled, under any tags around them. -/
theorem exists_spellsNodes {nodes : Nodes} (built : nodes.Built)
    (writable : ∀ event ∈ nodes.events, event.Writable version mode) (outer : List StartTag) :
    ∃ content, SpellsNodes mode version outer nodes content := by
  induction nodes generalizing outer with
  | nil => exact ⟨.nil, .nil⟩
  | cons reference payload below rest ihBelow ihRest =>
      obtain ⟨isInner, bare, builtBelow, builtRest⟩ := built
      simp only [Nodes.events, List.forall_mem_append] at writable
      obtain ⟨⟨⟨opening, inside⟩, _⟩, behind⟩ := writable
      obtain ⟨content, spells⟩ := ihRest builtRest behind outer
      cases payload with
      | document storage => cases isInner
      | element qualifiedName namespaceUri localName attributes =>
          have tag : WritableTag version mode ⟨namespaceUri, localName, qualifiedName⟩ (attributes.map Attribute.view) :=
            opening _ List.mem_cons_self
          obtain ⟨spelled, body, element⟩ := exists_spelledElement tag (ihBelow builtBelow inside _) spells reference
          exact ⟨_, element⟩
      | text contents =>
          cases bare rfl
          obtain ⟨text, rfl, legal⟩ := opening _ List.mem_cons_self
          exact ⟨_, spells.text reference legal⟩
      | comment contents =>
          cases bare rfl
          obtain ⟨body, rfl, readable⟩ := Leaf.Writable.comment (opening _ List.mem_cons_self)
          exact ⟨_, spells.comment reference readable⟩
      | cdataSection contents =>
          cases bare rfl
          obtain ⟨body, rfl, readable⟩ := Leaf.Writable.cdata (opening _ List.mem_cons_self)
          exact ⟨_, spells.cdata reference readable⟩
      | processingInstruction target contents =>
          cases bare rfl
          obtain ⟨name, rfl, proper⟩ := opening _ List.mem_cons_self
          obtain ⟨data, rfl, readable⟩ := proper.instruction
          exact ⟨_, spells.instruction reference readable⟩

/-- A leaf beside the document element is a misc item. -/
theorem exists_misc {payload : Payload} (isMisc : payload.isMisc = true)
    (writable : ∀ event ∈ payload.opening, event.Writable version mode) :
    ∃ misc : Misc, misc.Readable (looseDialect version) ∧ payload.opening = misc.events ∧ payload.closing = [] ∧
      payload.isElement = false ∧
      ∀ childless inside, writtenText (payload.written childless inside) = utf8 misc.render := by
  cases payload with
  | comment contents =>
      obtain ⟨body, rfl, readable⟩ := Leaf.Writable.comment (writable _ List.mem_cons_self)
      refine ⟨.comment body, readable, rfl, rfl, rfl, fun _ _ => ?_⟩
      simp [Payload.written, Misc.render, utf8_renderComment]
  | processingInstruction target contents =>
      obtain ⟨name, rfl, proper⟩ := writable _ List.mem_cons_self
      obtain ⟨data, rfl, readable⟩ := proper.instruction
      exact ⟨.instruction name (writtenGap data) data, readable, rfl, rfl, rfl,
        fun _ _ => SpellsNodes.writtenText_instruction name data _ _⟩
  | _ => cases isMisc

theorem joined_misc (misc : Misc) (rest : List Event) : joined [] (misc.events ++ rest) = misc.events ++ joined [] rest := by
  cases misc <;> rfl

theorem rebind_misc (defaults : List Bytes) (misc : Misc) (rest : List Event) :
    rebind defaults (misc.events ++ rest) = misc.events ++ rebind defaults rest := by
  cases misc <;> rfl

theorem exists_miscs {nodes : Nodes} (built : nodes.Built)
    (writable : ∀ event ∈ nodes.events, event.Writable version mode)
    (outermost : ∀ payload ∈ nodes.outermost, payload.isMisc = true) :
    ∃ miscs, (∀ misc ∈ miscs, Misc.Readable (looseDialect version) misc) ∧
      utf8 (renderMiscs miscs) = writtenText nodes.written ∧ joined [] nodes.events = miscEvents miscs := by
  induction nodes with
  | nil => exact ⟨[], List.forall_mem_nil _, rfl, rfl⟩
  | cons reference payload below rest _ ihRest =>
      obtain ⟨_, bare, _, builtRest⟩ := built
      simp only [Nodes.events, List.forall_mem_append] at writable
      obtain ⟨isMisc, others⟩ := List.forall_mem_cons.mp outermost
      obtain ⟨misc, readable, opening, closing, leaf, text⟩ := exists_misc isMisc writable.1.1.1
      obtain ⟨miscs, readableRest, written, events⟩ := ihRest builtRest writable.2 others
      cases bare leaf
      refine ⟨misc :: miscs, List.forall_mem_cons.mpr ⟨readable, readableRest⟩, ?_, ?_⟩
      · simp [renderMiscs_cons, utf8_append, Nodes.written, text, written]
      · simp [Nodes.events, opening, closing, joined_misc, events, miscEvents_cons]

/-- The text of a body that can be written is a document of the dialect. -/
theorem exists_spelledDocument {nodes : Nodes} (built : nodes.Built)
    (writable : ∀ event ∈ nodes.events, event.Writable version mode) (body : nodes.IsBody) :
    ∃ document : Document, document.Readable (looseDialect version) ∧ document.Named mode ∧
      utf8 document.render = writtenText nodes.written ∧
      rebind [[]] (joined [] nodes.events) =
        bodyEvents mode document.prolog (elementContent document.tag document.body .nil) document.epilog := by
  induction nodes with
  | nil => cases body.element
  | cons reference payload below rest _ ihRest =>
      obtain ⟨_, bare, builtBelow, builtRest⟩ := built
      have writableAll := writable
      simp only [Nodes.events, List.forall_mem_append] at writable
      obtain ⟨first, others⟩ := List.forall_mem_cons.mp body.others
      have count := body.element
      simp only [Nodes.outermost, List.countP_cons] at count
      cases isElement : payload.isElement with
      | false =>
          -- A misc item of the prolog.
          have isMisc := first.resolve_left (by simp [isElement])
          obtain ⟨misc, readable, opening, closing, leaf, text⟩ := exists_misc isMisc writable.1.1.1
          obtain ⟨document, readableRest, named, rendered, events⟩ :=
            ihRest builtRest writable.2 ⟨by simpa [isElement] using count, others⟩
          cases bare leaf
          refine ⟨{ document with prolog := misc :: document.prolog }, ?_, named, ?_, ?_⟩
          · exact ⟨List.forall_mem_cons.mpr ⟨readable, readableRest.prolog⟩, readableRest.element, readableRest.epilog⟩
          · have front : utf8 ({ document with prolog := misc :: document.prolog } : Document).render =
                utf8 misc.render ++ utf8 document.render := by
              simp [Document.render, renderMiscs_cons, utf8_append]
            rw [front, rendered]
            simp [Nodes.written, text]
          · simp [Nodes.events, opening, closing, joined_misc, rebind_misc, events, bodyEvents, miscEvents_cons]
      | true =>
          -- The document element, and the epilog behind it.
          have single : rest.outermost.countP Payload.isElement = 0 := by
            simpa [isElement] using count
          have miscRest : ∀ other ∈ rest.outermost, other.isMisc = true := by
            intro other member
            exact (others other member).resolve_left (List.countP_eq_zero.mp single other member)
          obtain ⟨epilog, readableEpilog, writtenEpilog, eventsEpilog⟩ := exists_miscs builtRest writable.2 miscRest
          cases payload with
          | element qualifiedName namespaceUri localName attributes =>
              have tag : WritableTag version mode ⟨namespaceUri, localName, qualifiedName⟩
                  (attributes.map Attribute.view) := writable.1.1.1 _ List.mem_cons_self
              obtain ⟨spelled, inner, element⟩ := exists_spelledElement tag
                (exists_spellsNodes builtBelow writable.1.1.2 _) (@SpellsNodes.nil mode version []) reference
              refine ⟨⟨[], spelled, inner, epilog⟩, ⟨List.forall_mem_nil _, element.readable, readableEpilog⟩,
                element.named, ?_, ?_⟩
              · have written := element.written
                simp only [Nodes.written, List.append_nil, writtenText_call] at written
                simp [Document.render, renderMiscs, utf8_append, Nodes.written, written, ← writtenEpilog]
              · have rebinds := element.rebinds [] [] (joined [] rest.events)
                rw [defaultIn_nil] at rebinds
                have split : joined []
                    (Nodes.cons reference (.element qualifiedName namespaceUri localName attributes) below
                      rest).events =
                    joined [] (Nodes.cons reference (.element qualifiedName namespaceUri localName attributes) below
                      .nil).events ++ joined [] rest.events := by
                  have alone : joined [] Nodes.nil.events = [] := rfl
                  simp [joined_element ⟨namespaceUri, localName, qualifiedName⟩, alone]
                have behind := rebind_miscEvents [[]] epilog []
                simp only [List.append_nil, rebind] at behind
                rw [split, rebinds, eventsEpilog, behind]
                rfl
          | _ => cases isElement

end Trees

/-! ## Documents of clients -/

/-- What serializing writes of a document can be written: each node of it, and one
element beside comments and processing instructions. -/
structure WritableTree (version : XmlVersion) (mode : NamespaceMode) (nodes : Nodes) : Prop where
  body : nodes.IsBody
  events : ∀ event ∈ nodes.trimmed.events, event.Writable version mode

theorem WritableTree.parseDocument {version : XmlVersion} {mode : NamespaceMode} {nodes : Nodes}
    (writable : WritableTree version mode nodes) (inner : nodes.Inner) {options : ParserOptions}
    (isVersion : options.version = version) (isMode : options.namespaces = mode) :
    ReadsBack options (writtenText nodes.written) (rebind [[]] (joined [] nodes.trimmed.events)) := by
  have body : nodes.trimmed.IsBody := by
    obtain ⟨element, others⟩ := writable.body
    rw [← Nodes.outermost_trimmed] at element others
    exact ⟨element, others⟩
  obtain ⟨document, readable, named, rendered, events⟩ :=
    exists_spelledDocument inner.built_trimmed writable.events body
  rw [Nodes.writtenText_trimmed] at rendered
  rw [← rendered, events]
  refine readsBack_of_roomy ?_ isVersion isMode
  rintro roomy rfl rfl room
  exact parseDocument_loose readable named (fun _ shape => shownEvents_body shape) room

/-- In every state that clients can reach, the text written for a document is read as
what serializing has seen of its tree, with adjacent text joined, empty text left out,
and elements in no namespace taken into the defaults written around them. -/
theorem read_normalized {heap : Heap} (reachable : Reachable heap) {document : NodeRef}
    (isDocument : heap.isDocument document) {nodes : Nodes} (shown : ShowsDocument heap document nodes)
    {options : ParserOptions} (writable : WritableTree options.version options.namespaces nodes) :
    (serialize document).run heap = (.ok (.call document :: nodes.written), heap) ∧
      ReadsBack options (writtenText nodes.written) (rebind [[]] (joined [] nodes.trimmed.events)) :=
  ⟨shown.run_serialize isDocument, writable.parseDocument (shown.inner reachable.coherent) rfl rfl⟩

/-- An element with two texts and a comment that is hidden below a text. -/
def adjacentTexts : List Operation :=
  [.newDocument, .createElement 0 (ascii "a") [] (ascii "a"), .createText 0 (ascii "x"), .createText 0 (ascii "y"),
    .createComment 0 (ascii "c"), .appendChild 0 1, .appendChild 1 2, .appendChild 1 3, .appendChild 3 4]

theorem read_normalized_sample :
    ReadsBack {} (ascii "<a>xy</a>")
      [.startElement plainName [], .characters (ascii "xy"), .endElement plainName] := by
  have reachable := reachable_reached adjacentTexts
  obtain ⟨nodes, shown⟩ := reachable.coherent.exists_showsDocument 0
  have shows := shown.shows
  have children : (reached adjacentTexts).links.children 0 = [1] := by decide +kernel
  rw [children] at shows
  cases shows.unique (.cons (by decide +kernel : (reached adjacentTexts).content 1 =
      some ([2, 3], .element (ascii "a") [] (ascii "a") []))
    (.cons (by decide +kernel : (reached adjacentTexts).content 2 = some ([], .text (ascii "x"))) .nil
      (.cons (by decide +kernel : (reached adjacentTexts).content 3 = some ([4], .text (ascii "y")))
        (.cons (by decide +kernel : (reached adjacentTexts).content 4 = some ([], .comment (ascii "c"))) .nil .nil)
        .nil)) .nil)
  refine (@read_normalized _ reachable 0 rfl _ shown {} ⟨⟨rfl, by decide⟩, ?_⟩).2
  have tag : WritableTag .xml10 .enabled plainName [] := WritableTag.iff_validlyNamed.mpr plainName_validlyNamed
  have letters : ∀ c, c < 0x80 → 0x20 ≤ c → Encoded .xml10 [UInt8.ofNat c] := by
    intro c small large
    refine ⟨[c], ?_, List.forall_mem_singleton.mpr ?_⟩
    · rw [utf8_cons, utf8Unit_one (by omega)]
      rfl
    · simp [isValidXmlChar, isValidXml10Char]
      omega
  intro event member
  simp only [Nodes.trimmed, Payload.isLeaf, Nodes.events, Payload.opening, Payload.closing] at member
  rcases List.mem_cons.mp member with rfl | member
  · exact tag
  rcases List.mem_cons.mp member with rfl | member
  · exact letters 0x78 (by decide) (by decide)
  rcases List.mem_cons.mp member with rfl | member
  · exact letters 0x79 (by decide) (by decide)
  rcases List.mem_cons.mp member with rfl | member
  · trivial
  · cases member

end XmlParser
