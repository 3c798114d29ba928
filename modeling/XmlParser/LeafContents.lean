import XmlParser.RoundTrip

/-! Comments, CDATA sections and processing instructions are written between their
delimiters as they are. Which contents are read back, and which become markup. -/

set_option autoImplicit false

namespace XmlParser

open XmlParser.Computation Comp Grammar Dom

/-! ## Elements that a start tag can name -/

/-- The name and the attributes that some start tag gives to an element. -/
def ValidlyNamed (version : XmlVersion) (mode : NamespaceMode) (name : QualifiedName)
    (views : List AttributeView) : Prop :=
  ∃ tag : Tag, tag.Readable (looseDialect version) ∧ NamedIn mode [tag.startTag] tag.startTag ∧
    nameIn mode [tag.startTag] true tag.startTag.name = name ∧
    attributesIn mode [tag.startTag] tag.startTag = views

theorem legalDialect_loose (version : XmlVersion) : LegalDialect version (looseDialect version) where
  literal _ valid := valid
  denotes name value denotes := by
    let p : Parser := ⟨.recording, { version }, {}⟩
    exact (p.loose_within_dialect.denotes name value denotes).1

/-- What makes the name of an element without attributes a valid one. -/
structure ProperElementName (version : XmlVersion) (name : QualifiedName) : Prop where
  bytes : NameBytes name.qualifiedName
  uri : Encoded version name.uri
  whole : splitName name.qualifiedName = none → name.localName = name.qualifiedName
  split : ∀ pfx localName, splitName name.qualifiedName = some (pfx, localName) →
    pfx ≠ [] ∧ localName ≠ [] ∧ 0x3A ∉ localName ∧ name.uri ≠ [] ∧ name.localName = localName ∧
      (pfx = ascii "xml" → name.uri = xmlNamespace)

namespace ProperElementName

variable {version : XmlVersion} {name : QualifiedName}

/-- The attributes that declare the namespace of the name. -/
def declarations (name : QualifiedName) : List (Bytes × Bytes) :=
  if name.uri = [] then [] else [(declarationName (prefixOf name.qualifiedName), name.uri)]

theorem plain_declarations (qname : Bytes) :
    (StartTag.mk qname (declarations name)).plain .enabled = [] := by
  unfold declarations
  split
  · rfl
  · simp [StartTag.plain, declaresIn]

theorem uri_of_xml (proper : ProperElementName version name)
    (isXml : prefixOf name.qualifiedName = ascii "xml") : name.uri = xmlNamespace := by
  cases split : splitName name.qualifiedName with
  | none =>
      rw [prefixOf_of_whole split] at isXml
      cases isXml
  | some parts =>
      rw [prefixOf_of_split split] at isXml
      exact (proper.split parts.1 parts.2 split).2.2.2.2.2 isXml

theorem lexicalUri_declarations (proper : ProperElementName version name) (qname : Bytes) :
    lexicalUri [⟨qname, declarations name⟩] (prefixOf name.qualifiedName) = name.uri := by
  unfold lexicalUri
  split
  · rename_i isXml
    exact (proper.uri_of_xml isXml).symm
  · by_cases unbound : name.uri = []
    · simp [declarations, unbound, StartTag.binding]
    · simp [declarations, unbound, StartTag.binding]

theorem lexicalName_declarations (proper : ProperElementName version name) (qname : Bytes) :
    lexicalName [⟨qname, declarations name⟩] true name.qualifiedName = name := by
  have uri := proper.lexicalUri_declarations qname
  unfold lexicalName
  cases split : splitName name.qualifiedName with
  | none =>
      rw [prefixOf_of_whole split] at uri
      simp only [if_true, uri]
      nth_rewrite 1 [← proper.whole split]
      rfl
  | some parts =>
      obtain ⟨pfx, localName⟩ := parts
      rw [prefixOf_of_split split] at uri
      simp only [uri, ← (proper.split pfx localName split).2.2.2.2.1]

/-- With namespace processing a proper name is valid: its own tag can declare it. -/
theorem validlyNamed (proper : ProperElementName version name) : ValidlyNamed version .enabled name [] := by
  obtain ⟨text, named, bytes⟩ := proper.bytes
  have distinct : ((declarations name).map Prod.fst).Nodup := by
    unfold declarations
    split
    · exact List.nodup_nil
    · exact List.nodup_singleton _
  have declared : ∀ attr ∈ declarations name, NameBytes attr.1 ∧ Encoded version attr.2 := by
    unfold declarations
    split
    · exact List.forall_mem_nil _
    · exact List.forall_mem_singleton.mpr ⟨nameBytes_declarationName proper.bytes, proper.uri⟩
  obtain ⟨spelled, _, spells⟩ := exists_spells named distinct declared
  rw [← bytes] at spells
  have plain := @plain_declarations name name.qualifiedName
  refine ⟨spelled, spells.readable, ?_, ?_, ?_⟩
  · rw [spells.startTag]
    refine ⟨fun _ pfx localName split => ?_, ?_, ?_⟩
    · have parts := proper.split pfx localName split
      have uri := proper.lexicalUri_declarations name.qualifiedName
      rw [prefixOf_of_split split] at uri
      exact ⟨parts.1, parts.2.1, parts.2.2.1, uri ▸ parts.2.2.2.1⟩
    · rw [plain]
      exact List.forall_mem_nil _
    · unfold attributesIn
      rw [plain]
      exact List.nodup_nil
  · rw [spells.startTag]
    exact proper.lexicalName_declarations name.qualifiedName
  · unfold attributesIn
    rw [spells.startTag, plain]
    rfl

end ProperElementName

/-! ## Leaves -/

/-- The nodes that are written between delimiters. -/
inductive Leaf where
  | comment
  | cdataSection
  | processingInstruction (target : Text)

namespace Leaf

/-- The node that `create_comment`, `create_cdata_section` or
`create_processing_instruction` makes. -/
def payload : Leaf → Bytes → Payload
  | .comment, contents => .comment contents
  | .cdataSection, contents => .cdataSection contents
  | .processingInstruction target, contents => .processingInstruction (utf8 target) contents

def event : Leaf → Bytes → Event
  | .comment, contents => .comment contents
  | .cdataSection, contents => .cdata contents
  | .processingInstruction target, contents => .processingInstruction (utf8 target) contents

/-- A target is a name, and not a reserved one. -/
def Proper : Leaf → Prop
  | .processingInstruction target => Name target ∧ ¬ ReservedTarget target
  | _ => True

/-- The contents that the leaf has a spelling for. -/
def Represents : Leaf → Text → Prop
  | .comment, contents => ¬ [0x2D, 0x2D] <:+: contents ++ [0x2D]
  | .cdataSection, contents => ¬ [0x5D, 0x5D, 0x3E] <:+: contents
  | .processingInstruction _, contents =>
      ¬ [0x3F, 0x3E] <:+: contents ∧ ∀ c ∈ contents.head?, ¬ IsSpace c

/-- The syntax tree of the leaf. -/
def content : Leaf → Text → Content
  | .comment, contents => .comment contents .nil
  | .cdataSection, contents => .cdata contents .nil
  | .processingInstruction target, contents => .instruction target (writtenGap contents) contents .nil

/-- Represented contents are read back from what is written for them. -/
theorem respells {leaf : Leaf} (proper : leaf.Proper) {version : XmlVersion} {contents : Text}
    (legal : Legal version contents) (represents : leaf.Represents contents) (mode : NamespaceMode)
    (outer : List StartTag) :
    Respells mode version outer [leaf.event (utf8 contents)] (leaf.content contents) := by
  cases leaf with
  | comment => exact Respells.nil.comment ⟨legal, represents⟩
  | cdataSection => exact Respells.nil.cdata ⟨legal, represents⟩
  | processingInstruction target =>
      apply Respells.nil.instruction
      have gap : Spaces (writtenGap contents) ∧
          (writtenGap contents = [] → ∀ c ∈ contents.head?, ¬ NameChar c) := by
        cases contents with
        | nil => exact ⟨List.forall_mem_nil _, nofun⟩
        | cons c rest => exact ⟨List.forall_mem_singleton.mpr (.inl rfl), nofun⟩
      exact ⟨proper.1, proper.2, gap.1, legal, represents.1, represents.2, gap.2⟩

end Leaf

/-! ## Leaves that have been read -/

/-- The contents of a leaf are spelled somewhere in a dialect. -/
def Event.Spelled (d : Dialect) : Event → Prop
  | .comment contents => ∃ body, contents = utf8 body ∧ CommentReadable d body
  | .cdata contents => ∃ body, contents = utf8 body ∧ CdataReadable d body
  | .processingInstruction target contents => ∃ name gap data,
      target = utf8 name ∧ contents = utf8 data ∧ InstructionReadable d name gap data
  | _ => True

section Spelled

variable {d : Dialect}

theorem spelled_content {content : Content} (readable : content.Readable d) (mode : NamespaceMode)
    (tags : List StartTag) (text : Bytes) : ∀ event ∈ content.events mode tags text, event.Spelled d := by
  have head : ∀ tags (content : Content), content.Readable d →
      content.HeadMeets mode (Event.Spelled d) (fun _ content => content.Readable d) tags := by
    intro tags content readable
    cases content with
    | nil => trivial
    | piece item next => exact readable.2
    | comment body next => exact ⟨⟨body, rfl, readable.1⟩, readable.2⟩
    | cdata body next => exact ⟨⟨body, rfl, readable.1⟩, readable.2⟩
    | instruction target gap data next => exact ⟨⟨target, gap, data, rfl, rfl, readable.1⟩, readable.2⟩
    | element tag children space next => exact ⟨⟨trivial, trivial⟩, readable.2.1, readable.2.2.2⟩
    | emptyElement tag next => exact ⟨⟨trivial, trivial⟩, readable.2⟩
  exact Content.forall_events (fun _ => trivial) head readable text

theorem spelled_miscEvents {miscs : List Misc} (readable : ∀ misc ∈ miscs, misc.Readable d) :
    ∀ event ∈ miscEvents miscs, event.Spelled d := by
  apply forall_miscEvents
  intro misc member
  have readableMisc := readable misc member
  cases misc with
  | space c => exact List.forall_mem_nil _
  | comment body => exact List.forall_mem_singleton.mpr ⟨body, rfl, readableMisc⟩
  | instruction target gap data =>
      exact List.forall_mem_singleton.mpr ⟨target, gap, data, rfl, rfl, readableMisc⟩

theorem ReadAs.spelled {version : XmlVersion} {mode : NamespaceMode} {prolog : List Misc} {tag : Tag}
    {body : Option (Content × Text)} {epilog : List Misc} {events : List Event}
    (read : ReadAs version mode d prolog tag body epilog events) :
    ∀ event ∈ shownEvents events, event.Spelled d := by
  rw [read.shown]
  exact List.forall_mem_append.mpr ⟨spelled_miscEvents read.readableProlog, List.forall_mem_append.mpr
    ⟨spelled_content read.element mode [] [], spelled_miscEvents read.readableEpilog⟩⟩

/-- A leaf that is read with these contents represents them. -/
theorem Leaf.represents_of_spelled {version : XmlVersion} (honest : LegalDialect version d) {leaf : Leaf}
    {contents : Text} (legal : Legal version contents) (spelled : (leaf.event (utf8 contents)).Spelled d) :
    leaf.Represents contents := by
  have legalLiterals : ∀ {text : Text}, Literals d text → Legal version text :=
    fun literals c member => honest.literal c (literals c member)
  cases leaf with
  | comment =>
      obtain ⟨body, same, readable⟩ := spelled
      rw [utf8_injective legal (legalLiterals readable.literals) same]
      exact readable.hyphens
  | cdataSection =>
      obtain ⟨body, same, readable⟩ := spelled
      rw [utf8_injective legal (legalLiterals readable.literals) same]
      exact readable.close
  | processingInstruction target =>
      obtain ⟨name, gap, data, _, same, readable⟩ := spelled
      rw [utf8_injective legal (legalLiterals readable.literals) same]
      exact ⟨readable.close, readable.start⟩

end Spelled

/-! ## Reading under any limits -/

/-- Options with each limit raised to this number. -/
def ParserOptions.raised (options : ParserOptions) (limit : Nat) : ParserOptions :=
  { options with
    maxDocumentBytes := max options.maxDocumentBytes limit
    maxTokenBytes := max options.maxTokenBytes limit
    maxDepth := max options.maxDepth limit
    maxAttributesPerElement := max options.maxAttributesPerElement limit
    maxEntityExpansions := max options.maxEntityExpansions limit
    maxDomNodes := max options.maxDomNodes limit }

theorem tighter_raised (options : ParserOptions) (limit : Nat) : Tighter options (options.raised limit) :=
  ⟨rfl, rfl, rfl, rfl, rfl, rfl, le_max_left _ _, le_max_left _ _, le_max_left _ _, le_max_left _ _,
    le_max_left _ _, le_max_left _ _, le_rfl, le_rfl, le_rfl⟩

theorem hasRoom_raised (options : ParserOptions) (text : Bytes) (tree : List Event) :
    HasRoom (options.raised (text.length + tree.countP Event.isNode)) text tree where
  generous := by
    have long := Nat.le_add_right text.length (tree.countP Event.isNode)
    exact ⟨le_max_of_le_right long, le_max_of_le_right long, le_max_of_le_right long, le_max_of_le_right long⟩
  bytes := le_max_of_le_right (Nat.le_add_right _ _)
  nodes := le_max_of_le_right (Nat.le_add_left _ _)

/-- From the text `parse` makes a document with the tree, or meets a limit. -/
structure ReadsBack (options : ParserOptions) (text : Bytes) (tree : List Event) : Prop where
  returns : HasRoom options text tree → ∃ copy, (parseDocument text options).1 = .ok copy
  shows : ∀ copy, (parseDocument text options).1 = .ok copy →
    (flatten copy).run (parseDocument text options).2 = (.ok tree, (parseDocument text options).2)
  limited : ∀ halt, (parseDocument text options).1 = .error halt → halt.IsResourceLimit

theorem readsBack_of_roomy {version : XmlVersion} {mode : NamespaceMode} {text : Bytes} {tree : List Event}
    (parses : ∀ options : ParserOptions, options.version = version → options.namespaces = mode →
      HasRoom options text tree → ∃ copy, (parseDocument text options).1 = .ok copy ∧
        (flatten copy).run (parseDocument text options).2 = (.ok tree, (parseDocument text options).2))
    {options : ParserOptions} (isVersion : options.version = version) (isMode : options.namespaces = mode) :
    ReadsBack options text tree := by
  have tighter := tighter_raised options (text.length + tree.countP Event.isNode)
  obtain ⟨copy, isCopy, flat⟩ := parses _ (tighter.version.symm.trans isVersion)
    (tighter.namespaces.symm.trans isMode) (hasRoom_raised options text tree)
  constructor
  · intro room
    obtain ⟨copy, isCopy, _⟩ := parses options isVersion isMode room
    exact ⟨copy, isCopy⟩
  · intro other isOther
    have same := tighter.parseDocument_eq isOther
    rw [same] at isCopy flat
    cases isCopy.symm.trans isOther
    exact flat
  · intro halt rejected
    exact (tighter.parseDocument_rejected isCopy rejected).1

/-! ## Documents with one leaf -/

/-- An element is all that the document holds, and a leaf all that the element holds. -/
structure HoldsLeaf (heap : Heap) (document : NodeRef) (name : QualifiedName)
    (attributes : List Dom.Attribute) (leaf : Payload) : Prop where
  coherent : Coherent heap
  nodes : ∃ element child, heap.content document = some ([element], .document []) ∧
    heap.content element = some ([child], .element name.qualifiedName name.uri name.localName attributes) ∧
    heap.content child = some ([], leaf)

def leafTree (name : QualifiedName) (attributes : List Dom.Attribute) (leaf : Event) : List Event :=
  [.startElement name (attributes.map Dom.Attribute.view), leaf, .endElement name]

/-- Whatever text is returned, the tree is read back from it with this version and
mode; contents without such a text leave nothing but to throw. -/
def WritesFaithfully (version : XmlVersion) (mode : NamespaceMode) (heap : Heap) (document : NodeRef)
    (tree : List Event) : Prop :=
  ∀ written after, (serialize document).run heap = (.ok written, after) →
    ∀ options : ParserOptions, options.version = version → options.namespaces = mode →
      ReadsBack options (writtenText written) tree

/-- Serializing returns, whatever the contents are. -/
theorem HoldsLeaf.run_serialize {heap : Heap} {document : NodeRef} {name : QualifiedName}
    {attributes : List Dom.Attribute} {leaf : Leaf} {contents : Bytes}
    (holds : HoldsLeaf heap document name attributes (leaf.payload contents)) :
    ∃ written, (serialize document).run heap = (.ok written, heap) ∧
      writtenText written = write false (leafTree name attributes (leaf.event contents)) := by
  obtain ⟨element, child, isDocument, isElement, isLeaf⟩ := holds.nodes
  obtain ⟨nodes, shown⟩ := holds.coherent.exists_showsDocument document
  have shows := shown.shows
  rw [Heap.children_of_content isDocument] at shows
  cases shows.unique (.cons isElement (.cons isLeaf .nil .nil) .nil)
  refine ⟨_, shown.run_serialize (payloadIs_of_content isDocument).2, ?_⟩
  have bare : (leaf.payload contents).isDocument = false := by cases leaf <;> rfl
  have built : (Nodes.cons element (.element name.qualifiedName name.uri name.localName attributes)
      (.cons child (leaf.payload contents) .nil .nil) .nil).Built :=
    ⟨rfl, nofun, ⟨bare, fun _ => rfl, trivial, trivial⟩, trivial⟩
  have text := built.write_append false []
  rw [List.append_nil] at text
  have tree : (Nodes.cons element (.element name.qualifiedName name.uri name.localName attributes)
      (.cons child (leaf.payload contents) .nil .nil) .nil).events =
      leafTree name attributes (leaf.event contents) := by
    cases leaf <;> rfl
  rw [tree] at text
  rw [text, writtenText_call]
  simp [Nodes.references, write]

/-- The text written for represented contents is a document of the dialect. -/
theorem exists_leafDocument {version : XmlVersion} {mode : NamespaceMode} {name : QualifiedName}
    {attributes : List Dom.Attribute} {leaf : Leaf} {contents : Text}
    (named : ValidlyNamed version mode name (attributes.map Dom.Attribute.view)) (proper : leaf.Proper)
    (legal : Legal version contents) (represents : leaf.Represents contents) :
    ∃ document : Document, document.Readable (looseDialect version) ∧ document.Named mode ∧
      write false (leafTree name attributes (leaf.event (utf8 contents))) = utf8 document.render ∧
      ∀ events : List Event, events.map Event.withoutLocations = document.events mode →
        shownEvents events = leafTree name attributes (leaf.event (utf8 contents)) := by
  obtain ⟨tag, readable, namedTag, rfl, views⟩ := named
  have honest := legalDialect_loose version
  obtain ⟨spelled, _, spells⟩ := exists_reissued honest readable (List.forall_mem_nil _) mode
  have inside := leaf.respells proper legal represents mode
    (reissued (nameIn mode [tag.startTag] true tag.startTag.name) (attributesIn mode [tag.startTag] tag.startTag) :: [])
  have respells := Respells.element spells (reissues namedTag []) inside .nil
  rw [views] at respells
  refine ⟨⟨[], spelled, Respells.writtenBody (leaf.content contents), []⟩, ?_, respells.named, ?_, ?_⟩
  · exact ⟨List.forall_mem_nil _, respells.readable, List.forall_mem_nil _⟩
  · have text := respells.written_false []
    rw [List.append_nil] at text
    refine text.trans ?_
    simp [Document.render, renderMiscs, write]
  · intro events shape
    have shown := @shownEvents_body events mode [] [] _ shape
    have rebinds := respells.rebinds [] []
    rw [defaultIn_nil, List.append_nil] at rebinds
    rw [shown]
    simp only [bodyEvents, miscEvents, List.flatMap_nil, List.nil_append, List.append_nil, rebind] at rebinds ⊢
    rw [← rebinds]
    cases leaf <;>
      simp [leafTree, Leaf.event, rebind, rebound_nil, rebound_innerDefault]

theorem represents_of_writesFaithfully {version : XmlVersion} {mode : NamespaceMode} {heap : Heap}
    {document : NodeRef} {name : QualifiedName} {attributes : List Dom.Attribute} {leaf : Leaf} {contents : Text}
    (legal : Legal version contents)
    (holds : HoldsLeaf heap document name attributes (leaf.payload (utf8 contents)))
    (faithful : WritesFaithfully version mode heap document
      (leafTree name attributes (leaf.event (utf8 contents)))) :
    leaf.Represents contents := by
  obtain ⟨written, ran, _⟩ := holds.run_serialize
  -- With enough room the written text is parsed, and what is parsed has been spelled.
  let tree := leafTree name attributes (leaf.event (utf8 contents))
  let roomy := ParserOptions.roomy version mode ((writtenText written).length + tree.countP Event.isNode)
  have reads : ReadsBack roomy (writtenText written) tree := faithful written heap ran roomy rfl rfl
  obtain ⟨copy, isCopy⟩ := reads.returns (hasRoom_roomy version mode (writtenText written) tree)
  obtain ⟨fits, accepted⟩ := accepted_of_parseDocument isCopy
  obtain ⟨other, isOther, flat⟩ := parseDocument_of_ok fits accepted
  cases isCopy.symm.trans isOther
  have shown := Except.ok.inj (congrArg Prod.fst (flat.symm.trans (reads.shows copy isCopy)))
  obtain ⟨d, prolog, tag, body, epilog, read⟩ := exists_readAs accepted
  have spelled := read.spelled (leaf.event (utf8 contents))
  rw [shown] at spelled
  exact Leaf.represents_of_spelled read.honest legal (spelled (List.mem_cons_of_mem _ List.mem_cons_self))

/-- What is written for a leaf is read back exactly if the leaf has a spelling for its
contents; other contents become markup, or an error of the next parse. -/
theorem writesFaithfully_iff {version : XmlVersion} {mode : NamespaceMode} {heap : Heap} {document : NodeRef}
    {name : QualifiedName} {attributes : List Dom.Attribute} {leaf : Leaf} {contents : Text}
    (named : ValidlyNamed version mode name (attributes.map Dom.Attribute.view)) (proper : leaf.Proper)
    (legal : Legal version contents)
    (holds : HoldsLeaf heap document name attributes (leaf.payload (utf8 contents))) :
    WritesFaithfully version mode heap document (leafTree name attributes (leaf.event (utf8 contents))) ↔
      leaf.Represents contents := by
  constructor
  · intro faithful
    exact represents_of_writesFaithfully legal holds faithful
  · intro represents written after ran options isVersion isMode
    obtain ⟨known, ranKnown, text⟩ := holds.run_serialize
    cases ranKnown.symm.trans ran
    obtain ⟨respelled, readable, namedDocument, spelled, shows⟩ :=
      exists_leafDocument named proper legal represents
    rw [text, spelled]
    refine readsBack_of_roomy ?_ isVersion isMode
    rintro roomy rfl rfl room
    exact parseDocument_loose readable namedDocument shows room

/-! ## Documents made for a leaf -/

namespace Leaf

/-- The call that makes the leaf. -/
def create : Leaf → Bytes → Operation
  | .comment, contents => .createComment 0 contents
  | .cdataSection, contents => .createCdataSection 0 contents
  | .processingInstruction target, contents => .createProcessingInstruction 0 (utf8 target) contents

/-- The calls that make a document of an element and a leaf. -/
def calls (leaf : Leaf) (name : QualifiedName) (contents : Bytes) : List Operation :=
  [.newDocument, .createElement 0 name.qualifiedName name.uri name.localName, leaf.create contents,
    .appendChild 0 1, .appendChild 1 2]

theorem holdsLeaf_calls (leaf : Leaf) {name : QualifiedName} (filled : name.localName ≠ []) (contents : Bytes) :
    HoldsLeaf (reached (leaf.calls name contents)) 0 name [] (leaf.payload contents) where
  coherent := coherent_foldl coherent_empty _
  nodes := by
    obtain ⟨uri, localName, qualifiedName⟩ := name
    cases localName with
    | nil => exact absurd rfl filled
    | cons first rest =>
        refine ⟨1, 2, ?_⟩
        cases leaf <;> exact ⟨rfl, rfl, rfl⟩

end Leaf

def plainName : QualifiedName := ⟨[], ascii "a", ascii "a"⟩

theorem plainName_validlyNamed : ValidlyNamed .xml10 .enabled plainName [] := by
  have named : Name (u32 "a") := name_iff.mpr (by decide)
  apply ProperElementName.validlyNamed
  exact ⟨⟨u32 "a", named, rfl⟩, ⟨[], rfl, Legal.nil .xml10⟩, fun _ => rfl, nofun⟩

theorem writesFaithfully_iff_sample :
    WritesFaithfully .xml10 .enabled (reached (Leaf.cdataSection.calls plainName (ascii "]]&gt;"))) 0
      (leafTree plainName [] (.cdata (ascii "]]&gt;"))) := by
  have holds := @Leaf.holdsLeaf_calls .cdataSection plainName nofun (ascii "]]&gt;")
  have exactly := @writesFaithfully_iff .xml10 .enabled _ _ _ _ .cdataSection (u32 "]]&gt;")
    plainName_validlyNamed trivial (by unfold Legal; decide) holds
  have represents : ¬ u32 "]]>" <:+: u32 "]]&gt;" := by decide
  exact exactly.mpr represents

/-- A comment that closes itself, and an element behind it. -/
def forgedElement : Text := u32 "--><b/><!--"

theorem not_writesFaithfully :
    Legal .xml10 forgedElement ∧ ValidlyNamed .xml10 .enabled plainName [] ∧
      HoldsLeaf (reached (Leaf.comment.calls plainName (utf8 forgedElement))) 0 plainName []
        (.comment (utf8 forgedElement)) ∧
      ((serialize 0).run (reached (Leaf.comment.calls plainName (utf8 forgedElement)))).1.map writtenText =
        .ok (ascii "<a><!----><b/><!----></a>") ∧
      ¬ WritesFaithfully .xml10 .enabled (reached (Leaf.comment.calls plainName (utf8 forgedElement))) 0
        (leafTree plainName [] (.comment (utf8 forgedElement))) := by
  have legal : Legal .xml10 forgedElement := by
    unfold Legal
    decide
  have holds := @Leaf.holdsLeaf_calls .comment plainName nofun (utf8 forgedElement)
  refine ⟨legal, plainName_validlyNamed, holds, by decide +kernel, ?_⟩
  intro faithful
  have hyphens : [0x2D, 0x2D] <:+: forgedElement ++ [0x2D] := by decide
  exact absurd hyphens (@represents_of_writesFaithfully _ _ _ _ _ _ .comment _ legal holds faithful)

end XmlParser
