import XmlParser.Naming
import XmlParser.Progress
import XmlParser.Library.Grammar

/-! What a syntax tree means to a handler: the events of its items in document
order, with adjacent character data in one event. -/

set_option autoImplicit false

namespace XmlParser

/-- The event of a finished run of text. -/
def flushText (text : Bytes) : List Event :=
  if text.isEmpty then [] else [.characters text]

namespace Grammar

/-- The tag as the parser reads it. -/
def Tag.startTag (tag : Tag) : StartTag :=
  ⟨utf8 tag.name, tag.attributes.map fun attr => (utf8 attr.name, utf8 (pieceValues attr.value))⟩

/-- The name in the events of the tag, `tags` being the tag and those around it. -/
def Tag.elementName (mode : NamespaceMode) (tags : List StartTag) (tag : Tag) : QualifiedName :=
  nameIn mode tags true (utf8 tag.name)

/-- The events of the content inside `tags`, behind the text read so far. -/
def Content.events (mode : NamespaceMode) : List StartTag → Bytes → Content → List Event
  | _, text, .nil => flushText text
  | tags, text, .piece item next => next.events mode tags (text ++ utf8 item.value)
  | tags, text, .comment body next =>
      flushText text ++ .comment (utf8 body) :: next.events mode tags []
  | tags, text, .cdata body next =>
      flushText text ++ .cdata (utf8 body) :: next.events mode tags []
  | tags, text, .instruction target _ data next =>
      flushText text ++ .processingInstruction (utf8 target) (utf8 data) ::
        next.events mode tags []
  | tags, text, .element tag children _ next =>
      let inner := tag.startTag :: tags
      flushText text ++
        .startElement (tag.elementName mode inner) (attributesIn mode inner tag.startTag) ::
          (children.events mode inner [] ++
            .endElement (tag.elementName mode inner) :: next.events mode tags [])
  | tags, text, .emptyElement tag next =>
      let inner := tag.startTag :: tags
      flushText text ++
        .startElement (tag.elementName mode inner) (attributesIn mode inner tag.startTag) ::
          .endElement (tag.elementName mode inner) :: next.events mode tags []

/-- The names of every tag of the content are proper. -/
def Content.Named (mode : NamespaceMode) : List StartTag → Content → Prop
  | _, .nil => True
  | tags, .piece _ next => next.Named mode tags
  | tags, .comment _ next => next.Named mode tags
  | tags, .cdata _ next => next.Named mode tags
  | tags, .instruction _ _ _ next => next.Named mode tags
  | tags, .element tag children _ next =>
      NamedIn mode (tag.startTag :: tags) tag.startTag ∧
        children.Named mode (tag.startTag :: tags) ∧ next.Named mode tags
  | tags, .emptyElement tag next =>
      NamedIn mode (tag.startTag :: tags) tag.startTag ∧ next.Named mode tags

/-! An element in front of further content, and pieces in front of it. -/

theorem readable_elementContent {d : Dialect} {tag : Tag} {body : Option (Content × Text)}
    {next : Content} : (elementContent tag body next).Readable d ↔
      (elementContent tag body .nil).Readable d ∧ next.Readable d := by
  cases body with
  | none => simp [elementContent, Content.Readable]
  | some body => simp [elementContent, Content.Readable, and_assoc]

theorem render_elementContent (tag : Tag) (body : Option (Content × Text)) (next : Content) :
    (elementContent tag body next).render = (elementContent tag body .nil).render ++ next.render := by
  cases body with
  | none => simp [elementContent, Content.render]
  | some body => simp [elementContent, Content.render]

theorem named_elementContent {mode : NamespaceMode} {tags : List StartTag} {tag : Tag}
    {body : Option (Content × Text)} {next : Content} :
    (elementContent tag body next).Named mode tags ↔
      (elementContent tag body .nil).Named mode tags ∧ next.Named mode tags := by
  cases body with
  | none => simp [elementContent, Content.Named]
  | some body => simp [elementContent, Content.Named, and_assoc]

theorem events_elementContent (mode : NamespaceMode) (tags : List StartTag) (tag : Tag)
    (body : Option (Content × Text)) (next : Content) :
    (elementContent tag body next).events mode tags [] =
      (elementContent tag body .nil).events mode tags [] ++ next.events mode tags [] := by
  cases body with
  | none => simp [elementContent, Content.events, flushText]
  | some body => simp [elementContent, Content.events, flushText]

/-- Content behind the pieces of a text. -/
def prependPieces (pieces : List Piece) (next : Content) : Content :=
  pieces.foldr Content.piece next

theorem readable_prependPieces {d : Dialect} {pieces : List Piece} {next : Content} :
    (prependPieces pieces next).Readable d ↔
      (∀ item ∈ pieces, item.Readable d ExcludedFromText) ∧ next.Readable d := by
  induction pieces with
  | nil => simp [prependPieces]
  | cons item pieces ih =>
      change item.Readable d ExcludedFromText ∧ (prependPieces pieces next).Readable d ↔ _
      rw [ih, List.forall_mem_cons, and_assoc]

theorem render_prependPieces (pieces : List Piece) (next : Content) :
    (prependPieces pieces next).render = renderPieces pieces ++ next.render := by
  induction pieces with
  | nil => rfl
  | cons item pieces ih =>
      change item.render ++ (prependPieces pieces next).render = _
      rw [ih, ← List.append_assoc]
      rfl

theorem named_prependPieces {mode : NamespaceMode} {tags : List StartTag} {pieces : List Piece}
    {next : Content} : (prependPieces pieces next).Named mode tags ↔ next.Named mode tags := by
  induction pieces with
  | nil => rfl
  | cons item pieces ih => exact ih

theorem events_prependPieces (mode : NamespaceMode) (tags : List StartTag) (text : Bytes)
    (pieces : List Piece) (next : Content) :
    (prependPieces pieces next).events mode tags text =
      next.events mode tags (text ++ utf8 (pieceValues pieces)) := by
  induction pieces generalizing text with
  | nil => simp [prependPieces, pieceValues]
  | cons item pieces ih =>
      change (prependPieces pieces next).events mode tags (text ++ utf8 item.value) = _
      rw [ih, List.append_assoc, ← utf8_append]
      rfl

/-- Text in front of markup is an event of its own. -/
theorem events_flush (mode : NamespaceMode) (tags : List StartTag) (text : Bytes) {content : Content}
    (markup : ∀ item next, content ≠ .piece item next) :
    content.events mode tags text = flushText text ++ content.events mode tags [] := by
  cases content with
  | piece item next => exact absurd rfl (markup item next)
  | nil => simp [Content.events, flushText]
  | comment body next => simp [Content.events, flushText]
  | cdata body next => simp [Content.events, flushText]
  | instruction target gap data next => simp [Content.events, flushText]
  | element tag children space next => simp [Content.events, flushText]
  | emptyElement tag next => simp [Content.events, flushText]

def Misc.events : Misc → List Event
  | .space _ => []
  | .comment body => [.comment (utf8 body)]
  | .instruction target _ data => [.processingInstruction (utf8 target) (utf8 data)]

def miscEvents (miscs : List Misc) : List Event := miscs.flatMap Misc.events

/-! What every event of a syntax tree meets. -/

section Events

variable {meets : Event → Prop}

theorem forall_flushText (characters : ∀ text, meets (.characters text)) (text : Bytes) :
    ∀ event ∈ flushText text, meets event := by
  unfold flushText
  split
  · exact List.forall_mem_nil _
  · exact List.forall_mem_singleton.mpr (characters text)

theorem forall_miscEvents {miscs : List Misc} (each : ∀ misc ∈ miscs, ∀ event ∈ misc.events, meets event) :
    ∀ event ∈ miscEvents miscs, meets event := by
  intro event member
  obtain ⟨misc, isMisc, inside⟩ := List.mem_flatMap.mp member
  exact each misc isMisc event inside

/-- The events of the first item meet a condition, and what is inside and behind the
item is content of a given kind. -/
def Content.HeadMeets (mode : NamespaceMode) (meets : Event → Prop) (kind : List StartTag → Content → Prop) :
    List StartTag → Content → Prop
  | _, .nil => True
  | tags, .piece _ next => kind tags next
  | tags, .comment body next => meets (.comment (utf8 body)) ∧ kind tags next
  | tags, .cdata body next => meets (.cdata (utf8 body)) ∧ kind tags next
  | tags, .instruction target _ data next =>
      meets (.processingInstruction (utf8 target) (utf8 data)) ∧ kind tags next
  | tags, .element tag children _ next =>
      let inner := tag.startTag :: tags
      (meets (.startElement (tag.elementName mode inner) (attributesIn mode inner tag.startTag)) ∧
        meets (.endElement (tag.elementName mode inner))) ∧ kind inner children ∧ kind tags next
  | tags, .emptyElement tag next =>
      let inner := tag.startTag :: tags
      (meets (.startElement (tag.elementName mode inner) (attributesIn mode inner tag.startTag)) ∧
        meets (.endElement (tag.elementName mode inner))) ∧ kind tags next

theorem Content.forall_events {mode : NamespaceMode} {kind : List StartTag → Content → Prop}
    (characters : ∀ text, meets (.characters text))
    (head : ∀ tags content, kind tags content → content.HeadMeets mode meets kind tags) {content : Content}
    {tags : List StartTag} (isKind : kind tags content) (text : Bytes) :
    ∀ event ∈ content.events mode tags text, meets event := by
  have flushed := forall_flushText characters text
  induction content generalizing tags text with
  | nil => exact flushed
  | piece item next ih => exact ih (head _ _ isKind) _ (forall_flushText characters _)
  | comment body next ih | cdata body next ih | instruction target gap data next ih =>
      obtain ⟨first, behind⟩ := head _ _ isKind
      have rest := ih behind [] (forall_flushText characters [])
      exact List.forall_mem_append.mpr ⟨flushed, List.forall_mem_cons.mpr ⟨first, rest⟩⟩
  | element tag children space next ihChildren ihNext =>
      obtain ⟨⟨opening, closing⟩, inside, behind⟩ := head _ _ isKind
      have children := ihChildren inside [] (forall_flushText characters [])
      have rest := ihNext behind [] (forall_flushText characters [])
      have body := List.forall_mem_append.mpr ⟨children, List.forall_mem_cons.mpr ⟨closing, rest⟩⟩
      exact List.forall_mem_append.mpr ⟨flushed, List.forall_mem_cons.mpr ⟨opening, body⟩⟩
  | emptyElement tag next ih =>
      obtain ⟨⟨opening, closing⟩, behind⟩ := head _ _ isKind
      have rest := List.forall_mem_cons.mpr ⟨closing, ih behind [] (forall_flushText characters [])⟩
      exact List.forall_mem_append.mpr ⟨flushed, List.forall_mem_cons.mpr ⟨opening, rest⟩⟩

end Events

def Document.events (mode : NamespaceMode) (document : Document) : List Event :=
  .startDocument :: (miscEvents document.prolog ++
    ((elementContent document.tag document.body .nil).events mode [] [] ++
      (miscEvents document.epilog ++ [.endDocument])))

def Document.Named (mode : NamespaceMode) (document : Document) : Prop :=
  (elementContent document.tag document.body .nil).Named mode []

end Grammar

end XmlParser
