import XmlParser.Meaning
import XmlParser.Respelling

/-! What is written for content that has been read is content again, with the same
events up to the defaults that are written around elements without namespace. -/

set_option autoImplicit false

namespace XmlParser

open Grammar Dom

/-! ## Events inside written defaults -/

/-- The events as they are read where these defaults are written around them, the
innermost one first. -/
def rebind : List Bytes → List Event → List Event
  | _, [] => []
  | defaults, event :: rest =>
      match event with
      | .startElement name views =>
          .startElement (rebound (defaults.headD []) name) views ::
            rebind (innerDefault (defaults.headD []) name :: defaults) rest
      | .endElement name => .endElement (rebound (defaults.headD []) name) :: rebind defaults.tail rest
      | other => other :: rebind defaults rest

/-! ## Markup in bytes -/

theorem utf8_isEmpty (text : Text) : (utf8 text).isEmpty = text.isEmpty := by
  cases text with
  | nil => rfl
  | cons c text =>
      have filled : utf8Unit c ++ utf8 text ≠ [] :=
        List.append_ne_nil_of_left_ne_nil (List.ne_nil_of_length_pos (utf8Unit_length_pos c)) _
      simpa [utf8_cons] using filled

theorem utf8_renderComment (body : Text) :
    utf8 (renderComment body) = ascii "<!--" ++ utf8 body ++ ascii "-->" := by
  rw [renderComment, utf8_append, utf8_append]
  rfl

theorem utf8_renderCdata (body : Text) :
    utf8 (renderCdata body) = ascii "<![CDATA[" ++ utf8 body ++ ascii "]]>" := by
  rw [renderCdata, utf8_append, utf8_append]
  rfl

theorem utf8_renderInstruction (target gap data : Text) :
    utf8 (renderInstruction target gap data) =
      ascii "<?" ++ utf8 target ++ utf8 gap ++ utf8 data ++ ascii "?>" := by
  rw [renderInstruction, utf8_append, utf8_append, utf8_append, utf8_append]
  rfl

theorem utf8_renderEndTag (name : Text) :
    utf8 (renderEndTag name []) = ascii "</" ++ utf8 name ++ ascii ">" := by
  rw [renderEndTag, List.append_nil, utf8_append, utf8_append]
  rfl

theorem utf8_render_emptyElement (tag : Tag) (next : Content) :
    utf8 (Content.emptyElement tag next).render =
      [0x3C] ++ utf8 tag.render ++ ascii "/>" ++ utf8 next.render := by
  rw [Content.render, utf8_append, utf8_append, utf8_append]
  rfl

theorem utf8_render_element (tag : Tag) (children next : Content) :
    utf8 (Content.element tag children [] next).render =
      [0x3C] ++ utf8 tag.render ++ ascii ">" ++ utf8 children.render ++
        (ascii "</" ++ utf8 tag.name ++ ascii ">") ++ utf8 next.render := by
  rw [Content.render, utf8_append, utf8_append, utf8_append, utf8_append, utf8_append, utf8_renderEndTag]
  rfl

/-- The white space written in front of the data of a processing instruction. -/
def writtenGap (data : Text) : Text := if data.isEmpty then [] else [0x20]

theorem leafText_instruction (target data : Text) :
    leafText (.processingInstruction (utf8 target) (utf8 data)) =
      utf8 (renderInstruction target (writtenGap data) data) := by
  rw [utf8_renderInstruction]
  simp only [leafText, writtenGap, utf8_isEmpty]
  cases data with
  | nil => simp
  | cons c data => rfl

theorem readable_writtenGap {version : XmlVersion} {d : Dialect} (honest : LegalDialect version d)
    {target gap data : Text} (readable : InstructionReadable d target gap data) :
    InstructionReadable (looseDialect version) target (writtenGap data) data where
  name := readable.name
  reserved := readable.reserved
  spaces := by
    intro c member
    unfold writtenGap at member
    split at member
    · cases member
    · exact .inl (List.mem_singleton.mp member)
  literals c member := honest.literal c (readable.literals c member)
  close := readable.close
  start := readable.start
  joined := by
    intro none
    unfold writtenGap at none
    split at none
    · rename_i empty
      rw [List.isEmpty_iff.mp empty]
      exact nofun
    · cases none

/-! ## Respelled content -/

/-- The content is a spelling of what is written for the events inside the tags
`outer`. -/
structure Respells (mode : NamespaceMode) (version : XmlVersion) (outer : List StartTag)
    (events : List Event) (content : Content) : Prop where
  readable : content.Readable (looseDialect version)
  named : content.Named mode outer
  written : ∀ pending rest, write pending (events ++ rest) =
    if content = .nil then write pending rest
    else tagEnd pending ++ (utf8 content.render ++ write false rest)
  rebinds : ∀ defaults rest, rebind (defaultIn mode outer :: defaults) (events ++ rest) =
    content.events mode outer [] ++ rebind (defaultIn mode outer :: defaults) rest

namespace Respells

variable {mode : NamespaceMode} {version : XmlVersion} {outer : List StartTag} {events : List Event}
  {content : Content}

theorem nil : Respells mode version outer [] .nil where
  readable := trivial
  named := trivial
  written _ _ := rfl
  rebinds _ _ := rfl

theorem written_false (respells : Respells mode version outer events content) (rest : List Event) :
    write false (events ++ rest) = utf8 content.render ++ write false rest := by
  rw [respells.written]
  split
  · rename_i empty
    rw [empty]
    rfl
  · rfl

/-- Text in front of markup. -/
theorem text (respells : Respells mode version outer events content)
    (markup : ∀ item next, content ≠ .piece item next) {text : Text} (legal : Legal version text) :
    Respells mode version outer (flushText (utf8 text) ++ events)
      (prependPieces (text.map (escapedPiece textEscape)) content) := by
  cases text with
  | nil => exact respells
  | cons c text =>
      have flushed : flushText (utf8 (c :: text)) = [.characters (utf8 (c :: text))] := by
        simp [flushText, utf8_isEmpty]
      have escaped := escapeBytes_utf8 escapes_text legal
      refine ⟨?_, ?_, fun pending rest => ?_, fun defaults rest => ?_⟩
      · exact readable_prependPieces.mpr ⟨readable_escaped escapes_text legal, respells.readable⟩
      · exact named_prependPieces.mpr respells.named
      · have some : prependPieces ((c :: text).map (escapedPiece textEscape)) content ≠ .nil := by
          rintro ⟨⟩
        rw [if_neg some, flushed]
        simp [write, leafText, escapeText_eq, escaped, respells.written_false, render_prependPieces, utf8_append]
      · rw [flushed, events_prependPieces, pieceValues_escaped, List.nil_append,
          events_flush mode outer _ markup, flushed]
        simp [rebind, respells.rebinds]

theorem comment (respells : Respells mode version outer events content) {body : Text}
    (readable : CommentReadable (looseDialect version) body) :
    Respells mode version outer (.comment (utf8 body) :: events) (.comment body content) where
  readable := ⟨readable, respells.readable⟩
  named := respells.named
  written pending rest := by
    simp [write, leafText, respells.written_false, Content.render, utf8_append, utf8_renderComment]
  rebinds defaults rest := by
    simp [rebind, respells.rebinds, Content.events, flushText]

theorem cdata (respells : Respells mode version outer events content) {body : Text}
    (readable : CdataReadable (looseDialect version) body) :
    Respells mode version outer (.cdata (utf8 body) :: events) (.cdata body content) where
  readable := ⟨readable, respells.readable⟩
  named := respells.named
  written pending rest := by
    simp [write, leafText, respells.written_false, Content.render, utf8_append, utf8_renderCdata]
  rebinds defaults rest := by
    simp [rebind, respells.rebinds, Content.events, flushText]

theorem instruction (respells : Respells mode version outer events content) {target data : Text}
    (readable : InstructionReadable (looseDialect version) target (writtenGap data) data) :
    Respells mode version outer (.processingInstruction (utf8 target) (utf8 data) :: events)
      (.instruction target (writtenGap data) data content) where
  readable := ⟨readable, respells.readable⟩
  named := respells.named
  written pending rest := by
    simp [write, leafText_instruction, respells.written_false, Content.render, utf8_append]
  rebinds defaults rest := by
    simp [rebind, respells.rebinds, Content.events, flushText]

/-- The written form of an element: an empty-element tag if nothing is inside. -/
def writtenBody (children : Content) : Option (Content × Text) :=
  if children = .nil then none else some (children, [])

theorem element {name : QualifiedName} {views : List AttributeView} {spelled : Tag} {insideEvents : List Event}
    {children : Content} (spells : Spells version (reissued name views) spelled)
    (reissues : Reissues mode name views outer)
    (inside : Respells mode version (reissued name views :: outer) insideEvents children)
    (behind : Respells mode version outer events content) :
    Respells mode version outer
      (.startElement name views :: (insideEvents ++ .endElement name :: events))
      (elementContent spelled (writtenBody children) content) := by
  have sameName : name.qualifiedName = utf8 spelled.name := by
    have named := congrArg StartTag.name spells.startTag
    exact named.symm
  have tag := tagText_eq name reissues.prefixed
  rw [← spells.text] at tag
  have namedTag : NamedIn mode (spelled.startTag :: outer) spelled.startTag := by
    rw [spells.startTag]
    exact reissues.named
  have elementName : spelled.elementName mode (spelled.startTag :: outer) =
      rebound (defaultIn mode outer) name := by
    rw [Tag.elementName, spells.startTag, ← sameName]
    exact reissues.element
  have attributes : attributesIn mode (spelled.startTag :: outer) spelled.startTag = views := by
    rw [spells.startTag]
    exact reissues.attributes
  have children_nil : children = .nil ∨ writtenBody children = some (children, []) := by
    unfold writtenBody
    split
    · rename_i empty
      exact .inl empty
    · exact .inr rfl
  refine ⟨?_, ?_, fun pending rest => ?_, fun defaults rest => ?_⟩
  · rcases children_nil with rfl | some
    · exact ⟨spells.readable, behind.readable⟩
    · rw [some]
      exact ⟨spells.readable, inside.readable, List.forall_mem_nil _, behind.readable⟩
  · rcases children_nil with rfl | some
    · exact ⟨namedTag, behind.named⟩
    · rw [some]
      refine ⟨namedTag, ?_, behind.named⟩
      rw [spells.startTag]
      exact inside.named
  · have within := inside.written true (.endElement name :: (events ++ rest))
    have markup : elementContent spelled (writtenBody children) content ≠ .nil := by
      cases writtenBody children <;> exact nofun
    rw [if_neg markup]
    rcases children_nil with rfl | some
    · rw [if_pos rfl] at within
      simp [write, tag, within, behind.written_false, writtenBody, elementContent, utf8_render_emptyElement]
    · have filled : children ≠ .nil := by
        intro empty
        simp [writtenBody, empty] at some
      rw [if_neg filled] at within
      rw [sameName] at tag
      simp [write, tag, within, behind.written_false, some, elementContent, utf8_render_element, tagEnd, sameName]
  · have within := inside.rebinds (defaultIn mode outer :: defaults) (.endElement name :: (events ++ rest))
    rw [reissues.default] at within
    rcases children_nil with rfl | some
    · simp only [Content.events, flushText, List.isEmpty_nil, if_true, List.nil_append] at within
      simp [rebind, within, rebound_innerDefault, behind.rebinds, writtenBody, elementContent, Content.events,
        flushText, elementName, attributes]
    · rw [← spells.startTag] at within
      simp [rebind, within, rebound_innerDefault, behind.rebinds, some, elementContent, Content.events,
        flushText, elementName, attributes]

end Respells

theorem elementContent_ne_piece {tag : Tag} {body : Option (Content × Text)} {next : Content} (item : Piece)
    (other : Content) : elementContent tag body next ≠ .piece item other := by
  cases body <;> exact nofun

/-- What is written for content that has been read, behind text read before it. -/
theorem exists_respells {version : XmlVersion} {d : Dialect} (honest : LegalDialect version d)
    {mode : NamespaceMode} {content : Content} (readable : content.Readable d) {tags : List StartTag}
    (named : content.Named mode tags) (encoded : EncodedTags version tags) (outer : List StartTag)
    {text : Text} (legal : Legal version text) :
    ∃ respelled, Respells mode version outer (content.events mode tags (utf8 text)) respelled := by
  induction content generalizing tags outer text with
  | nil =>
      have empty : Respells mode version outer [] .nil := .nil
      have flushed := empty.text (by rintro _ _ ⟨⟩) legal
      rw [List.append_nil] at flushed
      exact ⟨_, flushed⟩
  | piece item next ih =>
      have value : Legal version item.value := by
        have whole := legal_pieceValues honest (List.forall_mem_singleton.mpr readable.1)
        simpa [pieceValues] using whole
      obtain ⟨respelled, respells⟩ := ih readable.2 named encoded outer (legal_append.mpr ⟨legal, value⟩)
      rw [utf8_append] at respells
      exact ⟨respelled, respells⟩
  | comment body next ih =>
      obtain ⟨respelled, respells⟩ := ih readable.2 named encoded outer (Legal.nil version)
      have read : CommentReadable (looseDialect version) body :=
        ⟨fun c member => honest.literal c (readable.1.literals c member), readable.1.hyphens⟩
      exact ⟨_, (respells.comment read).text (by rintro _ _ ⟨⟩) legal⟩
  | cdata body next ih =>
      obtain ⟨respelled, respells⟩ := ih readable.2 named encoded outer (Legal.nil version)
      have read : CdataReadable (looseDialect version) body :=
        ⟨fun c member => honest.literal c (readable.1.literals c member), readable.1.close⟩
      exact ⟨_, (respells.cdata read).text (by rintro _ _ ⟨⟩) legal⟩
  | instruction target gap data next ih =>
      obtain ⟨respelled, respells⟩ := ih readable.2 named encoded outer (Legal.nil version)
      have read := readable_writtenGap honest readable.1
      exact ⟨_, (respells.instruction read).text (by rintro _ _ ⟨⟩) legal⟩
  | element tag children space next ihChildren ihNext =>
      obtain ⟨readableTag, readableChildren, _, readableNext⟩ := readable
      obtain ⟨namedTag, namedChildren, namedNext⟩ := named
      obtain ⟨spelled, _, spells⟩ := exists_reissued honest readableTag encoded mode
      obtain ⟨inner, inside⟩ := ihChildren readableChildren namedChildren
        (encodedTags_cons honest readableTag encoded) _ (Legal.nil version)
      obtain ⟨respelled, behind⟩ := ihNext readableNext namedNext encoded outer (Legal.nil version)
      have element := Respells.element spells (reissues namedTag outer) inside behind
      exact ⟨_, element.text elementContent_ne_piece legal⟩
  | emptyElement tag next ih =>
      obtain ⟨spelled, _, spells⟩ := exists_reissued honest readable.1 encoded mode
      obtain ⟨respelled, behind⟩ := ih readable.2 named.2 encoded outer (Legal.nil version)
      have element := Respells.element spells (reissues named.1 outer) .nil behind
      exact ⟨_, element.text elementContent_ne_piece legal⟩

end XmlParser
