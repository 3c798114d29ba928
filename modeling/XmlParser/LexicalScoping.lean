import XmlParser.Reading
import XmlParser.DecoderProperties
import Mathlib.Data.List.Forall2

/-! Namespaces are resolved as the start tags are nested: every start tag of an
accepted document against the names in its event. -/

set_option autoImplicit false

namespace XmlParser

open XmlParser.Computation Comp Grammar

/-- A start tag of a document and the tags around it, the innermost one first. -/
structure OpenTag where
  tag : StartTag
  enclosing : List StartTag

/-- The tags whose declarations a start tag sees. -/
def OpenTag.chain (opened : OpenTag) : List StartTag := opened.tag :: opened.enclosing

/-- The start tags of the content inside `tags`, in document order. -/
def Grammar.Content.openTags : List StartTag → Content → List OpenTag
  | _, .nil => []
  | tags, .piece _ next => next.openTags tags
  | tags, .comment _ next => next.openTags tags
  | tags, .cdata _ next => next.openTags tags
  | tags, .instruction _ _ _ next => next.openTags tags
  | tags, .element tag children _ next =>
      ⟨tag.startTag, tags⟩ :: (children.openTags (tag.startTag :: tags) ++ next.openTags tags)
  | tags, .emptyElement tag next => ⟨tag.startTag, tags⟩ :: next.openTags tags

/-- What the event of a start tag says. -/
def Event.startParts : Event → Option (QualifiedName × List AttributeView)
  | .startElement name attributes => some (name, attributes)
  | _ => none

/-- An event names a start tag and its attributes as they are scoped. -/
structure ResolvedLexically (opened : OpenTag) (parts : QualifiedName × List AttributeView) :
    Prop where
  element : parts.1 = lexicalName opened.chain true opened.tag.name
  attributes : parts.2 =
    (opened.tag.attributes.filter fun attr => (declaredPrefix attr.1).isNone).map
      fun attr => ⟨lexicalName opened.chain false attr.1, attr.2, {}⟩
  elementBound : WellNamed opened.chain opened.tag.name
  attributesBound : ∀ attr ∈ opened.tag.attributes, declaredPrefix attr.1 = none →
    WellNamed opened.chain attr.1
  expanded : (parts.2.map fun view => view.name.expanded).Nodup

theorem declaresIn_enabled (name : Bytes) :
    (!declaresIn .enabled name) = (declaredPrefix name).isNone := by
  unfold declaresIn
  cases declaredPrefix name with
  | none => rfl
  | some pfx => rfl

/-- Proper names are the lexical ones. -/
theorem NamedIn.resolvedLexically {tag : Tag} {tags : List StartTag}
    (named : NamedIn .enabled (tag.startTag :: tags) tag.startTag) :
    ResolvedLexically ⟨tag.startTag, tags⟩ (tag.elementName .enabled (tag.startTag :: tags),
      attributesIn .enabled (tag.startTag :: tags) tag.startTag) := by
  refine ⟨rfl, ?_, named.element rfl, ?_, named.expanded⟩
  · unfold attributesIn StartTag.plain
    simp only [declaresIn_enabled]
    rfl
  · intro attr member undeclared
    refine named.attributes attr (List.mem_filter.mpr ⟨member, ?_⟩) rfl
    rw [declaresIn_enabled, undeclared]
    rfl

theorem startParts_flushText (text : Bytes) : (flushText text).filterMap Event.startParts = [] := by
  unfold flushText
  split
  · rfl
  · rfl

theorem startParts_miscEvents (miscs : List Misc) :
    (miscEvents miscs).filterMap Event.startParts = [] := by
  induction miscs with
  | nil => rfl
  | cons misc rest ih =>
      have split : miscEvents (misc :: rest) = misc.events ++ miscEvents rest := rfl
      rw [split, List.filterMap_append, ih, List.append_nil]
      cases misc with
      | space c => rfl
      | comment body => rfl
      | instruction target gap data => rfl

/-- The start tags of properly named content against its events. -/
theorem Grammar.Content.resolvedLexically {content : Content} {tags : List StartTag}
    (named : content.Named .enabled tags) (text : Bytes) :
    List.Forall₂ ResolvedLexically (content.openTags tags)
      ((content.events .enabled tags text).filterMap Event.startParts) := by
  induction content generalizing tags text with
  | nil =>
      unfold Content.events
      rw [startParts_flushText]
      exact .nil
  | piece item next ih => exact ih named _
  | comment body next ih =>
      unfold Content.events
      rw [List.filterMap_append, startParts_flushText]
      exact ih named []
  | cdata body next ih =>
      unfold Content.events
      rw [List.filterMap_append, startParts_flushText]
      exact ih named []
  | instruction target gap data next ih =>
      unfold Content.events
      rw [List.filterMap_append, startParts_flushText]
      exact ih named []
  | element tag children space next ihChildren ihNext =>
      obtain ⟨namedTag, namedChildren, namedNext⟩ := named
      unfold Content.events Content.openTags
      rw [List.filterMap_append, startParts_flushText]
      have inside := List.rel_append (ihChildren namedChildren []) (ihNext namedNext [])
      refine .cons namedTag.resolvedLexically ?_
      rw [List.filterMap_append]
      exact inside
  | emptyElement tag next ih =>
      obtain ⟨namedTag, namedNext⟩ := named
      unfold Content.events Content.openTags
      rw [List.filterMap_append, startParts_flushText]
      exact .cons namedTag.resolvedLexically (ih namedNext [])

/-- The document element begins where the prologue ends and is followed by misc
items only, and the events of its start tags have the lexical names. -/
def ScopedLexically (xml : Bytes) (handler : SaxHandler) (options : ParserOptions) : Prop :=
  ∃ decoded s tag body epilog, decodeDocument xml options = .ok decoded ∧
    let p : Parser := ⟨handler, options, decoded.endLocation⟩
    let element := elementContent tag body .nil
    let events := (parseXmlDocument xml handler options).2.events.map Event.withoutLocations
    p.parseProlog.run { rest := decoded.chars } = (.ok (), s) ∧
      element.Readable (p.dialect s.dtd.entities) ∧
      (∀ misc ∈ epilog, misc.Readable (p.dialect s.dtd.entities)) ∧
      values s.rest = element.render ++ renderMiscs epilog ∧
      List.Forall₂ ResolvedLexically (element.openTags []) (events.filterMap Event.startParts)

/-- The same of this document element. -/
def HasElement (xml : Bytes) (handler : SaxHandler) (options : ParserOptions) (element : Content) : Prop :=
  ∃ decoded s tag body epilog, element = elementContent tag body .nil ∧
    decodeDocument xml options = .ok decoded ∧
    let p : Parser := ⟨handler, options, decoded.endLocation⟩
    let events := (parseXmlDocument xml handler options).2.events.map Event.withoutLocations
    p.parseProlog.run { rest := decoded.chars } = (.ok (), s) ∧
      element.Readable (p.dialect s.dtd.entities) ∧
      (∀ misc ∈ epilog, misc.Readable (p.dialect s.dtd.entities)) ∧
      values s.rest = element.render ++ renderMiscs epilog ∧
      List.Forall₂ ResolvedLexically (element.openTags []) (events.filterMap Event.startParts)

theorem hasElement_of_accepted {xml : Bytes} {handler : SaxHandler} {options : ParserOptions}
    (enabled : options.namespaces = .enabled)
    (accepted : (parseXmlDocument xml handler options).1 = .ok ()) :
    ∃ element, HasElement xml handler options element := by
  unfold HasElement
  unfold parseXmlDocument at accepted ⊢
  cases ran : decodeDocument xml options with
  | error error =>
      rw [ran] at accepted
      cases accepted
  | ok decoded =>
      rw [ran] at accepted
      let p : Parser := ⟨handler, options, decoded.endLocation⟩
      obtain ⟨s, miscs, tag, body, epilog, prolog, _, readable, readableEpilog, named, rendered,
        events⟩ := p.parse_reads_element (decodeDocument_legal ran) (Prod.ext accepted rfl)
      refine ⟨_, decoded, s, tag, body, epilog, rfl, rfl, prolog, readable, readableEpilog, rendered, ?_⟩
      rw [show p.options.namespaces = .enabled from enabled] at named events
      rw [events, List.filterMap_cons_none rfl, List.filterMap_append, startParts_miscEvents,
        List.filterMap_append, List.filterMap_append, startParts_miscEvents,
        List.filterMap_cons_none rfl, List.filterMap_nil, List.nil_append, List.append_nil, List.append_nil]
      exact Content.resolvedLexically named []

/-- Every accepted document is scoped lexically. -/
theorem scopedLexically_of_accepted (xml : Bytes) (handler : SaxHandler) (options : ParserOptions)
    (enabled : options.namespaces = .enabled)
    (accepted : (parseXmlDocument xml handler options).1 = .ok ()) :
    ScopedLexically xml handler options := by
  obtain ⟨_, decoded, s, tag, body, epilog, rfl, has⟩ := hasElement_of_accepted enabled accepted
  exact ⟨decoded, s, tag, body, epilog, has⟩

theorem scopedLexically_of_accepted_sample :
    ScopedLexically (ascii "<p:a xmlns:p='u' p:b='1'><c xmlns='v'/><c/></p:a>") .recording {} :=
  scopedLexically_of_accepted _ _ _ rfl (by decide +kernel)

end XmlParser
