import XmlParser.NormalForm

/-! Which documents of clients survive being serialized and parsed again. -/

set_option autoImplicit false

namespace XmlParser

open XmlParser.Computation Comp Grammar Dom

/-! ## Text that has been joined -/

/-- No text is empty, and none is next to other text. -/
structure Parted (events : List Event) : Prop where
  filled : ∀ text, .characters text ∈ events → text ≠ []
  apart : events.IsChain fun first second => ¬ (first.isCharacters = true ∧ second.isCharacters = true)

theorem parted_flushText (text : Bytes) : Parted (flushText text) := by
  unfold flushText
  split
  · exact ⟨fun _ member => absurd member List.not_mem_nil, .nil⟩
  · rename_i filled
    refine ⟨fun other member => ?_, .singleton _⟩
    cases List.mem_singleton.mp member
    simpa using filled

/-- Markup behind one and in front of another list. -/
theorem Parted.append {before after : List Event} (first : Parted before) (second : Parted after) {event : Event}
    (markup : event.isCharacters = false) : Parted (before ++ event :: after) := by
  constructor
  · intro text member
    rcases List.mem_append.mp member with inside | later
    · exact first.filled text inside
    · rcases List.mem_cons.mp later with rfl | inside
      · cases markup
      · exact second.filled text inside
  · rw [List.isChain_append]
    refine ⟨first.apart, ?_, ?_⟩
    · rw [List.isChain_cons]
      exact ⟨fun _ _ => by simp [markup], second.apart⟩
    · intro _ _ next isNext
      simp only [List.head?_cons, Option.mem_def, Option.some.injEq] at isNext
      simp [← isNext, markup]

theorem parted_joined (text : Bytes) (events : List Event) : Parted (joined text events) := by
  induction events generalizing text with
  | nil => exact parted_flushText text
  | cons event rest ih =>
      cases event with
      | characters more => exact ih (text ++ more)
      | _ => exact (parted_flushText text).append (ih []) rfl

/-- Parted text stays as it is. -/
theorem Parted.joined_eq {events : List Event} (parted : Parted events) : joined [] events = events := by
  induction events with
  | nil => rfl
  | cons event rest ih =>
      have later : Parted rest :=
        ⟨fun text member => parted.filled text (List.mem_cons_of_mem _ member), parted.apart.tail⟩
      have same := ih later
      cases event with
      | characters text =>
          have filled := parted.filled text List.mem_cons_self
          cases rest with
          | nil => simp [joined, flushText, filled]
          | cons next others =>
              have markup : next.isCharacters = false := by
                have apart := (List.isChain_cons_cons.mp parted.apart).1
                simpa [Event.isCharacters] using apart
              rw [joined_cons markup, flushText, List.isEmpty_nil, if_pos rfl, List.nil_append] at same
              have behind := (List.cons.inj same).2
              have step : joined [] (.characters text :: next :: others) = joined text (next :: others) := rfl
              rw [step, joined_cons markup, behind]
              simp [flushText, filled]
      | _ => simp [joined, flushText, same]

theorem joined_eq_iff {events : List Event} : joined [] events = events ↔ Parted events := by
  constructor
  · intro same
    rw [← same]
    exact parted_joined [] events
  · exact Parted.joined_eq

theorem length_joined_le (text : Bytes) (events : List Event) :
    (joined text events).length ≤ (flushText text).length + events.length := by
  have short : ∀ text, (flushText text).length ≤ 1 := by
    intro text
    unfold flushText
    split <;> simp
  induction events generalizing text with
  | nil => exact Nat.le_refl _
  | cons event rest ih =>
      cases event with
      | characters more =>
          have behind := ih (text ++ more)
          have one := short (text ++ more)
          by_cases filled : text = []
          · simp only [joined, List.length_cons]
            omega
          · have here : (flushText text).length = 1 := by simp [flushText, filled]
            simp only [joined, List.length_cons]
            omega
      | _ =>
          have behind := ih []
          have none : (flushText []).length = 0 := rfl
          simp only [joined, List.length_append, List.length_cons]
          omega

theorem length_rebind (defaults : List Bytes) (events : List Event) :
    (rebind defaults events).length = events.length := by
  induction events generalizing defaults with
  | nil => rfl
  | cons event rest ih => cases event <;> simp [rebind, ih]

/-! ## What has been read is writable and parted -/

section Content

variable {version : XmlVersion} {d : Dialect} {mode : NamespaceMode}

theorem joined_flushText {event : Event} (markup : event.isCharacters = false) (before text : Bytes)
    (rest : List Event) :
    joined before (flushText text ++ event :: rest) = flushText (before ++ text) ++ event :: joined [] rest := by
  rw [joined_append markup]
  cases text with
  | nil => simp [flushText, joined]
  | cons c text => simp [flushText, joined]

theorem joined_content (content : Content) (tags : List StartTag) (before text : Bytes) :
    joined before (content.events mode tags text) = content.events mode tags (before ++ text) := by
  induction content generalizing tags before text with
  | nil =>
      cases text with
      | nil => simp [Content.events, flushText, joined]
      | cons c text => simp [Content.events, flushText, joined]
  | piece item next ih => simp [Content.events, ih]
  | comment body next ih =>
      rw [Content.events, @joined_flushText (.comment (utf8 body)) rfl, ih]
      rfl
  | cdata body next ih =>
      rw [Content.events, @joined_flushText (.cdata (utf8 body)) rfl, ih]
      rfl
  | instruction target gap data next ih =>
      rw [Content.events, @joined_flushText (.processingInstruction (utf8 target) (utf8 data)) rfl, ih]
      rfl
  | element tag children space next ihChildren ihNext =>
      rw [Content.events, @joined_flushText (.startElement _ _) rfl, @joined_append (.endElement _) rfl, ihChildren,
        ihNext]
      rfl
  | emptyElement tag next ih =>
      rw [Content.events, @joined_flushText (.startElement _ _) rfl, @joined_cons (.endElement _) rfl, ih]
      rfl

/-- A tag that has been read under other tags can be written alone. -/
theorem writableTag_of_named (honest : LegalDialect version d) {tag : Tag} (readable : tag.Readable d)
    {tags : List StartTag} (named : NamedIn mode (tag.startTag :: tags) tag.startTag)
    (encoded : EncodedTags version tags) :
    WritableTag version mode (tag.elementName mode (tag.startTag :: tags))
      (attributesIn mode (tag.startTag :: tags) tag.startTag) := by
  obtain ⟨spelled, _, spells⟩ := exists_reissued honest readable encoded mode
  have alone := reissues named []
  refine WritableTag.iff_validlyNamed.mpr ⟨spelled, spells.readable, ?_, ?_, ?_⟩
  · rw [spells.startTag]
    exact alone.named
  · have element := alone.element
    rw [defaultIn_nil, rebound_nil] at element
    rw [spells.startTag]
    exact element
  · rw [spells.startTag]
    exact alone.attributes

theorem writable_of_comment (honest : LegalDialect version d) {body : Text} (readable : CommentReadable d body) :
    (Event.comment (utf8 body)).Writable version mode :=
  ⟨trivial, body, rfl, fun c member => honest.literal c (readable.literals c member), readable.hyphens⟩

theorem writable_of_cdata (honest : LegalDialect version d) {body : Text} (readable : CdataReadable d body) :
    (Event.cdata (utf8 body)).Writable version mode :=
  ⟨trivial, body, rfl, fun c member => honest.literal c (readable.literals c member), readable.close⟩

theorem writable_of_instruction (honest : LegalDialect version d) {target gap data : Text}
    (readable : InstructionReadable d target gap data) :
    (Event.processingInstruction (utf8 target) (utf8 data)).Writable version mode :=
  ⟨target, rfl, ⟨readable.name, readable.reserved⟩, data, rfl,
    fun c member => honest.literal c (readable.literals c member), readable.close, readable.start⟩

theorem writable_flushText {text : Text} (legal : Legal version text) :
    ∀ event ∈ flushText (utf8 text), event.Writable version mode := by
  unfold flushText
  split
  · exact List.forall_mem_nil _
  · exact List.forall_mem_singleton.mpr ⟨text, rfl, legal⟩

/-- All that content is read as can be written. -/
theorem writable_content (honest : LegalDialect version d) {content : Content} (readable : content.Readable d)
    {tags : List StartTag} (named : content.Named mode tags) (encoded : EncodedTags version tags) {text : Text}
    (legal : Legal version text) : ∀ event ∈ content.events mode tags (utf8 text), event.Writable version mode := by
  have none := Legal.nil version
  induction content generalizing tags text with
  | nil => exact writable_flushText legal
  | piece item next ih =>
      have value : Legal version item.value := by
        have whole := legal_pieceValues honest (List.forall_mem_singleton.mpr readable.1)
        simpa [pieceValues] using whole
      have behind := ih readable.2 named encoded (legal_append.mpr ⟨legal, value⟩)
      rwa [utf8_append] at behind
  | comment body next ih =>
      simp only [Content.events, List.forall_mem_append, List.forall_mem_cons]
      exact ⟨writable_flushText legal, writable_of_comment honest readable.1, ih readable.2 named encoded none⟩
  | cdata body next ih =>
      simp only [Content.events, List.forall_mem_append, List.forall_mem_cons]
      exact ⟨writable_flushText legal, writable_of_cdata honest readable.1, ih readable.2 named encoded none⟩
  | instruction target gap data next ih =>
      simp only [Content.events, List.forall_mem_append, List.forall_mem_cons]
      exact ⟨writable_flushText legal, writable_of_instruction honest readable.1, ih readable.2 named encoded none⟩
  | element tag children space next ihChildren ihNext =>
      obtain ⟨readableTag, readableChildren, _, readableNext⟩ := readable
      obtain ⟨namedTag, namedChildren, namedNext⟩ := named
      simp only [Content.events, List.forall_mem_append, List.forall_mem_cons]
      exact ⟨writable_flushText legal, writableTag_of_named honest readableTag namedTag encoded,
        ihChildren readableChildren namedChildren (encodedTags_cons honest readableTag encoded) none, trivial,
        ihNext readableNext namedNext encoded none⟩
  | emptyElement tag next ih =>
      simp only [Content.events, List.forall_mem_append, List.forall_mem_cons]
      exact ⟨writable_flushText legal, writableTag_of_named honest readable.1 named.1 encoded, trivial,
        ih readable.2 named.2 encoded none⟩

theorem writable_miscEvents (honest : LegalDialect version d) {miscs : List Misc}
    (readable : ∀ misc ∈ miscs, misc.Readable d) : ∀ event ∈ miscEvents miscs, event.Writable version mode := by
  apply forall_miscEvents
  intro misc member
  have readableMisc := readable misc member
  cases misc with
  | space c => exact List.forall_mem_nil _
  | comment body => exact List.forall_mem_singleton.mpr (writable_of_comment honest readableMisc)
  | instruction target gap data =>
      exact List.forall_mem_singleton.mpr (writable_of_instruction honest readableMisc)

theorem joined_miscEvents (miscs : List Misc) (rest : List Event) :
    joined [] (miscEvents miscs ++ rest) = miscEvents miscs ++ joined [] rest := by
  induction miscs with
  | nil => rfl
  | cons misc others ih => rw [miscEvents_cons, List.append_assoc, joined_misc, ih, List.append_assoc]

variable {prolog epilog : List Misc} {tag : Tag} {body : Option (Content × Text)} {events : List Event}

theorem ReadAs.writable (read : ReadAs version mode d prolog tag body epilog events) :
    ∀ event ∈ shownEvents events, event.Writable version mode := by
  rw [read.shown]
  exact List.forall_mem_append.mpr ⟨writable_miscEvents read.honest read.readableProlog, List.forall_mem_append.mpr
    ⟨writable_content read.honest read.element read.named (List.forall_mem_nil _) (Legal.nil version),
      writable_miscEvents read.honest read.readableEpilog⟩⟩

theorem ReadAs.parted (read : ReadAs version mode d prolog tag body epilog events) : Parted (shownEvents events) := by
  rw [← joined_eq_iff, read.shown]
  have epilogue := joined_miscEvents epilog []
  simp only [List.append_nil, joined, flushText, List.isEmpty_nil, if_true] at epilogue
  cases body with
  | none =>
      simp [bodyEvents, elementContent, Content.events, joined_miscEvents, joined, flushText, epilogue]
  | some parts =>
      obtain ⟨children, space⟩ := parts
      have inside := @joined_content mode children [tag.startTag] [] []
      rw [List.append_nil] at inside
      have closing := fun name => @joined_append (.endElement name) rfl []
        (children.events mode [tag.startTag] []) (miscEvents epilog)
      simp [bodyEvents, elementContent, Content.events, joined_miscEvents, joined, flushText, epilogue, closing, inside]

end Content

/-! ## The outermost events -/

/-- The number of open elements behind an event. -/
def depthAfter (depth : Nat) : Event → Nat
  | .startElement _ _ => depth + 1
  | .endElement _ => depth - 1
  | _ => depth

def Event.isStart : Event → Bool
  | .startElement _ _ => true
  | _ => false

def Event.isEnd : Event → Bool
  | .endElement _ => true
  | _ => false

/-- The events that are not inside of an element, the ends of elements left out. -/
def outerEvents : Nat → List Event → List Event
  | _, [] => []
  | depth, event :: rest =>
      (if depth = 0 ∧ event.isEnd = false then [event] else []) ++ outerEvents (depthAfter depth event) rest

theorem outerEvents_content (mode : NamespaceMode) (content : Content) (tags : List StartTag) (text : Bytes)
    (depth : Nat) (rest : List Event) :
    outerEvents (depth + 1) (content.events mode tags text ++ rest) = outerEvents (depth + 1) rest := by
  have flush : ∀ text depth others, outerEvents (depth + 1) (flushText text ++ others) = outerEvents (depth + 1) others := by
    intro text depth others
    unfold flushText
    split <;> simp [outerEvents, depthAfter]
  induction content generalizing tags text depth rest with
  | nil => exact flush text depth rest
  | piece item next ih => exact ih tags _ depth rest
  | comment body next ih | cdata body next ih | instruction target gap data next ih =>
      simp [Content.events, flush, outerEvents, depthAfter, ih]
  | element tag children space next ihChildren ihNext =>
      simp [Content.events, flush, outerEvents, depthAfter, ihChildren, ihNext]
  | emptyElement tag next ih => simp [Content.events, flush, outerEvents, depthAfter, ih]

theorem outerEvents_miscEvents (miscs : List Misc) (rest : List Event) :
    outerEvents 0 (miscEvents miscs ++ rest) = miscEvents miscs ++ outerEvents 0 rest := by
  induction miscs with
  | nil => rfl
  | cons misc others ih =>
      rw [miscEvents_cons, List.append_assoc, List.append_assoc, ← ih]
      cases misc <;> rfl

/-- Outside of elements a body has its miscellaneous items and one start tag. -/
theorem outerEvents_body (mode : NamespaceMode) (prolog epilog : List Misc) (tag : Tag)
    (body : Option (Content × Text)) :
    ∃ name views, outerEvents 0 (bodyEvents mode prolog (elementContent tag body .nil) epilog) =
      miscEvents prolog ++ .startElement name views :: miscEvents epilog := by
  have behind := outerEvents_miscEvents epilog []
  simp only [List.append_nil, outerEvents] at behind
  refine ⟨tag.elementName mode [tag.startTag], attributesIn mode [tag.startTag] tag.startTag, ?_⟩
  rw [bodyEvents, outerEvents_miscEvents]
  cases body with
  | none =>
      simp [elementContent, Content.events, flushText, outerEvents, depthAfter, Event.isEnd, behind]
  | some parts =>
      have inside := outerEvents_content mode parts.1 [tag.startTag] [] 0
      rw [Nat.zero_add] at inside
      simp [elementContent, Content.events, flushText, outerEvents, depthAfter, Event.isEnd, inside, behind]

namespace Dom

theorem Nodes.outerEvents_events {nodes : Nodes} (depth : Nat) (rest : List Event) :
    outerEvents depth (nodes.events ++ rest) = outerEvents depth nodes.events ++ outerEvents depth rest ∧
      (0 < depth → outerEvents depth nodes.events = []) := by
  induction nodes generalizing depth rest with
  | nil => exact ⟨rfl, fun _ => rfl⟩
  | cons reference payload below others ihBelow ihOthers =>
      have behind := ihOthers depth rest
      cases payload with
      | element qualifiedName namespaceUri localName attributes =>
          have inside := fun following => (ihBelow (depth + 1) following).1
          have inner := (ihBelow (depth + 1) []).2 (Nat.succ_pos depth)
          constructor
          · simp [Nodes.events, Payload.opening, Payload.closing, outerEvents, depthAfter, inside, behind.1]
          · intro deep
            have notOuter : depth ≠ 0 := Nat.ne_of_gt deep
            simp [Nodes.events, Payload.opening, Payload.closing, outerEvents, depthAfter, inside, inner,
              behind.2 deep, notOuter]
      | _ =>
          have inside := fun following => (ihBelow depth following).1
          constructor
          · simp [Nodes.events, Payload.opening, Payload.closing, outerEvents, depthAfter, inside, behind.1]
          · intro deep
            have inner := (ihBelow depth []).2 deep
            have notOuter : depth ≠ 0 := Nat.ne_of_gt deep
            simp [Nodes.events, Payload.opening, Payload.closing, outerEvents, depthAfter, inside, inner,
              behind.2 deep, notOuter]

/-- The outermost nodes show among the outermost events. -/
theorem Nodes.outermost_sublist (nodes : Nodes) :
    (nodes.outermost.flatMap Payload.opening).Sublist (outerEvents 0 nodes.events) := by
  induction nodes with
  | nil => exact List.Sublist.refl _
  | cons reference payload below rest _ ihRest =>
      have inside := fun following => (@Nodes.outerEvents_events below 0 following).1
      have inner := fun following => (@Nodes.outerEvents_events below 1 following).1
      cases payload with
      | element qualifiedName namespaceUri localName attributes =>
          have none := (@Nodes.outerEvents_events below 1 []).2 Nat.one_pos
          simpa [Nodes.outermost, Nodes.events, Payload.opening, Payload.closing, outerEvents, depthAfter, Event.isEnd,
            inner, none] using ihRest
      | document storage =>
          have behind := ihRest.trans (List.sublist_append_right (outerEvents 0 below.events) _)
          simpa [Nodes.outermost, Nodes.events, Payload.opening, Payload.closing, inside] using behind
      | _ =>
          have behind := ihRest.trans (List.sublist_append_right (outerEvents 0 below.events) _)
          simpa [Nodes.outermost, Nodes.events, Payload.opening, Payload.closing, outerEvents, depthAfter, Event.isEnd,
            inside] using behind

theorem Nodes.Inner.outermost {nodes : Nodes} (inner : nodes.Inner) :
    ∀ payload ∈ nodes.outermost, payload.isDocument = false := by
  induction nodes with
  | nil => exact List.forall_mem_nil _
  | cons reference payload below rest _ ihRest => exact List.forall_mem_cons.mpr ⟨inner.1, ihRest inner.2.2⟩

/-- Nodes with the events of a body are a body, unless they have no element. -/
theorem Nodes.isBody_of_events {nodes : Nodes} (inner : nodes.Inner) {mode : NamespaceMode}
    {prolog epilog : List Misc} {tag : Tag} {body : Option (Content × Text)}
    (events : nodes.events = bodyEvents mode prolog (elementContent tag body .nil) epilog) :
    nodes.IsBody ∨ ∀ payload ∈ nodes.outermost, payload.isMisc = true := by
  obtain ⟨name, views, outer⟩ := outerEvents_body mode prolog epilog tag body
  have shown := nodes.outermost_sublist
  rw [events, outer] at shown
  have misc : ∀ miscs : List Misc, ∀ event ∈ miscEvents miscs, event.isStart = false ∧ event.isCharacters = false ∧
      ∀ contents, event ≠ .cdata contents := by
    intro miscs
    apply forall_miscEvents
    intro misc _
    cases misc with
    | space c => exact List.forall_mem_nil _
    | comment contents => exact List.forall_mem_singleton.mpr ⟨rfl, rfl, nofun⟩
    | instruction target gap data => exact List.forall_mem_singleton.mpr ⟨rfl, rfl, nofun⟩
  have others : ∀ payload ∈ nodes.outermost, payload.isElement = true ∨ payload.isMisc = true := by
    intro payload member
    have listed : ∀ event ∈ payload.opening, event.isCharacters = false ∧ ∀ contents, event ≠ .cdata contents := by
      intro event isOpening
      have isShown := shown.subset (List.mem_flatMap.mpr ⟨payload, member, isOpening⟩)
      rcases List.mem_append.mp isShown with before | later
      · exact (misc prolog event before).2
      rcases List.mem_cons.mp later with rfl | behind
      · exact ⟨rfl, nofun⟩
      · exact (misc epilog event behind).2
    have isInner := inner.outermost payload member
    cases payload with
    | document storage => cases isInner
    | element qualifiedName namespaceUri localName attributes => exact .inl rfl
    | text contents => exact absurd (listed _ List.mem_cons_self).1 Bool.true_eq_false.mp
    | cdataSection contents => exact absurd rfl ((listed _ List.mem_cons_self).2 contents)
    | comment contents => exact .inr rfl
    | processingInstruction target data => exact .inr rfl
  have count : (nodes.outermost.flatMap Payload.opening).countP Event.isStart =
      nodes.outermost.countP Payload.isElement := by
    clear shown others events
    induction nodes with
    | nil => rfl
    | cons reference payload below rest _ ihRest =>
        rw [Nodes.outermost, List.flatMap_cons, List.countP_append, ihRest inner.2.2, List.countP_cons, Nat.add_comm]
        congr 1
        cases payload <;> rfl
  have bound : nodes.outermost.countP Payload.isElement ≤ 1 := by
    have fewer := shown.countP_le (p := Event.isStart)
    have none : ∀ miscs : List Misc, (miscEvents miscs).countP Event.isStart = 0 := by
      intro miscs
      rw [List.countP_eq_zero]
      intro event member
      simp [(misc miscs event member).1]
    rw [count, List.countP_append, List.countP_cons, none, none] at fewer
    simpa [Event.isStart] using fewer
  by_cases single : nodes.outermost.countP Payload.isElement = 1
  · exact .inl ⟨single, others⟩
  · right
    intro payload member
    have none : nodes.outermost.countP Payload.isElement = 0 := by omega
    exact (others payload member).resolve_left (List.countP_eq_zero.mp none payload member)

end Dom

/-! ## Texts without an element -/

/-- The empty element `a`. -/
def emptyA : Tag := ⟨[0x61], [], []⟩

theorem emptyA_readable (d : Dialect) : emptyA.Readable d where
  name := name_iff.mpr (by decide)
  attributes := List.forall_mem_nil _
  first := nofun
  distinct := List.nodup_nil
  after := List.forall_mem_nil _

theorem readable_withA {d : Dialect} {miscs : List Misc} (readable : ∀ misc ∈ miscs, misc.Readable d) :
    (Document.mk miscs emptyA none []).Readable d :=
  ⟨readable, ⟨emptyA_readable d, trivial⟩, List.forall_mem_nil _⟩

theorem render_withA (miscs : List Misc) :
    (Document.mk miscs emptyA none []).render = renderMiscs miscs ++ u32 "<a/>" := by
  simp only [Document.render, elementContent, Content.render, renderMiscs, List.flatMap_nil, List.append_nil]
  rfl

namespace Parser

variable (p : Parser) {limit : Nat}

/-- Behind miscellaneous items alone the parser misses the document element. -/
theorem parse_miscs_fails (generous : Generous p.options limit) (nonThrowing : p.handler.NonThrowing)
    {miscs : List Misc} (readable : ∀ misc ∈ miscs, misc.Readable (p.dialect [])) {chars : List DecodedChar}
    (spelled : values chars = renderMiscs miscs) (short : weight chars ≤ limit) :
    (p.parse.run { rest := chars }).1 ≠ .ok () := by
  let initial : ParserState := { rest := chars }
  have counted : 0 + weight chars ≤ limit := by omega
  have fits : Fits limit initial := ⟨counted, counted, rfl⟩
  obtain ⟨s1, ran1, same1, covers1⟩ := p.accepts_emit nonThrowing .startDocument initial
  have undeclared : (scan p.parseXmlDeclarationIfPresent).run s1 = (.ok (), s1) := by
    refine run_scan_eq_ok_iff.mpr ⟨s1.rest, p.run_parseXmlDeclarationIfPresent_of_none ?_, rfl⟩
    rw [same1, show values initial.rest = renderMiscs miscs from spelled]
    rintro ⟨c, rest, isText, space⟩
    -- An element behind the items would not change how the text begins.
    have none := @Document.Readable.no_declaration p _ (readable_withA readable)
    rw [render_withA, isText, List.append_assoc] at none
    exact none ⟨c, rest ++ u32 "<a/>", rfl, space⟩
  have starts : Starts s1.rest (renderMiscs miscs) [] := by
    rw [same1]
    exact ⟨chars, (List.append_nil _).symm, spelled⟩
  obtain ⟨s2, ran2, ends, _⟩ := p.accepts_skipMisc generous nonThrowing readable (fits.after covers1) starts noMisc_nil
  have noDoctype := @run_parseDoctypeIfPresent_of_none p s2 (by rw [ends]; rfl)
  have again := @run_skipMisc_of_none p s2 (by rw [ends]; exact noMisc_nil)
  have missing : ((p.parseElement (s2.rest.length + 1)).run s2).1 ≠ .ok () := by
    unfold parseElement parseTagName
    rw [run_look_bind]
    intro returned
    obtain ⟨name, s3, named, _⟩ := bind_eq_ok.mp (Prod.ext returned rfl)
    obtain ⟨_, s4, expected, _⟩ := bind_eq_ok.mp named
    obtain ⟨after, opened, _⟩ := run_scan_eq_ok_iff.mp expected
    rw [ends] at opened
    cases opened
  intro returned
  unfold parse at returned
  rw [run_bind_of_ok ran1, run_bind_of_ok undeclared, run_bind_of_ok ran2, run_bind_of_ok noDoctype,
    run_bind_of_ok again, run_look_bind] at returned
  obtain ⟨_, s3, element, _⟩ := bind_eq_ok.mp (Prod.ext returned rfl)
  exact missing (congrArg Prod.fst element)

end Parser

/-- A text of miscellaneous items is no document. -/
theorem parseXmlDocument_miscs {options : ParserOptions} {miscs : List Misc}
    (readable : ∀ misc ∈ miscs, misc.Readable (looseDialect options.version))
    (short : (utf8 (renderMiscs miscs)).length ≤ options.maxDocumentBytes)
    (generous : Generous options (utf8 (renderMiscs miscs)).length) :
    (parseXmlDocument (utf8 (renderMiscs miscs)) .recording options).1 ≠ .ok () := by
  have legal : Legal options.version (renderMiscs miscs) := legal_renderMiscs readable
  have front : renderMiscs miscs = [] ∨ ∃ c rest, renderMiscs miscs = c :: rest ∧ c < 0x80 := by
    let p : Parser := ⟨.recording, options, {}⟩
    have whole : (Document.mk miscs emptyA none []).Readable (p.dialect []) :=
      (readable_withA readable).mono p.loose_within_dialect
    obtain ⟨c, rest, isText, small⟩ := whole.front
    rw [render_withA] at isText
    cases items : renderMiscs miscs with
    | nil => exact .inl rfl
    | cons first others =>
        rw [items, List.cons_append] at isText
        exact .inr ⟨first, others, rfl, (List.cons.inj isText).1 ▸ small⟩
  rcases front with none | front
  · rw [none]
    simp [utf8, parseXmlDocument, decodeDocument, throwParse]
  · obtain ⟨decoded, ran, spelled⟩ := @decodeDocument_utf8 [] (.inl rfl) _ options legal front short
    rw [List.nil_append] at ran
    let p : Parser := ⟨.recording, options, decoded.endLocation⟩
    have weighs : weight decoded.chars ≤ (utf8 (renderMiscs miscs)).length := by
      unfold weight
      rw [spelled]
    unfold parseXmlDocument
    rw [ran]
    exact p.parse_miscs_fails generous SaxHandler.recording_nonThrowing
      (fun misc member => (readable misc member).mono p.loose_within_dialect) spelled weighs

/-! ## Documents that survive -/

namespace Dom

@[simp] theorem Payload.isMisc_visible (payload : Payload) : payload.visible.isMisc = payload.isMisc := by
  cases payload <;> rfl

/-- One child is an element, and the others are comments and processing instructions. -/
structure HoldsBody (heap : Heap) (document : NodeRef) : Prop where
  element : (heap.links.children document).countP (heap.payloadIs Payload.isElement) = 1
  others : ∀ child ∈ heap.links.children document,
    heap.payloadIs Payload.isElement child = true ∨ heap.payloadIs Payload.isMisc child = true

theorem Shows.outermost {heap : Heap} {refs : List NodeRef} {nodes : Nodes} (shows : Shows heap refs nodes) :
    nodes.outermost.countP Payload.isElement = refs.countP (heap.payloadIs Payload.isElement) ∧
      ((∀ payload ∈ nodes.outermost, payload.isElement = true ∨ payload.isMisc = true) ↔
        ∀ child ∈ refs, heap.payloadIs Payload.isElement child = true ∨
          heap.payloadIs Payload.isMisc child = true) := by
  induction shows with
  | nil => exact ⟨rfl, iff_of_true (List.forall_mem_nil _) (List.forall_mem_nil _)⟩
  | @cons reference children refs payload below rest found inside after _ ihAfter =>
      obtain ⟨node, isNode, same⟩ := Option.map_eq_some_iff.mp found
      obtain ⟨_, rfl⟩ := Prod.mk.inj same
      simp [Nodes.outermost, List.countP_cons, ihAfter.1, ihAfter.2, Heap.payloadIs_of_nodes isNode]

theorem ShowsDocument.isBody_iff {heap : Heap} {document : NodeRef} {nodes : Nodes}
    (shown : ShowsDocument heap document nodes) : nodes.IsBody ↔ HoldsBody heap document := by
  obtain ⟨count, others⟩ := shown.shows.outermost
  constructor
  · intro body
    exact ⟨count.symm.trans body.element, others.mp body.others⟩
  · intro holds
    exact ⟨count.trans holds.element, others.mpr holds.others⟩

/-! ### Trees without hidden nodes -/

theorem Nodes.trimmed_sublist (nodes : Nodes) : nodes.trimmed.events.Sublist nodes.events := by
  induction nodes with
  | nil => exact List.Sublist.refl _
  | cons reference payload below rest ihBelow ihRest =>
      have inside : (if payload.isLeaf then Nodes.nil else below.trimmed).events.Sublist below.events := by
        split
        · exact List.nil_sublist _
        · exact ihBelow
      exact (((List.Sublist.refl _).append inside).append (List.Sublist.refl _)).append ihRest

theorem Nodes.Inner.events_eq_nil {nodes : Nodes} (inner : nodes.Inner) (none : nodes.events = []) :
    nodes = .nil := by
  cases nodes with
  | nil => rfl
  | cons reference payload below rest =>
      have isInner := inner.1
      cases payload with
      | document storage => cases isInner
      | _ => cases none

/-- Only trees without hidden nodes are as long without them. -/
theorem Nodes.Inner.trimmed_eq {nodes : Nodes} (inner : nodes.Inner)
    (long : nodes.events.length ≤ nodes.trimmed.events.length) : nodes.trimmed = nodes := by
  induction nodes with
  | nil => rfl
  | cons reference payload below rest ihBelow ihRest =>
      obtain ⟨_, innerBelow, innerRest⟩ := inner
      have shortBelow := below.trimmed_sublist.length_le
      have shortRest := rest.trimmed_sublist.length_le
      simp only [Nodes.trimmed, Nodes.events, List.length_append] at long ⊢
      cases leaf : payload.isLeaf with
      | true =>
          simp only [leaf, if_true, Nodes.events, List.length_nil] at long ⊢
          have none : below.events = [] := List.length_eq_zero_iff.mp (by omega)
          rw [innerBelow.events_eq_nil none, ihRest innerRest (by omega)]
      | false =>
          simp only [leaf, Bool.false_eq_true, if_false] at long ⊢
          rw [ihBelow innerBelow (by omega), ihRest innerRest (by omega)]

theorem Nodes.trimmed_eq_iff (nodes : Nodes) : nodes.trimmed = nodes ↔ nodes.LeavesBare := by
  induction nodes with
  | nil => exact iff_of_true rfl trivial
  | cons reference payload below rest ihBelow ihRest =>
      have none : below.references = [] ↔ below = .nil := by
        cases below <;> simp [Nodes.references]
      simp only [Nodes.trimmed, Nodes.LeavesBare, Nodes.cons.injEq, true_and, ihRest, none]
      cases payload.isLeaf with
      | true =>
          simp only [if_true, true_implies]
          constructor
          · intro both
            exact ⟨both.1.symm, both.1 ▸ trivial, both.2⟩
          · intro all
            exact ⟨all.1.symm, all.2.2⟩
      | false => simp [ihBelow]

end Dom

/-- The text written for the document is read, with this version and mode and where
no limit is met, as the very tree of the document. -/
def WrittenBack (version : XmlVersion) (mode : NamespaceMode) (heap : Heap) (document : NodeRef) : Prop :=
  ∃ written tree, (serialize document).run heap = (.ok written, heap) ∧
    (flatten document).run heap = (.ok tree, heap) ∧
    ∀ options : ParserOptions, options.version = version → options.namespaces = mode →
      ReadsBack options (writtenText written) tree

/-- Each node can be written, text is parted, the document has one element beside
comments and processing instructions, nothing is below a leaf, and no element that
is in no namespace is below one that declares a default. -/
structure Faithful (version : XmlVersion) (mode : NamespaceMode) (heap : Heap) (document : NodeRef) : Prop where
  tree : ∃ tree, (flatten document).run heap = (.ok tree, heap) ∧ Parted tree ∧
    ∀ event ∈ tree, event.Writable version mode
  body : HoldsBody heap document
  bare : LeavesBareBelow heap document
  defaults : DefaultsReach heap document

section Shown

variable {version : XmlVersion} {mode : NamespaceMode} {heap : Heap} {document : NodeRef} {nodes : Nodes}

theorem Dom.ShowsDocument.defaultsReach_iff (shown : ShowsDocument heap document nodes) (coherent : Coherent heap) :
    DefaultsReach heap document ↔ rebind [[]] nodes.events = nodes.events := by
  have rebinds := nodes.rebind_events [] [] []
  simp only [List.append_nil, rebind] at rebinds
  rw [rebinds, nodes.rebound_events_iff, shown.shows.rebound_iff coherent.forest]
  simp only [ne_eq, not_true_eq_false, false_implies, true_and, shown.mem_iff]
  rfl

theorem Dom.ShowsDocument.leavesBareBelow_iff (shown : ShowsDocument heap document nodes) :
    LeavesBareBelow heap document ↔ nodes.trimmed = nodes := by
  rw [nodes.trimmed_eq_iff, shown.shows.leavesBare_iff]
  simp only [shown.mem_iff]
  rfl

/-- A text that is read as the tree of the nodes it was written for. -/
theorem Dom.ShowsDocument.faithful_of_readsBack (shown : ShowsDocument heap document nodes) (coherent : Coherent heap)
    (flat : (flatten document).run heap = (.ok nodes.events, heap))
    (reads : ∀ options : ParserOptions, options.version = version → options.namespaces = mode →
      ReadsBack options (writtenText nodes.written) nodes.events) : Faithful version mode heap document := by
  have inner := shown.inner coherent
  let text := writtenText nodes.written
  let roomy := ParserOptions.roomy version mode (text.length + nodes.events.countP Event.isNode)
  have room : HasRoom roomy text nodes.events := hasRoom_roomy version mode text nodes.events
  obtain ⟨copy, isCopy⟩ := (reads roomy rfl rfl).returns room
  obtain ⟨fits, accepted⟩ := accepted_of_parseDocument isCopy
  -- What has been read is the tree, so all that is known of what is read holds of it.
  obtain ⟨other, isOther, copyFlat⟩ := parseDocument_of_ok fits accepted
  cases isCopy.symm.trans isOther
  have same := Except.ok.inj (congrArg Prod.fst (copyFlat.symm.trans ((reads roomy rfl rfl).shows copy isCopy)))
  obtain ⟨d, prolog, tag, body, epilog, read⟩ := exists_readAs accepted
  have writable := read.writable
  have parted := read.parted
  have shape := read.shown
  rw [same] at writable parted shape
  have trimmedWritable : ∀ event ∈ nodes.trimmed.events, event.Writable version mode :=
    fun event member => writable event (nodes.trimmed_sublist.subset member)
  have isBody : nodes.IsBody := by
    rcases nodes.isBody_of_events inner shape with isBody | miscs
    · exact isBody
    · rw [← Nodes.outermost_trimmed] at miscs
      obtain ⟨items, readable, written, _⟩ := exists_miscs inner.built_trimmed trimmedWritable miscs
      rw [Nodes.writtenText_trimmed] at written
      have refused := @parseXmlDocument_miscs roomy items readable (by rw [written]; exact room.bytes)
        (by rw [written]; exact room.generous)
      rw [written] at refused
      exact absurd accepted refused
  -- Nodes that are not written would be missing in what is read.
  have normal := (WritableTree.mk isBody trimmedWritable).parseDocument inner (rfl : roomy.version = version) rfl
  have read := Except.ok.inj (congrArg Prod.fst
    ((normal.shows copy isCopy).symm.trans ((reads roomy rfl rfl).shows copy isCopy)))
  have bare : nodes.trimmed = nodes := by
    apply inner.trimmed_eq
    have short := length_joined_le [] nodes.trimmed.events
    have none : (flushText []).length = 0 := rfl
    have lengths := congrArg List.length read
    rw [length_rebind] at lengths
    omega
  rw [bare, parted.joined_eq] at read
  exact ⟨⟨_, flat, parted, writable⟩, shown.isBody_iff.mp isBody, shown.leavesBareBelow_iff.mpr bare,
    (shown.defaultsReach_iff coherent).mpr read⟩

end Shown

/-- In every state that clients can reach, a document survives being serialized and
parsed again exactly if it is faithful. -/
theorem writtenBack_iff {heap : Heap} (reachable : Reachable heap) {document : NodeRef}
    (isDocument : heap.isDocument document) (version : XmlVersion) (mode : NamespaceMode) :
    WrittenBack version mode heap document ↔ Faithful version mode heap document := by
  have coherent := reachable.coherent
  obtain ⟨nodes, shown⟩ := coherent.exists_showsDocument document
  obtain ⟨_, flat, ran⟩ := shown.displays isDocument
  constructor
  · intro back
    obtain ⟨written, tree, ranWritten, flatTree, reads⟩ := back
    cases ran.symm.trans ranWritten
    cases flat.symm.trans flatTree
    exact shown.faithful_of_readsBack coherent flat reads
  · intro faithful
    obtain ⟨tree, flatTree, parted, writable⟩ := faithful.tree
    cases flat.symm.trans flatTree
    have bare := shown.leavesBareBelow_iff.mp faithful.bare
    have isBody := shown.isBody_iff.mpr faithful.body
    refine ⟨_, _, ran, flat, fun options isVersion isMode => ?_⟩
    have reads := (WritableTree.mk isBody (bare.symm ▸ writable)).parseDocument (shown.inner coherent) isVersion isMode
    rw [bare, parted.joined_eq, (shown.defaultsReach_iff coherent).mp faithful.defaults] at reads
    exact reads

theorem writtenBack_iff_sample : ¬ WrittenBack .xml10 .enabled (reached adjacentTexts) 0 := by
  intro back
  obtain ⟨⟨tree, flat, parted, _⟩, _⟩ :=
    (@writtenBack_iff _ (reachable_reached adjacentTexts) 0 rfl .xml10 .enabled).mp back
  have known : ((flatten 0).run (reached adjacentTexts)).1 = .ok [.startElement plainName [],
      .characters (ascii "x"), .characters (ascii "y"), .comment (ascii "c"), .endElement plainName] := by
    decide +kernel
  rw [flat] at known
  have isTree := Except.ok.inj known
  rw [isTree] at parted
  have apart := (List.isChain_cons_cons.mp (List.isChain_cons_cons.mp parted.apart).2).1
  exact apart ⟨rfl, rfl⟩

end XmlParser
