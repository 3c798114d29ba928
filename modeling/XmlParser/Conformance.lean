import XmlParser.Dialects

/-! The parser against the grammar of the recommendations, for documents
without XML declaration and document type declaration. -/

set_option autoImplicit false

namespace XmlParser

open Grammar

/-! ## Names without namespace processing -/

theorem namedIn_disabled {d : Dialect} {tag : Tag} (readable : tag.Readable d) (tags : List StartTag) :
    NamedIn .disabled tags tag.startTag := by
  refine ⟨fun enabled => (nomatch enabled), fun _ _ enabled => (nomatch enabled), ?_⟩
  have plain : tag.startTag.plain .disabled = tag.startTag.attributes :=
    List.filter_eq_self.mpr fun _ _ => rfl
  have shown : (attributesIn .disabled tags tag.startTag).map (fun view => view.name.expanded) =
      (tag.attributes.map Attribute.name).map fun name => (([] : Bytes), utf8 name) := by
    unfold attributesIn
    rw [plain]
    simp [Tag.startTag, nameIn, QualifiedName.expanded, Function.comp_def]
  rw [shown]
  refine readable.distinct.map_on ?_
  intro left isLeft right isRight same
  obtain ⟨first, memberFirst, rfl⟩ := List.mem_map.mp isLeft
  obtain ⟨second, memberSecond, rfl⟩ := List.mem_map.mp isRight
  exact utf8_injective ((readable.attributes first memberFirst).name.legal .xml10)
    ((readable.attributes second memberSecond).name.legal .xml10) (congrArg Prod.snd same)

theorem named_disabled {d : Dialect} {content : Content} (readable : content.Readable d)
    (tags : List StartTag) : content.Named .disabled tags := by
  induction content generalizing tags with
  | nil => exact trivial
  | piece item next ih => exact ih readable.2 tags
  | comment body next ih => exact ih readable.2 tags
  | cdata body next ih => exact ih readable.2 tags
  | instruction target gap data next ih => exact ih readable.2 tags
  | element tag children space next ihChildren ihNext =>
      obtain ⟨readableTag, readableChildren, _, readableNext⟩ := readable
      exact ⟨namedIn_disabled readableTag _, ihChildren readableChildren _, ihNext readableNext tags⟩
  | emptyElement tag next ih => exact ⟨namedIn_disabled readable.1 _, ih readable.2 tags⟩

/-! ## Parsing undoes rendering -/

/-- The parser reads a document of the loose dialect from its encoding. -/
theorem parseXmlDocument_loose {document : Document} {handler : SaxHandler} {options : ParserOptions}
    (readable : document.Readable (looseDialect options.version))
    (named : document.Named options.namespaces) (nonThrowing : handler.NonThrowing) {mark : Bytes}
    (isMark : IsUtf8Mark mark)
    (short : (mark ++ utf8 document.render).length ≤ options.maxDocumentBytes)
    (generous : Generous options (utf8 document.render).length) :
    ∃ s, parseXmlDocument (mark ++ utf8 document.render) handler options = (.ok (), s) ∧
      s.events.map Event.withoutLocations = document.events options.namespaces := by
  have front : ∃ c rest, document.render = c :: rest ∧ c < 0x80 := by
    let p : Parser := ⟨handler, options, {}⟩
    exact Document.Readable.front (readable.mono p.loose_within_dialect)
  obtain ⟨decoded, ran, spelled⟩ := decodeDocument_utf8 isMark readable.legal front short
  let p : Parser := ⟨handler, options, decoded.endLocation⟩
  have weighs : weight decoded.chars ≤ (utf8 document.render).length := by
    unfold weight
    rw [spelled]
  obtain ⟨s, parsed, events⟩ := p.parse_accepts_document generous nonThrowing
    (readable.mono p.loose_within_dialect) named spelled weighs
  refine ⟨s, ?_, events⟩
  unfold parseXmlDocument
  rw [ran]
  exact parsed

/-- Every spelling of an XML 1.0 document is read as that document. -/
theorem parse_render (document : Document) (readable : document.Readable Dialect.xml10)
    (handler : SaxHandler) (nonThrowing : handler.NonThrowing) (options : ParserOptions)
    (version : options.version = .xml10) (disabled : options.namespaces = .disabled) (mark : Bytes)
    (isMark : IsUtf8Mark mark)
    (short : (mark ++ utf8 document.render).length ≤ options.maxDocumentBytes)
    (generous : Generous options (utf8 document.render).length) :
    ∃ s, parseXmlDocument (mark ++ utf8 document.render) handler options = (.ok (), s) ∧
      s.events.map Event.withoutLocations = document.events .disabled := by
  have loose : document.Readable (looseDialect options.version) := by
    rw [version]
    exact readable.mono (recommended_within_loose .xml10)
  have named : document.Named options.namespaces := by
    rw [disabled]
    exact named_disabled loose.element []
  rw [← disabled]
  exact parseXmlDocument_loose loose named nonThrowing isMark short generous

theorem parse_render_sample :
    ∃ s, parseXmlDocument ([] ++ utf8 (u32 "<a b='&#65;'>t</a>")) .recording
        { namespaces := .disabled } = (.ok (), s) ∧
      s.events.map Event.withoutLocations =
        [.startDocument,
          .startElement ⟨[], ascii "a", ascii "a"⟩ [⟨⟨[], ascii "b", ascii "b"⟩, ascii "A", {}⟩],
          .characters (ascii "t"), .endElement ⟨[], ascii "a", ascii "a"⟩, .endDocument] := by
  let attr : Attribute := ⟨[0x20], [0x62], [], [], 0x27, [.reference [0x23, 0x36, 0x35] [0x41]]⟩
  let content : Content := .piece (.literal 0x74) .nil
  let document : Document := ⟨[], ⟨[0x61], [attr], []⟩, some (content, []), []⟩
  have denotes : Denotes Char10 [0x23, 0x36, 0x35] [0x41] :=
    ⟨0x41, rfl, .inr ⟨rfl, isValidXml10Char_iff.mp rfl⟩⟩
  have readableAttribute : attr.Readable Dialect.xml10 := by
    refine ⟨?_, ⟨.inr (.inl (by decide)), List.forall_mem_nil _⟩, List.forall_mem_nil _,
      List.forall_mem_nil _, .inl rfl, ?_⟩
    · exact List.forall_mem_singleton.mpr (.inl rfl)
    · exact List.forall_mem_singleton.mpr ⟨by decide, denotes⟩
  have readableTag : Tag.Readable Dialect.xml10 ⟨[0x61], [attr], []⟩ := by
    refine ⟨⟨.inr (.inl (by decide)), List.forall_mem_nil _⟩,
      List.forall_mem_singleton.mpr readableAttribute, ?_, ?_, List.forall_mem_nil _⟩
    · intro first member
      cases member
      exact List.cons_ne_nil _ _
    · exact List.nodup_singleton _
  have readableContent : content.Readable Dialect.xml10 :=
    ⟨⟨isValidXml10Char_iff.mp rfl, by unfold ExcludedFromText; decide⟩, trivial⟩
  have readable : document.Readable Dialect.xml10 :=
    ⟨List.forall_mem_nil _, ⟨readableTag, readableContent, List.forall_mem_nil _, trivial⟩,
      List.forall_mem_nil _⟩
  exact parse_render document readable .recording SaxHandler.recording_nonThrowing
    { namespaces := .disabled } rfl rfl [] (.inl rfl) (by decide)
    ⟨by decide, by decide, by decide, by decide⟩

/-! ## Acceptance against the grammar -/

/-- The bytes are an encoding of the text for a parser of that version. -/
def Encodes (version : XmlVersion) (xml : Bytes) (text : Text) : Prop :=
  ∃ options decoded, options.version = version ∧ decodeDocument xml options = .ok decoded ∧
    values decoded.chars = text

/-- Whatever accepts the document without namespace processing has read it as
the recommendation does. -/
def AcceptedSoundly (version : XmlVersion) (xml : Bytes) (text : Text) : Prop :=
  ∀ (handler : SaxHandler) (options : ParserOptions) (s : ParserState), options.version = version →
    options.namespaces = .disabled → parseXmlDocument xml handler options = (.ok (), s) →
    ∃ document : Document, document.Conforms (recommendedDialect version) ∧ document.render = text ∧
      s.events.map Event.withoutLocations = document.events .disabled

/-- No way of reading the text in the loose dialect needs what that dialect lets pass. -/
def ReadStrictly (version : XmlVersion) (text : Text) : Prop :=
  ∀ document : Document, document.Readable (looseDialect version) → document.render = text →
    StrictDocument version document

theorem decodeDocument_of_version {xml : Bytes} {options others : ParserOptions}
    {decoded : DecodedDocument} (version : others.version = options.version)
    (short : xml.length ≤ others.maxDocumentBytes) (ran : decodeDocument xml options = .ok decoded) :
    decodeDocument xml others = .ok decoded := by
  have long : ¬ xml.length > others.maxDocumentBytes := Nat.not_lt.mpr short
  unfold decodeDocument at ran ⊢
  split at ran
  · cases ran
  · rename_i nonempty
    rw [if_neg nonempty, if_neg long]
    split at ran
    · cases ran
    · unfold decodeUtf8 decodeUtf16 at ran ⊢
      rw [version]
      exact ran

theorem decodeDocument_short {xml : Bytes} {options : ParserOptions} {decoded : DecodedDocument}
    (ran : decodeDocument xml options = .ok decoded) : xml.length ≤ options.maxDocumentBytes := by
  unfold decodeDocument at ran
  split at ran
  · cases ran
  split at ran
  · cases ran
  · rename_i short
    exact Nat.le_of_not_lt short

/-- An encoding is of one text only. -/
theorem Encodes.values_eq {version : XmlVersion} {xml : Bytes} {text : Text}
    (encodes : Encodes version xml text) {options : ParserOptions}
    (same : options.version = version) {decoded : DecodedDocument}
    (ran : decodeDocument xml options = .ok decoded) : values decoded.chars = text := by
  obtain ⟨others, first, rfl, decodedFirst, rfl⟩ := encodes
  have again := decodeDocument_of_version same (decodeDocument_short ran) decodedFirst
  rw [ran] at again
  cases again
  rfl

/-- Options with every limit the same, for documents without namespaces. -/
def evenOptions (version : XmlVersion) (limit : Nat) : ParserOptions where
  version := version
  namespaces := .disabled
  maxDocumentBytes := limit
  maxDepth := limit
  maxTokenBytes := limit
  maxAttributesPerElement := limit
  maxEntityExpansions := limit

theorem evenOptions_generous {version : XmlVersion} {limit bound : Nat} (enough : bound ≤ limit) :
    Generous (evenOptions version limit) bound :=
  ⟨enough, enough, enough, enough⟩

/-- An encoding of a loose document is accepted under large enough limits. -/
theorem accepts_encoding {version : XmlVersion} {xml : Bytes} {document : Document}
    (encodes : Encodes version xml document.render)
    (readable : document.Readable (looseDialect version)) :
    ∃ options s, options.version = version ∧ options.namespaces = .disabled ∧
      parseXmlDocument xml .recording options = (.ok (), s) := by
  obtain ⟨others, decoded, rfl, ran, spelled⟩ := encodes
  let limit := xml.length + weight decoded.chars
  let options := evenOptions others.version limit
  have decodedHere : decodeDocument xml options = .ok decoded :=
    decodeDocument_of_version (show options.version = others.version from rfl)
      (Nat.le_add_right _ _) ran
  let p : Parser := ⟨.recording, options, decoded.endLocation⟩
  obtain ⟨s, parsed, _⟩ := p.parse_accepts_document (evenOptions_generous (Nat.le_refl limit))
    SaxHandler.recording_nonThrowing (readable.mono p.loose_within_dialect)
    (named_disabled readable.element []) spelled (Nat.le_add_left _ _)
  refine ⟨options, s, rfl, rfl, ?_⟩
  unfold parseXmlDocument
  rw [decodedHere]
  exact parsed

theorem readStrictly_of_acceptedSoundly {version : XmlVersion} {xml : Bytes} {text : Text}
    (encodes : Encodes version xml text) (soundly : AcceptedSoundly version xml text) :
    ReadStrictly version text := by
  intro document readable spelled
  subst spelled
  obtain ⟨options, s, sameVersion, disabled, accepted⟩ := accepts_encoding encodes readable
  obtain ⟨other, conforms, same, _⟩ := soundly .recording options s sameVersion disabled accepted
  obtain ⟨readableOther, strict⟩ := conforms_iff.mp conforms
  rw [← document_unique (looseDialect_functional version) readableOther readable same]
  exact strict

theorem HasDoctype.mono {d e : Dialect} (within : d.Within e) {text : Text}
    (doctype : HasDoctype d text) : HasDoctype e text := by
  obtain ⟨miscs, rest, readable, spelled⟩ := doctype
  exact ⟨miscs, rest, fun misc member => (readable misc member).mono within, spelled⟩

theorem acceptedSoundly_of_readStrictly {version : XmlVersion} {xml : Bytes} {text : Text}
    (encodes : Encodes version xml text) (noDeclaration : ¬ HasXmlDeclaration text)
    (noDoctype : ¬ HasDoctype (looseDialect version) text) (strictly : ReadStrictly version text) :
    AcceptedSoundly version xml text := by
  intro handler options s same disabled accepted
  unfold parseXmlDocument at accepted
  cases ran : decodeDocument xml options with
  | error error =>
      rw [ran] at accepted
      cases accepted
  | ok decoded =>
      rw [ran] at accepted
      have spelled := encodes.values_eq same ran
      subst same
      let p : Parser := ⟨handler, options, decoded.endLocation⟩
      have none : ¬ HasDoctype (p.dialect []) (values decoded.chars) := by
        rw [spelled]
        exact fun doctype => noDoctype (doctype.mono p.dialect_within_loose)
      obtain ⟨document, readable, _, rendered, events⟩ := p.parse_reads_document
        (decodeDocument_legal ran) (spelled ▸ noDeclaration) none accepted
      have loose := readable.mono p.dialect_within_loose
      have strict := strictly document loose (rendered.trans spelled)
      refine ⟨document, conforms_iff.mpr ⟨loose, strict⟩, rendered.trans spelled, ?_⟩
      rw [events, show p.options.namespaces = .disabled from disabled]

/-- The parser accepts soundly exactly the texts that need nothing of what the
loose dialect lets pass. -/
theorem acceptedSoundly_iff (version : XmlVersion) (xml : Bytes) (text : Text)
    (encodes : Encodes version xml text) (noDeclaration : ¬ HasXmlDeclaration text)
    (noDoctype : ¬ HasDoctype (looseDialect version) text) :
    AcceptedSoundly version xml text ↔ ReadStrictly version text :=
  ⟨readStrictly_of_acceptedSoundly encodes,
    acceptedSoundly_of_readStrictly encodes noDeclaration noDoctype⟩

/-- A text that begins with an element has neither declaration. -/
theorem undeclared_of_element {d : Dialect} {text : Text} (element : markOf text = .element) :
    ¬ HasXmlDeclaration text ∧ ¬ HasDoctype d text := by
  constructor
  · intro declared
    obtain ⟨c, rest, rfl, _⟩ := declared
    cases element
  · intro doctype
    obtain ⟨miscs, rest, readable, rfl⟩ := doctype
    cases miscs with
    | nil => cases element
    | cons misc miscs =>
        rw [renderMiscs_cons, List.append_assoc, markOf_misc (readable misc List.mem_cons_self)] at element
        cases misc with
        | space c => cases element
        | comment body => cases element
        | instruction target gap data => cases element

theorem encodes_utf8 {version : XmlVersion} {document : Document}
    (readable : document.Readable (looseDialect version)) :
    Encodes version (utf8 document.render) document.render := by
  let options := evenOptions version (utf8 document.render).length
  let p : Parser := ⟨.recording, options, {}⟩
  have front := Document.Readable.front (readable.mono p.loose_within_dialect)
  obtain ⟨decoded, ran, spelled⟩ : ∃ decoded,
      decodeDocument ([] ++ utf8 document.render) options = .ok decoded ∧
        values decoded.chars = document.render :=
    decodeDocument_utf8 (.inl rfl) readable.legal front (Nat.le_refl _)
  exact ⟨options, decoded, rfl, ran, spelled⟩

/-- Two attributes, a reference in a value, one in the content and an instruction. -/
def mixedDocument : Document :=
  ⟨[], ⟨[0x61], [⟨[0x20], [0x62], [], [], 0x27, [.reference [0x6C, 0x74] [0x3C], .literal 0x31]⟩,
      ⟨[0x20], [0x63], [], [], 0x22, [.literal 0x32]⟩], []⟩,
    some (.piece (.reference [0x23, 0x36, 0x35] [0x41]) (.instruction [0x70] [0x20] [0x71] .nil), []), []⟩

theorem mixedDocument_render : mixedDocument.render = u32 "<a b='&lt;1' c=\"2\">&#65;<?p q?></a>" := by decide

theorem mixedDocument_conforms : mixedDocument.Conforms (recommendedDialect .xml10) := by
  have letter : ∀ {c}, 0x61 ≤ c ∧ c ≤ 0x7A → Name [c] := fun inside => ⟨.inr (.inl inside), List.forall_mem_nil _⟩
  have space : Spaces [0x20] := List.forall_mem_singleton.mpr (.inl rfl)
  have char : ∀ {c}, isValidXml10Char c = true → Char10 c := isValidXml10Char_iff.mp
  have first : Attribute.Readable Dialect.xml10
      ⟨[0x20], [0x62], [], [], 0x27, [.reference [0x6C, 0x74] [0x3C], .literal 0x31]⟩ := by
    refine ⟨space, letter (by decide), List.forall_mem_nil _, List.forall_mem_nil _, .inl rfl, ?_⟩
    refine List.forall_mem_cons.mpr ⟨⟨by decide, 0x3C, rfl, .inl rfl⟩, List.forall_mem_singleton.mpr ⟨char rfl, ?_⟩⟩
    unfold ExcludedFromValue
    decide
  have second : Attribute.Readable Dialect.xml10 ⟨[0x20], [0x63], [], [], 0x22, [.literal 0x32]⟩ := by
    refine ⟨space, letter (by decide), List.forall_mem_nil _, List.forall_mem_nil _, .inr rfl, ?_⟩
    refine List.forall_mem_singleton.mpr ⟨char rfl, ?_⟩
    unfold ExcludedFromValue
    decide
  have tag : mixedDocument.tag.Readable Dialect.xml10 := by
    refine ⟨letter (by decide), List.forall_mem_cons.mpr ⟨first, List.forall_mem_singleton.mpr second⟩, ?_,
      by decide, List.forall_mem_nil _⟩
    intro attr member
    cases member
    exact List.cons_ne_nil _ _
  have instruction : InstructionReadable Dialect.xml10 [0x70] [0x20] [0x71] := by
    refine ⟨letter (by decide), ?_, space, List.forall_mem_singleton.mpr (char rfl), by decide, ?_, nofun⟩
    · rintro ⟨x, m, l, same, _⟩
      cases same
    · intro c isFirst
      cases isFirst
      unfold IsSpace
      decide
  have reference : Denotes Char10 [0x23, 0x36, 0x35] [0x41] := ⟨0x41, rfl, .inr ⟨rfl, char rfl⟩⟩
  refine ⟨⟨List.forall_mem_nil _, ⟨tag, ⟨⟨by decide, reference⟩, instruction, trivial⟩, List.forall_mem_nil _, trivial⟩,
    List.forall_mem_nil _⟩, List.forall_mem_nil _, ?_, List.forall_mem_nil _⟩
  refine ⟨?_, ⟨by decide, nofun, trivial⟩, trivial⟩
  exact List.forall_mem_cons.mpr ⟨List.cons_ne_nil _ _, List.forall_mem_singleton.mpr (List.cons_ne_nil _ _)⟩

theorem acceptedSoundly_iff_sample :
    AcceptedSoundly .xml10 (utf8 (u32 "<a b='&lt;1' c=\"2\">&#65;<?p q?></a>"))
      (u32 "<a b='&lt;1' c=\"2\">&#65;<?p q?></a>") := by
  obtain ⟨readable, strict⟩ := conforms_iff.mp mixedDocument_conforms
  have undeclared : ¬ HasXmlDeclaration mixedDocument.render ∧
      ¬ HasDoctype (looseDialect .xml10) mixedDocument.render := undeclared_of_element (by decide)
  rw [← mixedDocument_render]
  refine (acceptedSoundly_iff .xml10 _ _ (encodes_utf8 readable) undeclared.1 undeclared.2).mpr ?_
  intro other readableOther same
  rw [document_unique (looseDialect_functional .xml10) readableOther readable same]
  exact strict

/-- Attributes that run together are accepted. -/
theorem not_acceptedSoundly :
    Encodes .xml10 (utf8 (u32 "<a b='1'c='2'/>")) (u32 "<a b='1'c='2'/>") ∧
      ¬ HasXmlDeclaration (u32 "<a b='1'c='2'/>") ∧
      ¬ HasDoctype (looseDialect .xml10) (u32 "<a b='1'c='2'/>") ∧
      ¬ AcceptedSoundly .xml10 (utf8 (u32 "<a b='1'c='2'/>")) (u32 "<a b='1'c='2'/>") := by
  let first : Attribute := ⟨[0x20], [0x62], [], [], 0x27, [.literal 0x31]⟩
  let second : Attribute := ⟨[], [0x63], [], [], 0x27, [.literal 0x32]⟩
  let document : Document := ⟨[], ⟨[0x61], [first, second], []⟩, none, []⟩
  have readableFirst : first.Readable (looseDialect .xml10) := by
    refine ⟨?_, ⟨.inr (.inl (by decide)), List.forall_mem_nil _⟩, List.forall_mem_nil _,
      List.forall_mem_nil _, .inl rfl, ?_⟩
    · exact List.forall_mem_singleton.mpr (.inl rfl)
    · exact List.forall_mem_singleton.mpr ⟨rfl, by unfold ExcludedFromValue; decide⟩
  have readableSecond : second.Readable (looseDialect .xml10) := by
    refine ⟨List.forall_mem_nil _, ⟨.inr (.inl (by decide)), List.forall_mem_nil _⟩,
      List.forall_mem_nil _, List.forall_mem_nil _, .inl rfl, ?_⟩
    exact List.forall_mem_singleton.mpr ⟨rfl, by unfold ExcludedFromValue; decide⟩
  have readableTag : Tag.Readable (looseDialect .xml10) ⟨[0x61], [first, second], []⟩ := by
    refine ⟨⟨.inr (.inl (by decide)), List.forall_mem_nil _⟩,
      List.forall_mem_cons.mpr ⟨readableFirst, List.forall_mem_singleton.mpr readableSecond⟩, ?_, ?_,
      List.forall_mem_nil _⟩
    · intro attr member
      cases member
      exact List.cons_ne_nil _ _
    · decide
  have readable : document.Readable (looseDialect .xml10) :=
    ⟨List.forall_mem_nil _, ⟨readableTag, trivial⟩, List.forall_mem_nil _⟩
  have encodes : Encodes .xml10 (utf8 (u32 "<a b='1'c='2'/>")) (u32 "<a b='1'c='2'/>") :=
    encodes_utf8 readable
  have undeclared : ¬ HasXmlDeclaration (u32 "<a b='1'c='2'/>") ∧
      ¬ HasDoctype (looseDialect .xml10) (u32 "<a b='1'c='2'/>") :=
    undeclared_of_element (by decide)
  refine ⟨encodes, undeclared.1, undeclared.2, fun soundly => ?_⟩
  have strict := readStrictly_of_acceptedSoundly encodes soundly document readable rfl
  exact strict.element.1.1 second (by decide) rfl

end XmlParser
