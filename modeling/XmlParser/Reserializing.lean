import XmlParser.WrittenBack

/-! Parsing and serializing in turns: after one turn the tree stays the same, and
after two the text. -/

set_option autoImplicit false

namespace XmlParser

open XmlParser.Computation Comp Dom

/-! ## Defaults that are written already -/

theorem rebound_rebound (default : Bytes) (name : QualifiedName) :
    rebound default (rebound default name) = rebound default name := by
  unfold rebound
  cases plain : (prefixOf name.qualifiedName).isEmpty with
  | false => simp [plain]
  | true =>
      cases unbound : name.uri.isEmpty with
      | false => simp [unbound]
      | true => simp [plain]

theorem innerDefault_rebound (default : Bytes) (name : QualifiedName) :
    innerDefault default (rebound default name) = innerDefault default name := by
  unfold rebound
  cases plain : (prefixOf name.qualifiedName).isEmpty with
  | false => simp
  | true =>
      cases unbound : name.uri.isEmpty with
      | false => simp
      | true => simp [innerDefault, plain, unbound]

theorem rebind_rebind (defaults : List Bytes) (events : List Event) :
    rebind defaults (rebind defaults events) = rebind defaults events := by
  induction events generalizing defaults with
  | nil => rfl
  | cons event rest ih =>
      cases event with
      | startElement name views => simp [rebind, rebound_rebound, innerDefault_rebound, ih]
      | endElement name => simp [rebind, rebound_rebound, ih]
      | _ => simp [rebind, ih]

/-! ## Turns -/

/-- The text is read as this tree, and serializing that tree gives this result. -/
structure Rewrites (version : XmlVersion) (mode : NamespaceMode) (text : Bytes) (tree : List Event)
    (result : Bytes) : Prop where
  reads : ∀ options : ParserOptions, options.version = version → options.namespaces = mode →
    ReadsBack options text tree
  writes : ∀ options : ParserOptions, options.version = version → options.namespaces = mode →
    ∀ copy, (parseDocument text options).1 = .ok copy → ∃ written,
      (serialize copy).run (parseDocument text options).2 = (.ok written, (parseDocument text options).2) ∧
        writtenText written = result

/-- What is written for a document that `parse` has made is the text of its tree. -/
theorem run_serialize_parsed {xml : Bytes} {options : ParserOptions} {document : NodeRef} {tree : List Event}
    (returned : (parseDocument xml options).1 = .ok document)
    (flat : (flatten document).run (parseDocument xml options).2 = (.ok tree, (parseDocument xml options).2)) :
    ∃ written, (serialize document).run (parseDocument xml options).2 = (.ok written, (parseDocument xml options).2) ∧
      writtenText written = write false tree := by
  obtain ⟨fits, accepted⟩ := accepted_of_parseDocument returned
  obtain ⟨found, heap, refs, nodes, parsed, holds⟩ := parseDocument_holds fits accepted
  rw [parsed] at returned flat ⊢
  cases returned
  obtain ⟨_, written, ran, text⟩ := holds.run_serialize
  cases holds.run_flatten.symm.trans flat
  exact ⟨written, ran, text⟩

theorem rewrites_of_reads {version : XmlVersion} {mode : NamespaceMode} {text : Bytes} {tree : List Event}
    (reads : ∀ options : ParserOptions, options.version = version → options.namespaces = mode →
      ReadsBack options text tree) : Rewrites version mode text tree (write false tree) where
  reads := reads
  writes options isVersion isMode copy isCopy :=
    run_serialize_parsed isCopy ((reads options isVersion isMode).shows copy isCopy)

/-- The text of a parsed document is read as its tree inside the written defaults. -/
theorem reads_written {xml : Bytes} {options : ParserOptions} {document : NodeRef}
    (returned : (parseDocument xml options).1 = .ok document) {tree : List Event}
    (flat : (flatten document).run (parseDocument xml options).2 = (.ok tree, (parseDocument xml options).2)) :
    ∀ again : ParserOptions, again.version = options.version → again.namespaces = options.namespaces →
      ReadsBack again (write false tree) (rebind [[]] tree) := by
  obtain ⟨nodes, written, _, _, _, ran, flatNodes, parses⟩ := parseDocument_written returned
  cases flatNodes.symm.trans flat
  obtain ⟨other, ranOther, text⟩ := run_serialize_parsed returned flat
  cases ran.symm.trans ranOther
  have rebinds := nodes.rebind_events [] [] []
  simp only [List.append_nil, rebind] at rebinds
  rw [← text, rebinds]
  intro again isVersion isMode
  refine readsBack_of_roomy ?_ isVersion isMode
  intro roomy sameVersion sameMode room
  refine parses roomy sameVersion sameMode ⟨room.generous, room.bytes, ?_⟩
  rw [← isNode_rebind [[]], rebinds]
  exact room.nodes

/-- Parsing what has been written for a parsed document, and serializing again, gives
a tree and a text that further turns do not change; without namespace processing the
first text is that text already. -/
theorem reserializing_converges {xml : Bytes} {options : ParserOptions} {document : NodeRef}
    (returned : (parseDocument xml options).1 = .ok document) :
    ∃ written tree second,
      (serialize document).run (parseDocument xml options).2 = (.ok written, (parseDocument xml options).2) ∧
      Rewrites options.version options.namespaces (writtenText written) tree second ∧
      Rewrites options.version options.namespaces second tree second ∧
      (options.namespaces = .disabled → second = writtenText written) := by
  obtain ⟨nodes, written, _, _, events, ran, flat, _⟩ := parseDocument_written returned
  obtain ⟨other, ranOther, text⟩ := run_serialize_parsed returned flat
  cases ran.symm.trans ranOther
  have first := reads_written returned flat
  rw [← text] at first
  -- With enough room the first text is parsed, and what holds of any document holds of that one.
  let tree := rebind [[]] nodes.events
  let roomy := ParserOptions.roomy options.version options.namespaces
    ((writtenText written).length + tree.countP Event.isNode)
  have reads : ReadsBack roomy (writtenText written) tree := first roomy rfl rfl
  obtain ⟨copy, isCopy⟩ := reads.returns (hasRoom_roomy options.version options.namespaces _ tree)
  have again := reads_written isCopy (reads.shows copy isCopy)
  rw [show rebind [[]] tree = tree from rebind_rebind [[]] nodes.events] at again
  refine ⟨written, tree, write false tree, ran, rewrites_of_reads first, rewrites_of_reads again, ?_⟩
  intro disabled
  obtain ⟨_, accepted⟩ := accepted_of_parseDocument returned
  obtain ⟨d, prolog, tag, body, epilog, read⟩ := exists_readAs accepted
  have unbound : ∀ event ∈ nodes.events, event.Unbound := by
    rw [events, read.shown, disabled]
    exact List.forall_mem_append.mpr ⟨unbound_miscEvents _,
      List.forall_mem_append.mpr ⟨unbound_content _ _ _, unbound_miscEvents _⟩⟩
  rw [show tree = nodes.events from rebind_unbound unbound (List.forall_mem_singleton.mpr rfl), text]

/-- The first text of this document is not the last one. -/
theorem reserializing_converges_sample :
    ∃ tree second, Rewrites .xml10 .enabled (ascii "<a xmlns=\"u\"><b/></a>") tree second ∧
      Rewrites .xml10 .enabled second tree second := by
  obtain ⟨written, tree, second, ran, first, again, _⟩ :=
    @reserializing_converges undeclaredDefault {} 3 (by decide +kernel)
  have known : ((serialize 3).run (parseDocument undeclaredDefault {}).2).1.map writtenText =
      .ok (ascii "<a xmlns=\"u\"><b/></a>") := by decide +kernel
  rw [ran] at known
  rw [show writtenText written = _ from Except.ok.inj known] at first
  exact ⟨tree, second, first, again⟩

end XmlParser
