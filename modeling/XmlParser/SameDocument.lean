import XmlParser.DomBuilding
import XmlParser.EarlyStop
import XmlParser.Limits
import XmlParser.WellNested

/-! The document that `parse` returns shows the calls that a recording handler gets. -/

set_option autoImplicit false

namespace XmlParser

open XmlParser.Computation Comp

/-! ## The calls of a recording handler can be stored -/

namespace Parser

variable {p : Parser}

theorem localName_of_resolveName {σ : Type} {scopes : List NamespaceScope} {qname : Bytes}
    {isElement : Bool} {location : SourceLocation} {s t : σ} {name : QualifiedName} (proper : qname ≠ [])
    (ran : (p.resolveName scopes qname isElement location).run s = (.ok name, t)) :
    name.localName ≠ [] := by
  unfold resolveName at ran
  split at ran
  · cases ran
    exact proper
  split at ran
  · cases ran
    exact proper
  rename_i colon _
  dsimp only at ran
  split at ran
  · cases ran
  rename_i split
  split at ran
  · cases ran
  cases ran
  intro empty
  have short : qname.length ≤ colon + 1 := List.drop_eq_nil_iff.mp empty
  rw [Bool.or_eq_true, Bool.or_eq_true, decide_eq_true_eq, decide_eq_true_eq] at split
  exact split (.inl (.inr short))

/-- The expanded names of the views of a tag are new and distinct. -/
theorem expanded_of_attributeViews {σ : Type} {scopes : List NamespaceScope}
    {attributes : List RawAttribute} {seen : List (Bytes × Bytes)} {s t : σ} {views : List AttributeView}
    (ran : (p.attributeViews scopes attributes seen).run s = (.ok views, t)) :
    (views.map fun view => view.name.expanded).Nodup ∧
      ∀ view ∈ views, view.name.expanded ∉ seen := by
  induction attributes generalizing seen views s t with
  | nil =>
      cases ran
      exact ⟨.nil, fun _ member => nomatch member⟩
  | cons raw attributes ih =>
      unfold attributeViews at ran
      split at ran
      · exact ih ran
      obtain ⟨name, next, resolved, rest⟩ := bind_eq_ok.mp ran
      split at rest
      · cases rest
      rename_i new
      obtain ⟨others, after, viewed, last⟩ := bind_eq_ok.mp rest
      cases last
      obtain ⟨distinct, later⟩ := ih viewed
      refine ⟨List.nodup_cons.mpr ⟨fun member => ?_, distinct⟩, fun view member => ?_⟩
      · obtain ⟨view, isView, same⟩ := List.mem_map.mp member
        exact later view isView (same ▸ List.mem_cons_self)
      · cases List.mem_cons.mp member with
        | inl first =>
            subst first
            exact fun found => new (List.contains_iff_mem.mpr found)
        | inr other => exact fun found => later view other (List.mem_cons_of_mem _ found)

theorem NamesResolved.storable {event : Event} (resolves : p.NamesResolved event) : event.Storable := by
  cases event with
  | startElement name views =>
      obtain ⟨proper, ⟨_, _, _, _, resolved⟩, _, _, _, _, viewed⟩ := resolves
      exact ⟨localName_of_resolveName proper resolved, (expanded_of_attributeViews viewed).1⟩
  | _ => trivial

end Parser

/-- The calls of a recording handler come in the order of a document and can be
stored. -/
theorem recording_storable (xml : Bytes) (options : ParserOptions) :
    (∃ phase, Phase.after (parseXmlDocument xml .recording options).2.events = some phase ∧
        ((parseXmlDocument xml .recording options).1 = .ok () → phase = .finished)) ∧
      ∀ event ∈ (parseXmlDocument xml .recording options).2.events, event.Storable := by
  constructor
  · unfold parseXmlDocument
    cases decodeDocument xml options with
    | error error => exact ⟨.initial, rfl, nofun⟩
    | ok document =>
        obtain ⟨returns, throws⟩ := Parser.triple_parse ⟨.recording, options, document.endLocation⟩
          SaxHandler.recording_nonThrowing { rest := document.chars } (at_initial document.chars)
        dsimp only
        cases ran : (Parser.mk .recording options document.endLocation).parse.run
            { rest := document.chars } with
        | mk outcome final =>
            cases outcome with
            | ok value => exact ⟨.finished, (returns value final ran).toTracks.order, fun _ => rfl⟩
            | error halt =>
                obtain ⟨phase, _, tracks⟩ := throws halt final ran
                exact ⟨phase, tracks.order, nofun⟩
  · intro event member
    obtain ⟨delivery, isDelivery, rfl⟩ := List.mem_map.mp member
    cases decoded : decodeDocument xml options with
    | error error =>
        rw [parseXmlDocument_of_error decoded] at isDelivery
        cases isDelivery
    | ok document =>
        exact (resolves_of_decoded decoded .recording delivery isDelivery).storable

/-! ## The run with the builder as its handler -/

namespace DomBuilder

/-- The run is stopped by an answer of the builder. -/
def Stops (options : ParserOptions) (halt : Halt) (events : List Event) : Prop :=
  ∃ exception, (handler options).respond events = some exception ∧ halt = .thrown exception

/-- The run with the builder follows that of a recording handler until the
builder throws. -/
theorem follows_recording (xml : Bytes) (options : ParserOptions) :
    Follows (Stops options) (parseXmlDocument xml .recording options)
      (parseXmlDocument xml (handler options) options) :=
  (handler options).follows_recording xml options

/-- What the builder throws when there are too many nodes. -/
def tooManyNodes : Halt :=
  .thrown (.xmlParse ⟨.resourceLimit, {}, "DOM node count exceeds max_dom_nodes"⟩)

/-- The builder refuses the first node that is over the limit. -/
theorem after_over {options : ParserOptions} {events : List Event} {phase : Phase}
    (order : Phase.after events = some phase) (storable : ∀ event ∈ events, event.Storable)
    (beyond : options.maxDomNodes < events.countP Event.isNode) :
    (after options events).1 = .error tooManyNodes := by
  induction events using List.reverseRecOn generalizing phase with
  | nil => cases beyond
  | append_singleton events event ih =>
      rw [Phase.after_snoc] at order
      obtain ⟨before, reached, moved⟩ := Option.bind_eq_some_iff.mp order
      have earlier : ∀ other ∈ events, other.Storable :=
        fun other member => storable other (List.mem_append_left _ member)
      unfold after at ih ⊢
      rw [handleAll_append, handleAll_singleton]
      by_cases already : options.maxDomNodes < events.countP Event.isNode
      · have failed := ih reached earlier already
        cases ran : (handleAll options events).run initial with
        | mk outcome builder =>
            rw [ran] at failed
            subst failed
            rw [run_bind_of_error ran]
      · obtain ⟨builder, ran, counted, _⟩ := run_after options reached earlier (Nat.le_of_not_lt already)
        rw [run_bind_of_ok ran]
        rw [List.countP_append, List.countP_singleton] at beyond
        have isNode : event.isNode = true := by
          by_contra leaf
          rw [if_neg leaf] at beyond
          exact already beyond
        rw [if_pos isNode, ← counted] at beyond
        rw [run_over isNode beyond]
        rfl

theorem respond_within {options : ParserOptions} {events : List Event} {phase : Phase}
    (order : Phase.after events = some phase) (storable : ∀ event ∈ events, event.Storable)
    (fits : events.countP Event.isNode ≤ options.maxDomNodes) :
    (handler options).respond events = none := by
  obtain ⟨builder, ran, _⟩ := run_after options order storable fits
  unfold handler
  dsimp only
  rw [ran]

end DomBuilder

/-- The beginning of a sequence that a parser may make is one, too. -/
theorem Phase.after_prefix {events before : List Event} {phase : Phase}
    (order : Phase.after events = some phase) (isBefore : before <+: events) :
    ∃ earlier, Phase.after before = some earlier := by
  obtain ⟨rest, rfl⟩ := isBefore
  unfold Phase.after at order ⊢
  rw [List.foldlM_append] at order
  obtain ⟨earlier, reached, _⟩ := Option.bind_eq_some_iff.mp order
  exact ⟨earlier, reached⟩

/-! ## The move of the document -/

/-- A document that holds nothing but the nodes built for these events. -/
structure Dom.HoldsEvents (heap : Heap) (document : NodeRef) (events : List Event) (refs : List NodeRef)
    (nodes : Nodes) : Prop where
  coherent : Coherent heap
  content : heap.content document = some (refs, .document [])
  shows : Shows heap refs nodes
  built : nodes.Built
  events : nodes.events = shownEvents events
  low : nodes.references.length ≤ heap.nextRef

theorem Dom.HoldsEvents.run_flatten {heap : Heap} {document : NodeRef} {events : List Event}
    {refs : List NodeRef} {nodes : Nodes} (holds : HoldsEvents heap document events refs nodes) :
    (flatten document).run heap = (.ok (shownEvents events), heap) := by
  have flat := Dom.run_flatten holds.content holds.shows holds.low
  simpa [Payload.opening, Payload.closing, holds.events] using flat

/-- The document that has been moved out of the builder holds the same nodes. -/
theorem DomBuilder.Builds.run_move {builder : DomBuilder} {events : List Event}
    (builds : Builds [] events builder) :
    ∃ document heap refs nodes,
      (Dom.moveConstruct builder.document).run builder.heap = (.ok document, heap) ∧
        Dom.HoldsEvents heap document events refs nodes := by
  obtain ⟨node, storage, found, stores⟩ := builds.exists_storage
  obtain ⟨used, building, unused, owned⟩ := builds.building
  obtain ⟨refs, closed, content, shows, built, shown, rfl⟩ := building.complete
  have coherent := builds.coherent
  let this := builder.heap.nextRef
  let empty : Dom.Node := { owner := some this, payload := .document [] }
  have below : ∀ reference ∈ builder.document :: closed.references, reference < this :=
    fun reference member => coherent.bounded reference (Dom.live_of_owner (owned reference member))
  have different : this ≠ builder.document := (Nat.ne_of_lt (below _ List.mem_cons_self)).symm
  have created : ∀ reference, (builder.heap.insert empty).nodes reference =
      if reference = this then some empty else builder.heap.nodes reference :=
    Dom.Heap.nodes_insert empty builder.heap
  have exchange : Dom.Exchange (builder.heap.insert empty) this builder.document empty node [] storage :=
    ⟨different, (created this).trans (if_pos rfl), rfl, (created _).trans ((if_neg different.symm).trans found),
      stores⟩
  let moved := (builder.heap.insert empty).moved this builder.document empty node [] storage
  have ran : (Dom.takeContents this builder.document).run (builder.heap.insert empty) = (.ok (), moved) :=
    exchange.run_takeContents coherent.newDocument
  have children : node.children = refs := by
    rw [Dom.Heap.content_of_nodes found] at content
    exact (Prod.mk.inj (Option.some.inj content)).1
  have moves : (Dom.moveConstruct builder.document).run builder.heap = (.ok this, moved) := by
    unfold Dom.moveConstruct
    rw [run_bind_of_ok (Dom.run_derefDocument found stores)]
    have made : Dom.newDocument.run builder.heap = (.ok this, builder.heap.insert empty) := rfl
    rw [run_bind_of_ok made, run_bind_of_ok ran]
    rfl
  refine ⟨this, moved, refs, closed, moves, ?_⟩
  · have top : moved.content this = some (refs, .document []) := by
      rw [← children]
      unfold Dom.Heap.content
      exact congrArg _ (if_pos rfl)
    have same : ∀ reference ∈ closed.references,
        moved.content reference = builder.heap.content reference := by
      intro reference member
      have isUsed := List.mem_cons_of_mem builder.document member
      have notThis : reference ≠ this := Nat.ne_of_lt (below reference isUsed)
      have notOther : reference ≠ builder.document :=
        fun isOther => (List.nodup_cons.mp unused).1 (isOther ▸ member)
      have owns := owned reference isUsed
      have stored : reference ∈ storage := by
        have inner : ¬ builder.heap.isDocument reference := by
          intro isDocument
          rw [(coherent.document reference isDocument).1] at owns
          exact notOther (Option.some.inj owns)
        have isLive : builder.heap.live reference := Dom.live_of_owner owns
        obtain ⟨owner, isOwner, _, member⟩ := coherent.owned reference isLive inner
        rw [owns] at isOwner
        rw [← Option.some.inj isOwner, Dom.Heap.storageOf_of_nodes found, stores] at member
        exact member
      have nodes : moved.nodes reference = (builder.heap.nodes reference).map fun node' =>
          { node' with
            owner := some this
            parent := if reference ∈ node.children then some this else node'.parent } := by
        refine (if_neg notThis).trans ((if_neg notOther).trans ((if_neg List.not_mem_nil).trans ?_))
        rw [if_pos stored, created, if_neg notThis]
      unfold Dom.Heap.content
      rw [nodes, Option.map_map]
      rfl
    have distinct := (List.nodup_cons.mp unused).2
    have few := Dom.length_le_of_nodup distinct fun reference member =>
      below reference (List.mem_cons_of_mem _ member)
    have after := (Dom.triple_moveConstruct builder.document _ coherent).1 _ _ moves
    exact ⟨after, top, shows.frame same, built, shown.symm, few.trans (Nat.le_succ _)⟩

/-! ## Both parsers -/

/-- Within the limit the run with the builder makes all calls of the other one,
and ends as it does. -/
theorem DomBuilder.run_within {xml : Bytes} {options : ParserOptions}
    (fits : (parseXmlDocument xml .recording options).2.events.countP Event.isNode ≤ options.maxDomNodes) :
    (parseXmlDocument xml (handler options) options).1 = (parseXmlDocument xml .recording options).1 ∧
      (parseXmlDocument xml (handler options) options).2.events =
        (parseXmlDocument xml .recording options).2.events := by
  obtain ⟨⟨phase, order, _⟩, storable⟩ := recording_storable xml options
  cases follows_recording xml options with
  | same outcome trace => exact ⟨outcome, congrArg (List.map Delivery.event) trace⟩
  | early outcome stopped trace =>
      have isBefore : (parseXmlDocument xml (handler options) options).2.events <+:
          (parseXmlDocument xml .recording options).2.events := trace.map Delivery.event
      obtain ⟨exception, response, _⟩ := stopped
      obtain ⟨earlier, reached⟩ := Phase.after_prefix order isBefore
      rw [respond_within reached (fun event member => storable event (isBefore.subset member))
        (isBefore.sublist.countP_le.trans fits)] at response
      cases response

/-- Over the limit the calls that the builder gets are too many for it. -/
theorem DomBuilder.run_over_limit {xml : Bytes} {options : ParserOptions}
    (beyond : options.maxDomNodes < (parseXmlDocument xml .recording options).2.events.countP Event.isNode) :
    (after options (parseXmlDocument xml (handler options) options).2.events).1 = .error tooManyNodes := by
  obtain ⟨⟨phase, order, _⟩, storable⟩ := recording_storable xml options
  cases follows_recording xml options with
  | same outcome trace =>
      have same : (parseXmlDocument xml (handler options) options).2.events =
          (parseXmlDocument xml .recording options).2.events := congrArg (List.map Delivery.event) trace
      rw [same]
      exact after_over order storable beyond
  | early outcome stopped trace =>
      have isBefore : (parseXmlDocument xml (handler options) options).2.events <+:
          (parseXmlDocument xml .recording options).2.events := trace.map Delivery.event
      obtain ⟨exception, response, _⟩ := stopped
      obtain ⟨earlier, reached⟩ := Phase.after_prefix order isBefore
      have earlierStorable : ∀ event ∈ (parseXmlDocument xml (handler options) options).2.events,
          event.Storable := fun event member => storable event (isBefore.subset member)
      refine after_over reached earlierStorable (Nat.lt_of_not_le fun fits => ?_)
      rw [respond_within reached earlierStorable fits] at response
      cases response

/-- If a recording handler is told of few enough nodes of an accepted document,
the document returned holds them. -/
theorem parseDocument_holds {xml : Bytes} {options : ParserOptions}
    (fits : (parseXmlDocument xml .recording options).2.events.countP Event.isNode ≤ options.maxDomNodes)
    (accepted : (parseXmlDocument xml .recording options).1 = .ok ()) :
    ∃ document heap refs nodes, parseDocument xml options = (.ok document, heap) ∧
      Dom.HoldsEvents heap document (parseXmlDocument xml .recording options).2.events refs nodes := by
  obtain ⟨⟨phase, order, finishes⟩, storable⟩ := recording_storable xml options
  obtain ⟨sameOutcome, sameEvents⟩ := DomBuilder.run_within fits
  obtain ⟨builder, ran, _, builds⟩ := DomBuilder.run_after options order storable fits
  rw [finishes accepted] at builds
  obtain ⟨document, heap, refs, nodes, moved, holds⟩ := builds.run_move
  refine ⟨document, heap, refs, nodes, ?_, holds⟩
  unfold parseDocument
  dsimp only
  rw [sameEvents, ran, sameOutcome, accepted]
  exact moved

/-- With too many nodes a document is refused, even one that is not well formed. -/
theorem parseDocument_over_limit {xml : Bytes} {options : ParserOptions}
    (beyond : options.maxDomNodes < (parseXmlDocument xml .recording options).2.events.countP Event.isNode) :
    (parseDocument xml options).1 = .error (.thrown (.xmlParse
      ⟨.resourceLimit, {}, "DOM node count exceeds max_dom_nodes"⟩)) := by
  have refused := DomBuilder.run_over_limit beyond
  unfold parseDocument
  dsimp only
  revert refused
  cases DomBuilder.after options (parseXmlDocument xml (DomBuilder.handler options) options).2.events with
  | mk outcome builder =>
      intro refused
      rw [show outcome = _ from refused]
      rfl

theorem parseDocument_of_error {xml : Bytes} {options : ParserOptions} {halt : Halt}
    (fits : (parseXmlDocument xml .recording options).2.events.countP Event.isNode ≤ options.maxDomNodes)
    (failed : (parseXmlDocument xml .recording options).1 = .error halt) :
    (parseDocument xml options).1 = .error halt := by
  obtain ⟨⟨phase, order, _⟩, storable⟩ := recording_storable xml options
  obtain ⟨sameOutcome, sameEvents⟩ := DomBuilder.run_within fits
  obtain ⟨builder, ran, _⟩ := DomBuilder.run_after options order storable fits
  unfold parseDocument
  dsimp only
  rw [sameEvents, ran, sameOutcome, failed]

theorem parseDocument_of_ok {xml : Bytes} {options : ParserOptions}
    (fits : (parseXmlDocument xml .recording options).2.events.countP Event.isNode ≤ options.maxDomNodes)
    (accepted : (parseXmlDocument xml .recording options).1 = .ok ()) :
    ∃ document, (parseDocument xml options).1 = .ok document ∧
      (Dom.flatten document).run (parseDocument xml options).2 =
        (.ok (shownEvents (parseXmlDocument xml .recording options).2.events), (parseDocument xml options).2) := by
  obtain ⟨document, heap, refs, nodes, parsed, holds⟩ := parseDocument_holds fits accepted
  rw [parsed]
  exact ⟨document, rfl, holds.run_flatten⟩

/-- The document that `parse` returns shows what a recording handler is told; the
call fails in the same way as the parse with that handler, and besides only if
there are too many nodes. -/
theorem parseDocument_shows (xml : Bytes) (options : ParserOptions) :
    (options.maxDomNodes < (parseXmlDocument xml .recording options).2.events.countP Event.isNode →
      (parseDocument xml options).1 = .error (.thrown (.xmlParse
        ⟨.resourceLimit, {}, "DOM node count exceeds max_dom_nodes"⟩))) ∧
    ((parseXmlDocument xml .recording options).2.events.countP Event.isNode ≤ options.maxDomNodes →
      (∀ halt, (parseXmlDocument xml .recording options).1 = .error halt →
        (parseDocument xml options).1 = .error halt) ∧
      ((parseXmlDocument xml .recording options).1 = .ok () →
        ∃ document, (parseDocument xml options).1 = .ok document ∧
          (Dom.flatten document).run (parseDocument xml options).2 =
            (.ok (shownEvents (parseXmlDocument xml .recording options).2.events),
              (parseDocument xml options).2))) := by
  constructor
  · exact parseDocument_over_limit
  · intro fits
    constructor
    · intro halt failed
      exact parseDocument_of_error fits failed
    · intro accepted
      exact parseDocument_of_ok fits accepted

end XmlParser
