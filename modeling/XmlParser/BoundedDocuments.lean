import XmlParser.Amplification
import XmlParser.RoundTrip
import XmlParser.WellNested

/-! The limits of the options in the documents that `parse` returns: how many nodes
there are, how deep they lie, how long their qualified names, values and contents are,
and how deep the functions on the tree recurse. -/

set_option autoImplicit false

namespace XmlParser

open XmlParser.Computation Comp

namespace Dom

/-! ## Measures of a tree -/

/-- The bytes of the qualified names, values and contents of a node. The namespace URIs and
local names that it also stores are not counted. -/
def Payload.size : Payload → Nat
  | .document _ => 0
  | .element qualifiedName _ _ attributes =>
      qualifiedName.length + (attributes.map fun stored => stored.qualifiedName.length + stored.value.length).sum
  | .text contents | .comment contents | .cdataSection contents => contents.length
  | .processingInstruction target data => target.length + data.length

/-- The qualified names, values and contents of a node and the number of its attributes
are within the limits. -/
def Payload.Fits (options : ParserOptions) : Payload → Prop
  | .document _ => True
  | .element qualifiedName _ _ attributes =>
      qualifiedName.length ≤ options.maxTokenBytes ∧ attributes.length ≤ options.maxAttributesPerElement ∧
        ∀ stored ∈ attributes, stored.qualifiedName.length ≤ options.maxTokenBytes ∧
          stored.value.length ≤ options.maxTokenBytes
  | .text contents | .comment contents | .cdataSection contents => contents.length ≤ options.maxTokenBytes
  | .processingInstruction target data => target.length ≤ options.maxTokenBytes ∧ data.length ≤ options.maxTokenBytes

namespace Nodes

/-- How many elements lie below one another. -/
def depth : Nodes → Nat
  | nil => 0
  | cons _ payload below rest => max (below.depth + if payload.isElement then 1 else 0) rest.depth

def size : Nodes → Nat
  | nil => 0
  | cons _ payload below rest => payload.size + below.size + rest.size

def Fits (options : ParserOptions) : Nodes → Prop
  | nil => True
  | cons _ payload below rest => payload.Fits options ∧ below.Fits options ∧ rest.Fits options

/-- What is not an element lies one step below the elements, at most. -/
theorem Built.height_le {nodes : Nodes} (built : nodes.Built) : nodes.height ≤ nodes.depth + 1 := by
  induction nodes with
  | nil => simp [height]
  | cons reference payload below rest ihBelow ihRest =>
      obtain ⟨_, bare, inside, after⟩ := built
      have inner := ihBelow inside
      have outer := ihRest after
      simp only [height, depth]
      cases isElement : payload.isElement with
      | true =>
          rw [if_pos rfl]
          omega
      | false =>
          rw [bare isElement] at inner ⊢
          simp only [height]
          omega

end Nodes

/-! ## Measures of the events -/

theorem Payload.sum_opening (payload : Payload) : (payload.opening.map Event.payload).sum = payload.size := by
  cases payload with
  | element qualifiedName namespaceUri localName attributes =>
      simp [opening, size, Event.payload, Attribute.view, Function.comp_def]
  | _ => simp [opening, size, Event.payload]

theorem Payload.sum_closing (payload : Payload) : (payload.closing.map Event.payload).sum = 0 := by
  cases payload <;> simp [closing, Event.payload]

theorem Payload.isOpening_opening (payload : Payload) :
    payload.opening.countP Event.isOpening = if payload.isElement then 1 else 0 := by
  cases payload <;> simp [opening, isElement, Event.isOpening]

theorem Payload.isClosing_opening (payload : Payload) : payload.opening.countP Event.isClosing = 0 := by
  cases payload <;> simp [opening, Event.isClosing]

theorem Payload.isOpening_closing (payload : Payload) : payload.closing.countP Event.isOpening = 0 := by
  cases payload <;> simp [closing, Event.isOpening]

theorem Payload.isClosing_closing (payload : Payload) :
    payload.closing.countP Event.isClosing = if payload.isElement then 1 else 0 := by
  cases payload <;> simp [closing, isElement, Event.isClosing]

namespace Nodes

theorem sum_events (nodes : Nodes) : (nodes.events.map Event.payload).sum = nodes.size := by
  induction nodes with
  | nil => rfl
  | cons reference payload below rest ihBelow ihRest =>
      simp only [events, size, List.map_append, List.sum_append, ihBelow, ihRest, Payload.sum_opening,
        Payload.sum_closing]
      omega

/-- Every element of a tree is closed again. -/
theorem opened_events (nodes : Nodes) :
    nodes.events.countP Event.isOpening = nodes.events.countP Event.isClosing := by
  induction nodes with
  | nil => rfl
  | cons reference payload below rest ihBelow ihRest =>
      simp only [events, List.countP_append, ihBelow, ihRest, Payload.isOpening_opening, Payload.isClosing_opening,
        Payload.isOpening_closing, Payload.isClosing_closing]
      omega

theorem Built.isNode_events {nodes : Nodes} (built : nodes.Built) :
    nodes.events.countP Event.isNode = nodes.references.length := by
  induction nodes with
  | nil => rfl
  | cons reference payload below rest ihBelow ihRest =>
      obtain ⟨inner, _, inside, after⟩ := built
      simp only [events, references, List.countP_append, List.length_cons, List.length_append, ihBelow inside,
        ihRest after]
      cases payload with
      | document storage => simp [Payload.isDocument] at inner
      | _ =>
          simp [Payload.opening, Payload.closing, Event.isNode]
          omega

/-- Where the tree is deepest, so many elements are open. -/
theorem exists_deepest (nodes : Nodes) :
    ∃ before, before <+: nodes.events ∧
      before.countP Event.isOpening = nodes.depth + before.countP Event.isClosing := by
  induction nodes with
  | nil => exact ⟨[], List.nil_prefix, rfl⟩
  | cons reference payload below rest ihBelow ihRest =>
      obtain ⟨inner, innerPrefix, innerCount⟩ := ihBelow
      obtain ⟨outer, outerPrefix, outerCount⟩ := ihRest
      simp only [events, depth, List.append_assoc]
      rcases Nat.le_total rest.depth (below.depth + if payload.isElement then 1 else 0) with deeper | deeper
      · refine ⟨payload.opening ++ inner, ?_, ?_⟩
        · exact (List.prefix_append_right_inj _).mpr (innerPrefix.trans (List.prefix_append _ _))
        · rw [Nat.max_eq_left deeper]
          simp only [List.countP_append, Payload.isOpening_opening, Payload.isClosing_opening, innerCount]
          omega
      · refine ⟨payload.opening ++ (below.events ++ (payload.closing ++ outer)), ?_, ?_⟩
        · simpa [List.prefix_append_right_inj] using outerPrefix
        · rw [Nat.max_eq_right deeper]
          simp only [List.countP_append, Payload.isOpening_opening, Payload.isClosing_opening,
            Payload.isOpening_closing, Payload.isClosing_closing, below.opened_events, outerCount]
          omega

end Nodes

/-- The tree is within the limits of the options. -/
structure Nodes.Within (options : ParserOptions) (nodes : Nodes) : Prop where
  count : nodes.references.length ≤ options.maxDomNodes
  depth : nodes.depth ≤ options.maxDepth
  fits : nodes.Fits options

end Dom

/-! ## What a document keeps of the calls -/

@[simp] theorem payload_withoutLocations (event : Event) : event.withoutLocations.payload = event.payload := by
  cases event with
  | startElement name views => simp [Event.withoutLocations, Event.payload, AttributeView.withoutLocation, Function.comp_def]
  | _ => rfl

theorem payload_outside {event : Event} (outside : event.inDocument = false) : event.payload = 0 := by
  cases event with
  | startDocument | endDocument => rfl
  | _ => simp [Event.inDocument] at outside

theorem sum_shownEvents (events : List Event) :
    ((shownEvents events).map Event.payload).sum = (events.map Event.payload).sum := by
  induction events with
  | nil => rfl
  | cons event events ih =>
      cases inside : event.inDocument with
      | true => simpa [shownEvents, inside] using ih
      | false => simpa [shownEvents, inside, payload_outside inside] using ih

theorem countP_shownEvents {test : Event → Bool} (inside : ∀ event, test event = true → event.inDocument = true)
    (same : ∀ event, test event.withoutLocations = test event) (events : List Event) :
    (shownEvents events).countP test = events.countP test := by
  unfold shownEvents
  rw [List.countP_map, List.countP_filter]
  refine List.countP_congr fun event _ => ?_
  simp only [Function.comp_apply, same, Bool.and_eq_true]
  exact ⟨And.left, fun holds => ⟨holds, inside event holds⟩⟩

theorem isOpening_shownEvents (events : List Event) :
    (shownEvents events).countP Event.isOpening = events.countP Event.isOpening := by
  refine countP_shownEvents (fun event => ?_) (fun event => ?_) events
  · cases event <;> simp [Event.isOpening, Event.inDocument]
  · cases event <;> rfl

theorem isClosing_shownEvents (events : List Event) :
    (shownEvents events).countP Event.isClosing = events.countP Event.isClosing := by
  refine countP_shownEvents (fun event => ?_) (fun event => ?_) events
  · cases event <;> simp [Event.isClosing, Event.inDocument]
  · cases event <;> rfl

/-- A front part of what is shown is shown by a front part of the calls. -/
theorem exists_prefix_of_shownEvents {events before : List Event} (isBefore : before <+: shownEvents events) :
    ∃ calls, calls <+: events ∧ shownEvents calls = before := by
  obtain ⟨kept, isKept, rfl⟩ := List.prefix_map_iff.mp isBefore
  obtain ⟨calls, isFront, rfl⟩ := List.prefix_filter_iff.mp isKept
  exact ⟨calls, isFront, rfl⟩

/-! ## Depth -/

/-- So many elements are never open at once as long as no call is made at that depth. -/
theorem opened_le_of_depths {trace : List Delivery} {limit depth : Nat} (agree : DepthsAgree trace)
    (shallow : ∀ delivery ∈ trace, delivery.elementDepth ≤ limit) {calls : List Event}
    (isFront : calls <+: trace.map Delivery.event)
    (opened : calls.countP Event.isOpening = depth + calls.countP Event.isClosing) : depth ≤ limit := by
  obtain ⟨made, isMade, rfl⟩ := List.prefix_map_iff.mp isFront
  rcases List.eq_nil_or_concat made with rfl | ⟨before, delivery, rfl⟩
  · simp at opened
    omega
  · rw [List.concat_eq_append] at isMade opened
    obtain ⟨_, atDepth, counted⟩ := agree before delivery isMade
    have within := shallow delivery (isMade.subset (by simp))
    rw [atDepth.elements] at within
    rw [counted.symm] at opened
    simp only [List.map_append, List.countP_append] at opened
    omega

/-! ## Strings -/

namespace Parser

variable {p : Parser}

/-- What a call within the limits brings fits into a document. -/
theorem Permits.fits {call : Event} (permitted : p.Permits call) {payload : Dom.Payload}
    (shown : call.withoutLocations ∈ payload.opening) : payload.Fits p.options := by
  cases payload with
  | document storage => trivial
  | element qualifiedName namespaceUri localName attributes =>
      cases call with
      | startElement name views =>
          obtain ⟨named, few, each⟩ := permitted
          obtain ⟨rfl, same⟩ := Event.startElement.inj (List.mem_singleton.mp shown)
          refine ⟨named, ?_, fun stored member => ?_⟩
          · have many := congrArg List.length same
            simp only [List.length_map] at many
            exact many ▸ few
          · have isView := same ▸ List.mem_map_of_mem (f := Dom.Attribute.view) member
            obtain ⟨view, isOne, equal⟩ := List.mem_map.mp isView
            have fits := each view isOne
            simp only [AttributeView.withoutLocation, Dom.Attribute.view, AttributeView.mk.injEq] at equal
            rw [equal.1, equal.2.1] at fits
            exact fits
      | _ => simp [Event.withoutLocations, Dom.Payload.opening] at shown
  | _ =>
      cases call <;> simp [Event.withoutLocations, Dom.Payload.opening] at shown
      simpa [shown, Permits, FitsToken, Dom.Payload.Fits] using permitted

/-- A tree of calls that are within the limits is within them. -/
theorem fits_of_events {nodes : Dom.Nodes}
    (permitted : ∀ event ∈ nodes.events, ∃ call, p.Permits call ∧ call.withoutLocations = event) :
    nodes.Fits p.options := by
  induction nodes with
  | nil => trivial
  | cons reference payload below rest ihBelow ihRest =>
      simp only [Dom.Nodes.events, List.append_assoc, List.forall_mem_append] at permitted
      obtain ⟨opened, inside, _, after⟩ := permitted
      refine ⟨?_, ihBelow inside, ihRest after⟩
      cases shown : payload.opening with
      | nil =>
          cases payload with
          | document storage => trivial
          | _ => simp [Dom.Payload.opening] at shown
      | cons event others =>
          obtain ⟨call, isPermitted, same⟩ := opened event (by simp [shown])
          exact isPermitted.fits (by simp [shown, same])

end Parser

/-! ## Documents -/

namespace Dom.ShowsDocument

variable {heap : Heap} {document : NodeRef} {nodes : Nodes} (shown : ShowsDocument heap document nodes)

include shown

/-- `collect_depth_first` and `serialize_node` call themselves as often inside one
another as the tree is high. -/
theorem run_collectDepthFirst (isLive : heap.live document) {fuel : Nat} (high : nodes.height ≤ fuel) :
    (collectDepthFirst (fuel + 1) document).run heap = (.ok nodes.references, heap) := by
  obtain ⟨node, found⟩ := Heap.exists_node isLive
  have shows := shown.shows
  rw [Heap.links_children_of_nodes found] at shows
  unfold collectDepthFirst
  rw [run_bind_of_ok (run_deref found)]
  exact shows.run_collectDepthFirst high

theorem run_serializeNode (isDocument : heap.isDocument document) {fuel : Nat} (high : nodes.height ≤ fuel) :
    (serializeNode (fuel + 1) document).run heap = (.ok (.call document :: nodes.written), heap) := by
  obtain ⟨node, found⟩ := Heap.exists_node (Heap.live_of_isDocument isDocument)
  have shows := shown.shows
  rw [Heap.links_children_of_nodes found] at shows
  have ran := Dom.run_serializeNode found shows (shows.run_serialize high)
  rw [Heap.isDocument_of_nodes found] at isDocument
  cases payload : node.payload with
  | document storage => simpa [payload, Payload.written] using ran
  | _ => simp [payload, Payload.isDocument] at isDocument

end Dom.ShowsDocument

/-- What a recording handler is told of an accepted document, as a tree, is within the
limits of the options. -/
theorem within_of_accepted {xml : Bytes} {options : ParserOptions} {document : DecodedDocument}
    (decoded : decodeDocument xml options = .ok document) {nodes : Dom.Nodes} (built : nodes.Built)
    (shown : nodes.events = shownEvents (parseXmlDocument xml .recording options).2.events)
    (few : (parseXmlDocument xml .recording options).2.events.countP Event.isNode ≤ options.maxDomNodes) :
    nodes.Within options := by
  have limits := holdsLimits_of_decoded decoded .recording
  constructor
  · rw [← built.isNode_events, shown, isNode_shownEvents]
    exact few
  · obtain ⟨before, isFront, opened⟩ := nodes.exists_deepest
    obtain ⟨calls, isMade, rfl⟩ := exists_prefix_of_shownEvents (shown ▸ isFront)
    rw [isOpening_shownEvents, isClosing_shownEvents] at opened
    have nested := Parser.parse_wellNested ⟨.recording, options, document.endLocation⟩
      SaxHandler.recording_nonThrowing document.chars
    rw [← parseXmlDocument_of_ok decoded] at nested
    exact opened_le_of_depths nested.depths (fun delivery member => (limits.calls delivery member).elementDepth)
      isMade opened
  · refine Parser.fits_of_events (p := ⟨.recording, options, document.endLocation⟩) fun event member => ?_
    rw [shown] at member
    obtain ⟨call, isShown, same⟩ := List.mem_map.mp member
    obtain ⟨delivery, isMade, rfl⟩ := List.mem_map.mp (List.mem_of_mem_filter isShown)
    exact ⟨_, (limits.calls delivery isMade).event, same⟩

/-- A document that `parse` returns is within the limits of the options, its qualified
names, values and contents are no longer than what was parsed and what its references
were replaced by, and the functions on its tree never make more calls inside one another
than the limit on the depth allows. -/
theorem parseDocument_bounded {xml : Bytes} {options : ParserOptions} {document : Dom.NodeRef}
    (returned : (parseDocument xml options).1 = .ok document) :
    let heap := (parseDocument xml options).2
    let expanded := price options.maxEntityReplacementBytes (parseXmlDocument xml .recording options).2 *
      options.maxEntityExpansions
    ∃ nodes, Dom.ShowsDocument heap document nodes ∧ nodes.Within options ∧
      2 * nodes.size ≤ 3 * xml.length + 2 * expanded ∧
      ((encodingOf xml).2 = utf8Unit → nodes.size ≤ xml.length + expanded) ∧
      ∀ fuel, options.maxDepth + 2 ≤ fuel →
        (Dom.collectDepthFirst fuel document).run heap = (.ok nodes.references, heap) ∧
        (Dom.serializeNode fuel document).run heap = (.ok (.call document :: nodes.written), heap) := by
  dsimp only
  obtain ⟨few, accepted⟩ := accepted_of_parseDocument returned
  obtain ⟨found, heap, refs, nodes, parsed, holds⟩ := parseDocument_holds few accepted
  rw [parsed] at returned ⊢
  cases returned
  have isDocument : heap.isDocument document := (Dom.payloadIs_of_content holds.content).2
  obtain ⟨shown, _⟩ := holds.run_serialize
  cases decoded : decodeDocument xml options with
  | error error =>
      rw [parseXmlDocument_of_error decoded] at accepted
      cases accepted
  | ok text =>
      have within := within_of_accepted decoded holds.built holds.events few
      have paid := payload_of_decoded decoded .recording
      have sizes := textSize_decoded decoded
      have counted : (parseXmlDocument xml .recording options).2.entityExpansions ≤ options.maxEntityExpansions := by
        rcases (holdsLimits_of_decoded decoded .recording).expansions with within | ⟨_, _, failed⟩
        · exact within
        · rw [accepted] at failed
          cases failed
      have handed : nodes.size = (parseXmlDocument xml .recording options).2.payload := by
        rw [← nodes.sum_events, holds.events, sum_shownEvents]
        rfl
      have expanded := Nat.mul_le_mul_left
        (price options.maxEntityReplacementBytes (parseXmlDocument xml .recording options).2) counted
      dsimp only at paid
      refine ⟨nodes, shown, within, by omega, fun inUtf8 => ?_, fun fuel enough => ?_⟩
      · have all := sizes.2 inUtf8
        omega
      · obtain ⟨rest, rfl⟩ : ∃ rest, fuel = rest + 1 := Nat.exists_eq_add_of_le' (by omega)
        have high := holds.built.height_le
        have shallow := within.depth
        exact ⟨shown.run_collectDepthFirst (Dom.Heap.live_of_isDocument isDocument) (by omega),
          shown.run_serializeNode isDocument (by omega)⟩

/-- In this document two elements are open at once. -/
theorem parseDocument_bounded_sample :
    ∃ nodes, Dom.ShowsDocument (parseDocument (ascii "<a>t<b/></a>") {}).2 4 nodes ∧ nodes.Within {} := by
  obtain ⟨nodes, shown, within, _⟩ := @parseDocument_bounded (ascii "<a>t<b/></a>") {} 4 (by decide +kernel)
  exact ⟨nodes, shown, within⟩

end XmlParser
