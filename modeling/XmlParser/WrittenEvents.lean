import XmlParser.SameDocument
import XmlParser.SerializedNodes

/-! What serializing writes for the nodes of a builder, as a function of the
events that they stand for. -/

set_option autoImplicit false

namespace XmlParser.Dom

open XmlParser.Computation Comp

/-! ## The text of events -/

/-- What ends a start tag in front of content, if there is one to end. -/
def tagEnd (pending : Bool) : Bytes := if pending then ascii ">" else []

def leafText : Event → Bytes
  | .characters contents => escapeText contents
  | .comment contents => ascii "<!--" ++ contents ++ ascii "-->"
  | .processingInstruction target data =>
      if data.isEmpty then ascii "<?" ++ target ++ ascii "?>"
      else ascii "<?" ++ target ++ [0x20] ++ data ++ ascii "?>"
  | .cdata contents => ascii "<![CDATA[" ++ contents ++ ascii "]]>"
  | _ => []

/-- The text of events behind a start tag that is `pending`: what comes next
decides how it ends. -/
def write : Bool → List Event → Bytes
  | pending, [] => tagEnd pending
  | pending, event :: rest =>
      match event with
      | .startElement name views =>
          tagEnd pending ++ (tagText name.qualifiedName name.uri (views.map storedView) ++ write true rest)
      | .endElement name =>
          (if pending then ascii "/>" else ascii "</" ++ name.qualifiedName ++ ascii ">") ++ write false rest
      | other => tagEnd pending ++ (leafText other ++ write false rest)

theorem storedView_view (stored : Attribute) : storedView stored.view = stored := rfl

@[simp] theorem tagEnd_false : tagEnd false = [] := rfl

@[simp] theorem writtenText_nil : writtenText [] = [] := rfl

@[simp] theorem writtenText_append (first second : List Written) :
    writtenText (first ++ second) = writtenText first ++ writtenText second := by
  simp [writtenText]

@[simp] theorem writtenText_call (reference : NodeRef) (rest : List Written) :
    writtenText (.call reference :: rest) = writtenText rest := rfl

@[simp] theorem writtenText_bytes (text : Bytes) (rest : List Written) :
    writtenText (.bytes text :: rest) = text ++ writtenText rest := rfl

/-- The text of built nodes and of what comes behind them. -/
theorem Nodes.Built.write_append {nodes : Nodes} (built : nodes.Built) (pending : Bool) (rest : List Event) :
    write pending (nodes.events ++ rest) =
      if nodes.references.isEmpty then write pending rest
      else tagEnd pending ++ (writtenText nodes.written ++ write false rest) := by
  induction nodes generalizing pending rest with
  | nil => rfl
  | cons reference payload below others ihBelow ihOthers =>
      obtain ⟨inner, bare, builtBelow, builtOthers⟩ := built
      have behind : write false (others.events ++ rest) = writtenText others.written ++ write false rest := by
        rw [ihOthers builtOthers]
        cases empty : others.references.isEmpty with
        | true => simp [Nodes.written_of_isEmpty empty, writtenText]
        | false => simp
      cases payload with
      | document storage => cases inner
      | element qualifiedName namespaceUri localName attributes =>
          have inside := ihBelow builtBelow true
            (.endElement ⟨namespaceUri, localName, qualifiedName⟩ :: (others.events ++ rest))
          have views : (attributes.map Attribute.view).map storedView = attributes := by
            simp [Function.comp_def, storedView_view]
          cases childless : below.references.isEmpty with
          | true =>
              simp only [childless, if_true] at inside
              simp [Nodes.events, Payload.opening, Payload.closing, write, views, inside, behind,
                Nodes.references, Nodes.written, Payload.written, childless]
          | false =>
              simp only [childless, Bool.false_eq_true, if_false] at inside
              simp [Nodes.events, Payload.opening, Payload.closing, write, views, inside, behind,
                Nodes.references, Nodes.written, Payload.written, childless, tagEnd]
      | processingInstruction target data =>
          cases bare rfl
          cases empty : data.isEmpty with
          | true =>
              simp [Nodes.events, Payload.opening, Payload.closing, write, leafText, behind,
                Nodes.references, Nodes.written, Payload.written, empty]
          | false =>
              simp [Nodes.events, Payload.opening, Payload.closing, write, leafText, behind,
                Nodes.references, Nodes.written, Payload.written, empty]
      | _ =>
          cases bare rfl
          simp [Nodes.events, Payload.opening, Payload.closing, write, leafText, behind,
            Nodes.references, Nodes.written, Payload.written]

/-! ## Documents of a builder -/

theorem Shows.unique {heap : Heap} {refs : List NodeRef} {nodes others : Nodes}
    (shows : Shows heap refs nodes) (other : Shows heap refs others) : nodes = others := by
  induction shows generalizing others with
  | nil =>
      cases other
      rfl
  | cons found _ _ ihInside ihAfter =>
      cases other with
      | cons foundOther inside after =>
          cases found.symm.trans foundOther
          rw [ihInside inside, ihAfter after]

/-- Serializing a document of a builder writes the text of its events. -/
theorem HoldsEvents.run_serialize {heap : Heap} {document : NodeRef} {events : List Event}
    {refs : List NodeRef} {nodes : Nodes} (holds : HoldsEvents heap document events refs nodes) :
    ShowsDocument heap document nodes ∧
      ∃ written, (serialize document).run heap = (.ok written, heap) ∧
        writtenText written = write false (shownEvents events) := by
  obtain ⟨others, shown⟩ := holds.coherent.exists_showsDocument document
  have shows := shown.shows
  rw [Heap.children_of_content holds.content] at shows
  cases holds.shows.unique shows
  have isDocument : heap.isDocument document := (payloadIs_of_content holds.content).2
  refine ⟨shown, _, shown.run_serialize isDocument, ?_⟩
  have text := holds.built.write_append false []
  rw [List.append_nil, holds.events] at text
  rw [text, writtenText_call]
  cases empty : nodes.references.isEmpty with
  | true => simp [Nodes.written_of_isEmpty empty, writtenText, write]
  | false => simp [write]

end XmlParser.Dom
