import XmlParser.DocumentIsolation
import XmlParser.Library.Streams

/-! Serializing a document to an output stream, which may fail at any byte. The stream has
no field width (`width() == 0`) and no exception mask (`exceptions() == goodbit`). -/

set_option autoImplicit false

namespace XmlParser.Dom

open XmlParser.Computation Comp Streams

abbrev StreamM (α : Type) := Comp (OutputStream UInt8) Halt α

/-- `output << piece << piece ...`. -/
def putPieces (pieces : List Bytes) : StreamM Unit := Comp.modify fun output => output.putAll pieces

/-- The use of a node that is not changed. -/
def derefConst (heap : Heap) (reference : NodeRef) : StreamM Node :=
  match heap.nodes reference with
  | some node => pure node
  | none => Comp.throw .undefinedBehavior

def putEach {α : Type} (body : α → StreamM Unit) : List α → StreamM Unit
  | [] => pure ()
  | item :: rest => do
      body item
      putEach body rest

/-- The declaration of the element's own namespace; the prefixes declared. -/
def putElementDeclaration (qualifiedName namespaceUri : Bytes) : StreamM (List Bytes) := do
  if namespaceUri.isEmpty then pure []
  else
    putPieces [[0x20]]
    if (prefixOf qualifiedName).isEmpty then
      putPieces [ascii "xmlns=\"", escapeAttribute namespaceUri, [0x22]]
    else
      putPieces [ascii "xmlns:", prefixOf qualifiedName, ascii "=\"", escapeAttribute namespaceUri, [0x22]]
    pure [prefixOf qualifiedName]

def putAttributeDeclarations : List Attribute → List Bytes → StreamM Unit
  | [], _ => pure ()
  | stored :: rest, declared =>
      if !stored.namespaceUri.isEmpty && !declared.contains (prefixOf stored.qualifiedName) then do
        putPieces [ascii " xmlns:", prefixOf stored.qualifiedName, ascii "=\"",
          escapeAttribute stored.namespaceUri, [0x22]]
        putAttributeDeclarations rest (prefixOf stored.qualifiedName :: declared)
      else putAttributeDeclarations rest declared

def putAttribute (stored : Attribute) : StreamM Unit :=
  putPieces [[0x20], stored.qualifiedName, ascii "=\"", escapeAttribute stored.value, [0x22]]

/-- `child` serializes a child. -/
def serializeElementTo (child : NodeRef → StreamM Unit) (qualifiedName namespaceUri : Bytes)
    (attributes : List Attribute) (children : List NodeRef) : StreamM Unit := do
  putPieces [[0x3C], qualifiedName]
  let declared ← putElementDeclaration qualifiedName namespaceUri
  putAttributeDeclarations attributes declared
  putEach putAttribute attributes
  if children.isEmpty then
    putPieces [ascii "/>"]
  else
    putPieces [[0x3E]]
    putEach child children
    putPieces [ascii "</", qualifiedName, [0x3E]]

/-- The recursion is on a bound for the height of the node. -/
def serializeNodeTo (heap : Heap) : Nat → NodeRef → StreamM Unit
  | 0, _ => Comp.throw .outOfFuel
  | fuel + 1, reference => do
      let node ← derefConst heap reference
      match node.payload with
      | .document _ => putEach (serializeNodeTo heap fuel) node.children
      | .element qualifiedName namespaceUri _ attributes =>
          serializeElementTo (serializeNodeTo heap fuel) qualifiedName namespaceUri attributes node.children
      | .text text => putPieces [escapeText text]
      | .comment text => putPieces [ascii "<!--", text, ascii "-->"]
      | .processingInstruction target data => do
          putPieces [ascii "<?", target]
          if data.isEmpty then pure () else putPieces [[0x20], data]
          putPieces [ascii "?>"]
      | .cdataSection text => putPieces [ascii "<![CDATA[", text, ascii "]]>"]

/-- `serialize(document, output)`. -/
def serializeTo (heap : Heap) (document : NodeRef) : StreamM Unit := do
  if !(← Comp.read OutputStream.good) then
    failAt .io {} "XML output stream is not writable"
  else
    serializeNodeTo heap (heap.nextRef + 1) document
    if !(← Comp.read OutputStream.good) then
      failAt .io {} "XML output stream write failed"
    else pure ()

/-- `serialize(document)`: the contents of a string stream, which takes everything. -/
def serializeString (heap : Heap) (document : NodeRef) : Except Halt Bytes :=
  match (serializeTo heap document).run {} with
  | (.ok (), output) => .ok output.written
  | (.error halt, _) => .error halt

/-! ## What is put into the stream -/

theorem writes_putPieces (pieces : List Bytes) : Writes (putPieces pieces) pieces.flatten () :=
  writes_putAll pieces

theorem writes_putElementDeclaration (qualifiedName namespaceUri : Bytes) :
    Writes (putElementDeclaration qualifiedName namespaceUri)
      (elementDeclaration qualifiedName namespaceUri).1 (elementDeclaration qualifiedName namespaceUri).2 := by
  unfold putElementDeclaration elementDeclaration
  split
  · exact writes_pure []
  dsimp only
  split
  · exact Writes.of_eq (writes_bind (writes_putPieces _) (writes_bind (writes_putPieces _) (writes_pure _)))
      (by simp [ascii])
  · exact Writes.of_eq (writes_bind (writes_putPieces _) (writes_bind (writes_putPieces _) (writes_pure _)))
      (by simp [ascii])

theorem writes_putAttributeDeclarations (attributes : List Attribute) (declared : List Bytes) :
    Writes (putAttributeDeclarations attributes declared) (attributeDeclarations attributes declared) () := by
  induction attributes generalizing declared with
  | nil => exact writes_pure ()
  | cons stored rest ih =>
      unfold putAttributeDeclarations attributeDeclarations
      split
      · exact (writes_bind (writes_putPieces _) (ih _)).of_eq (by simp [ascii])
      · exact ih declared

theorem writes_putAttributes (attributes : List Attribute) :
    Writes (putEach putAttribute attributes) (attributeTexts attributes) () := by
  induction attributes with
  | nil => exact writes_pure ()
  | cons stored rest ih => exact (writes_bind (writes_putPieces _) ih).of_eq (by simp [attributeTexts, ascii])

theorem writes_serializeElementTo {child : NodeRef → StreamM Unit} {children : List NodeRef} {inside : Bytes}
    (writes : Writes (putEach child children) inside ()) (qualifiedName namespaceUri : Bytes)
    (attributes : List Attribute) :
    Writes (serializeElementTo child qualifiedName namespaceUri attributes children)
      (if children.isEmpty then tagText qualifiedName namespaceUri attributes ++ ascii "/>"
        else tagText qualifiedName namespaceUri attributes ++ ascii ">" ++ inside ++
          (ascii "</" ++ qualifiedName ++ ascii ">")) () := by
  unfold serializeElementTo
  have front := writes_putElementDeclaration qualifiedName namespaceUri
  split
  · exact (writes_bind (writes_putPieces _) (writes_bind front (writes_bind
      (writes_putAttributeDeclarations attributes _) (writes_bind (writes_putAttributes attributes)
        (writes_putPieces _))))).of_eq (by simp [tagText])
  · exact (writes_bind (writes_putPieces _) (writes_bind front (writes_bind
      (writes_putAttributeDeclarations attributes _) (writes_bind (writes_putAttributes attributes)
        (writes_bind (writes_putPieces _) (writes_bind writes (writes_putPieces _))))))).of_eq
      (by simp [tagText, ascii])

/-- One node, from what is put for its children. -/
theorem writes_serializeNodeTo {heap : Heap} {reference : NodeRef} {children : List NodeRef} {payload : Payload}
    {below : Nodes} {fuel : Nat} (found : heap.content reference = some (children, payload))
    (shows : Shows heap children below)
    (inside : Writes (putEach (serializeNodeTo heap fuel) children) (writtenText below.written) ()) :
    Writes (serializeNodeTo heap (fuel + 1) reference)
      (writtenText (payload.written below.references.isEmpty below.written)) () := by
  obtain ⟨node, isNode, same⟩ := Option.map_eq_some_iff.mp found
  obtain ⟨rfl, rfl⟩ := Prod.mk.inj same
  unfold serializeNodeTo derefConst
  rw [isNode]
  refine (writes_bind (writes_pure node) ?_ : Writes (_ >>= _) ([] ++ _) ())
  rw [Payload.written_visible]
  cases node.payload with
  | document storage => exact inside
  | element qualifiedName namespaceUri localName attributes =>
      have text := writes_serializeElementTo inside qualifiedName namespaceUri attributes
      rw [shows.isEmpty_eq] at text
      refine Writes.of_eq text (?_ : _ = writtenText ((Payload.element qualifiedName namespaceUri localName
        attributes).written below.references.isEmpty below.written))
      simp only [Payload.written, apply_ite writtenText, writtenText_append, writtenText_bytes, writtenText_nil,
        List.append_nil]
  | text contents => exact (writes_putPieces _).of_eq (by simp [Payload.written])
  | comment contents => exact (writes_putPieces _).of_eq (by simp [Payload.written])
  | processingInstruction target data =>
      dsimp only
      cases empty : data.isEmpty with
      | true =>
          exact (writes_bind (writes_putPieces _) (writes_bind (writes_pure ()) (writes_putPieces _))).of_eq
            (by simp [Payload.written, empty])
      | false =>
          exact (writes_bind (writes_putPieces _) (writes_bind (writes_putPieces _) (writes_putPieces _))).of_eq
            (by simp [Payload.written, empty])
  | cdataSection contents => exact (writes_putPieces _).of_eq (by simp [Payload.written])

theorem Shows.writes {heap : Heap} {refs : List NodeRef} {nodes : Nodes} (shows : Shows heap refs nodes)
    {fuel : Nat} (high : nodes.height ≤ fuel) :
    Writes (putEach (serializeNodeTo heap fuel) refs) (writtenText nodes.written) () := by
  induction shows generalizing fuel with
  | nil => exact writes_pure ()
  | @cons reference children refs payload below rest found inside after ihInside ihAfter =>
      obtain ⟨inner, outer⟩ := Nat.max_le.mp high
      cases fuel with
      | zero => cases inner
      | succ fuel =>
          have first := writes_serializeNodeTo found inside (ihInside (Nat.le_of_succ_le_succ inner))
          exact (writes_bind first (ihAfter outer)).of_eq (by
            simp only [Nodes.written, writtenText_call, writtenText_append])

/-- The document as a whole. -/
theorem ShowsDocument.writes {heap : Heap} {document : NodeRef} {tree : Nodes}
    (shown : ShowsDocument heap document tree) (isDocument : heap.isDocument document) :
    Writes (serializeNodeTo heap (heap.nextRef + 1) document) (writtenText tree.written) () := by
  obtain ⟨node, storage, found, stores⟩ := Heap.exists_document isDocument
  have content := Heap.content_of_nodes found
  have shows := shown.shows
  rw [Heap.children_of_content content] at shows
  have inside := shows.writes (tree.height_le.trans shown.low)
  refine (writes_serializeNodeTo content shows inside).of_eq ?_
  rw [Payload.written_visible, stores]
  rfl

/-! ## Failing streams -/

def ioError (message : String) : Except Halt Unit := .error (.thrown (.xmlParse ⟨.io, {}, message⟩))

/-- How serializing to a stream ends: in front of a bad stream at once, else when
the whole text has been taken, or as soon as the stream fails, behind a part of it. -/
structure WritesOut (text : Bytes) (before : OutputStream UInt8) (ended : Except Halt Unit × OutputStream UInt8) :
    Prop where
  unwritable : before.good = false →
    ended = (ioError "XML output stream is not writable", before)
  part : ∃ front, front <+: text ∧ ended.2.written = before.written ++ front ∧
    (ended.2.good = true → before.good = true ∧ front = text)
  returns : ended.1 = .ok () ↔ ended.2.good = true
  failed : before.good = true → ended.2.good = false → ended.1 = ioError "XML output stream write failed"

/-- From what is put into the stream to how the call ends. -/
theorem ShowsDocument.writesOut {heap : Heap} {document : NodeRef} {tree : Nodes}
    (shown : ShowsDocument heap document tree) (isDocument : heap.isDocument document)
    (stream : OutputStream UInt8) :
    WritesOut (writtenText tree.written) stream ((serializeTo heap document).run stream) := by
  obtain ⟨after, ran, takes⟩ := (shown.writes isDocument).takes stream
  unfold serializeTo
  rw [run_read_bind]
  cases good : stream.good with
  | false =>
      refine ⟨fun _ => rfl, ⟨[], List.nil_prefix, (List.append_nil _).symm, fun again => ?_⟩, ?_, ?_⟩
      · exact absurd (good.symm.trans again) Bool.false_ne_true
      · simp [good]
      · simp [good]
  | true =>
      obtain ⟨front, isFront, written, whole⟩ := takes.taken
      rw [Bool.not_true, if_neg Bool.false_ne_true, run_bind_of_ok ran, run_read_bind]
      cases still : after.good with
      | true => exact ⟨by simp [good], ⟨front, isFront, written, whole⟩, by simp [still], by simp [still]⟩
      | false =>
          exact ⟨by simp [good], ⟨front, isFront, written, whole⟩, by simp [still], fun _ _ => rfl⟩

/-- In every reachable state and for every stream without field width and exception mask:
what reaches the sink is a part in front of the text that serializing to a string
returns, the call returns exactly if that is all of it and the stream is still good, and
else it throws an error of kind `Io`; serializing to a string never throws. -/
theorem streams_agree {heap : Heap} (reachable : Reachable heap) {document : NodeRef}
    (isDocument : heap.isDocument document) :
    ∃ written, (serialize document).run heap = (.ok written, heap) ∧
      serializeString heap document = .ok (writtenText written) ∧
        ∀ stream, WritesOut (writtenText written) stream ((serializeTo heap document).run stream) := by
  obtain ⟨tree, shown⟩ := reachable.coherent.exists_showsDocument document
  refine ⟨_, shown.run_serialize isDocument, ?_, shown.writesOut isDocument⟩
  have ran := (shown.writes isDocument).run_faultless []
  unfold serializeString serializeTo
  rw [run_read_bind]
  simp only [Bool.not_true, Bool.false_eq_true, if_false, writtenText_call]
  rw [run_bind_of_ok ran]
  rfl

/-- A sink that is full after ten bytes. -/
theorem streams_agree_sample :
    let heap := reached [.newDocument, .createElement 0 (ascii "a") (ascii "u") [], .appendChild 0 1]
    let full : OutputStream UInt8 := ⟨[], true, fun written piece =>
      if written.length + piece.length ≤ 10 then none else some (10 - written.length)⟩
    (serializeTo heap 0).run full |>.2.written = ascii "<a xmlns=\"" ∧
      ∃ written, (serialize 0).run heap = (.ok written, heap) ∧
        serializeString heap 0 = .ok (writtenText written) ∧
          ∀ stream, WritesOut (writtenText written) stream ((serializeTo heap 0).run stream) := by
  intro heap full
  have isDocument : heap.isDocument 0 := rfl
  exact ⟨by decide, streams_agree (reachable_reached _) isDocument⟩

end XmlParser.Dom
