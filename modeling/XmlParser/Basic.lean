import XmlParser.Library.Computation

/-! Strings, locations, errors, options and events of the public headers. -/

set_option autoImplicit false

namespace XmlParser

open XmlParser.Computation

/-- The bytes a `std::string` holds. A `char32_t` is a natural number; only
values below `2 ^ 32` arise. -/
abbrev Bytes := List UInt8

/-- The bytes of an ASCII string literal of the source. -/
def ascii (literal : String) : Bytes :=
  literal.toList.map fun character => UInt8.ofNat character.toNat

/-- The code points of a `U"..."` literal of the source. -/
def u32 (literal : String) : List Nat :=
  literal.toList.map Char.toNat

structure SourceLocation where
  line : Nat := 1
  column : Nat := 1
  byteOffset : Nat := 0
  deriving DecidableEq, Repr

inductive ErrorKind where
  | unsupported
  | emptyInput
  | wellFormedness
  | validity
  | encoding
  | resourceLimit
  | io
  deriving DecidableEq, Repr

structure XmlParseException where
  kind : ErrorKind
  location : SourceLocation
  message : String
  deriving DecidableEq, Repr

/-- What may propagate out of a call: the library's own exception, or another
one that a callback of the client threw. -/
inductive Exception where
  | xmlParse (error : XmlParseException)
  | foreign (code : Nat)
  deriving DecidableEq, Repr

/-- Why a run of the model stops early. Only `thrown` exists in the source:
`outOfFuel` marks a recursion bound that was too small, and
`undefinedBehavior` an access outside of a vector or a string. -/
inductive Halt where
  | thrown (exception : Exception)
  | outOfFuel
  | undefinedBehavior
  deriving DecidableEq, Repr

inductive XmlVersion where
  | xml10
  | xml11
  deriving DecidableEq, Repr

inductive ValidationMode where
  | none
  | dtd
  deriving DecidableEq, Repr

inductive NamespaceMode where
  | enabled
  | disabled
  deriving DecidableEq, Repr

/-- The members of `ParserOptions` that the library reads. The two callbacks
are deterministic: the resolver answers a system identifier, and the error
handler answers the errors reported to it so far, the current one last, by
returning or by throwing. -/
structure ParserOptions where
  version : XmlVersion := .xml10
  validation : ValidationMode := .none
  namespaces : NamespaceMode := .enabled
  allowExternalDtd : Bool := false
  externalDtdResolver : Option (Bytes → Except Exception Bytes) := none
  recoverableErrorHandler : Option (List XmlParseException → Option Exception) := none
  maxDocumentBytes : Nat := 16 * 1024 * 1024
  maxDepth : Nat := 256
  maxTokenBytes : Nat := 1024 * 1024
  maxAttributesPerElement : Nat := 1024
  maxEntityExpansions : Nat := 100000
  maxDomNodes : Nat := 1000000
  maxDtdDeclarations : Nat := 4096
  maxEntityReplacementBytes : Nat := 1024 * 1024
  maxExternalSubsetBytes : Nat := 1024 * 1024

structure QualifiedName where
  uri : Bytes
  localName : Bytes
  qualifiedName : Bytes
  deriving DecidableEq, Repr

structure AttributeView where
  name : QualifiedName
  value : Bytes
  location : SourceLocation
  deriving DecidableEq, Repr

/-- One call of a `SaxHandler` member, with its arguments. -/
inductive Event where
  | startDocument
  | endDocument
  | startElement (name : QualifiedName) (attributes : List AttributeView)
  | endElement (name : QualifiedName)
  | characters (text : Bytes)
  | processingInstruction (target data : Bytes)
  | comment (text : Bytes)
  | cdata (text : Bytes)
  deriving DecidableEq, Repr

/-- An attribute without the place it was read at. -/
def AttributeView.withoutLocation (view : AttributeView) : AttributeView :=
  { view with location := {} }

/-- An event without source locations. -/
def Event.withoutLocations : Event → Event
  | .startElement name attributes =>
      .startElement name (attributes.map AttributeView.withoutLocation)
  | event => event

/-- A handler is deterministic code: what it does when called back, returning
or throwing, is a function of the calls made so far, the current one last. -/
structure SaxHandler where
  respond : List Event → Option Exception

/-- The handler that only records. -/
def SaxHandler.recording : SaxHandler := ⟨fun _ => none⟩

/-- A handler that returns from every call. -/
def SaxHandler.NonThrowing (handler : SaxHandler) : Prop :=
  ∀ history, handler.respond history = none

theorem SaxHandler.recording_nonThrowing : SaxHandler.recording.NonThrowing :=
  fun _ => rfl

/-- `throw XmlParseException(kind, location, message)`. -/
def failAt {σ α : Type} (kind : ErrorKind) (location : SourceLocation)
    (message : String) : Comp σ Halt α :=
  Comp.throw (.thrown (.xmlParse ⟨kind, location, message⟩))

@[simp] theorem run_failAt {σ α : Type} (kind : ErrorKind) (location : SourceLocation)
    (message : String) (state : σ) :
    (failAt kind location message : Comp σ Halt α).run state =
      (.error (.thrown (.xmlParse ⟨kind, location, message⟩)), state) := rfl

end XmlParser
