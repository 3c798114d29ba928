import XmlParser.Cursor
import Mathlib.Algebra.Group.Nat.Defs

/-! The mutable members of `Parser`, its callbacks, and references. -/

set_option autoImplicit false

namespace XmlParser

open XmlParser.Computation

inductive ElementModelKind where
  | any
  | empty
  | pcdata
  | children
  deriving DecidableEq, Repr

structure ElementDeclaration where
  kind : ElementModelKind := .any
  children : List Bytes := []
  deriving DecidableEq, Repr

structure DtdState where
  hasDoctype : Bool := false
  hasExternalSubset : Bool := false
  rootName : Bytes := []
  externalSystemId : Bytes := []
  elements : List (Bytes × ElementDeclaration) := []
  entities : List (Bytes × Bytes) := []
  declarationCount : Nat := 0
  deriving DecidableEq, Repr

structure ValidationFrame where
  name : Bytes
  childElements : List Bytes := []
  hasNonWhitespaceText : Bool := false
  deriving DecidableEq, Repr

/-- The declarations of one start tag, as `collect_namespace_declarations`
returns them. -/
abbrev NamespaceScope := List (Bytes × Bytes)

/-- An event together with what the parser's counters and the sizes of its
stacks were when the handler was called. -/
structure Delivery where
  event : Event
  elementDepth : Nat
  elementNameDepth : Nat
  scopeDepth : Nat
  validationDepth : Nat
  entityExpansions : Nat
  declarationCount : Nat
  deriving DecidableEq, Repr

/-- The mutable members of `Parser`. A vector used as a stack is a list with
its last element in front. `trace` and `reported` record the calls made to
the handler and to the recoverable error handler, the oldest first. -/
structure ParserState where
  rest : List DecodedChar
  entityExpansions : Nat := 0
  elementStack : List Bytes := []
  elementNameStack : List QualifiedName := []
  namespaceScopes : List NamespaceScope := []
  dtd : DtdState := {}
  validationStack : List ValidationFrame := []
  trace : List Delivery := []
  reported : List XmlParseException := []
  deriving DecidableEq, Repr

abbrev ParserM (α : Type) := Comp ParserState Halt α

namespace ParserState

/-- The events delivered so far. -/
def events (s : ParserState) : List Event := s.trace.map Delivery.event

/-- The state after a call of the handler with this event. -/
def deliver (event : Event) (s : ParserState) : ParserState :=
  { s with
    trace := s.trace ++ [{
      event
      elementDepth := s.elementStack.length
      elementNameDepth := s.elementNameStack.length
      scopeDepth := s.namespaceScopes.length
      validationDepth := s.validationStack.length
      entityExpansions := s.entityExpansions
      declarationCount := s.dtd.declarationCount }] }

def withRest (rest : List DecodedChar) (s : ParserState) : ParserState := { s with rest }

end ParserState

/-- Run a scanning member. -/
def scan {α : Type} (source : Cursor α) : ParserM α :=
  Comp.onPart ParserState.rest ParserState.withRest source

/-- A test of the remaining characters. -/
def look {α : Type} (view : List DecodedChar → α) : ParserM α :=
  Comp.read fun s => view s.rest

namespace Parser

variable (p : Parser)

/-- Call the handler. -/
def emit (event : Event) : ParserM Unit := do
  Comp.modify (ParserState.deliver event)
  match ← Comp.read (fun s => p.handler.respond s.events) with
  | none => pure ()
  | some exception => Comp.throw (.thrown exception)

def recoverableValidityError (location : SourceLocation) (message : String) : ParserM Unit :=
  match p.options.recoverableErrorHandler with
  | none => failAt .validity location message
  | some handle => do
      Comp.modify fun s => { s with reported := s.reported ++ [⟨.validity, location, message⟩] }
      match ← Comp.read (fun s => handle s.reported) with
      | none => pure ()
      | some exception => Comp.throw (.thrown exception)

/-- `skip_misc` calls both with the handler. -/
def parseComment : ParserM Unit := do
  let text ← scan p.scanComment
  p.emit (.comment text)

def parseProcessingInstruction : ParserM Unit := do
  let (target, data) ← scan p.scanProcessingInstruction
  p.emit (.processingInstruction target data)

def parseCdata : ParserM Unit := do
  let text ← scan p.scanCdata
  p.emit (.cdata text)

def skipMiscRound (_ : Unit) : ParserM (LoopStep Unit Unit) := do
  let before ← look List.length
  scan p.skipWhitespace
  let consumed ← look fun rest => decide (rest.length < before)
  if ← look (startsWith (u32 "<!--")) then
    p.parseComment
    pure (.next ())
  else if ← look (startsWith (u32 "<?")) then
    p.parseProcessingInstruction
    pure (.next ())
  else if consumed then
    pure (.next ())
  else
    pure (.done ())

def skipMisc : ParserM Unit :=
  Comp.loop (fun _ s => s.rest.length) .outOfFuel p.skipMiscRound ()

end Parser

/-! ## References -/

/-- The value of a digit of a character reference, up to base 16. -/
def digitOf (ch : UInt8) : Option Nat :=
  if 0x30 ≤ ch && ch ≤ 0x39 then some (ch.toNat - 0x30)
  else if 0x61 ≤ ch && ch ≤ 0x66 then some (10 + ch.toNat - 0x61)
  else if 0x41 ≤ ch && ch ≤ 0x46 then some (10 + ch.toNat - 0x41)
  else none

/-- The digit loop of `parse_character_reference`, in 32-bit arithmetic. -/
def accumulateDigits (base : Nat) : Bytes → Nat → Except String Nat
  | [], value => .ok value
  | ch :: rest, value =>
      match digitOf ch with
      | none => .error "invalid character reference"
      | some digit =>
          if digit ≥ base then .error "invalid character reference"
          else if value > (2 ^ 32 - 1 - digit) / base then
            .error "character reference overflow"
          else accumulateDigits base rest ((value * base + digit) % 2 ^ 32)

/-- The `hexadecimal` flag of `parse_character_reference`. -/
def isHexadecimal (text : Bytes) : Bool :=
  decide (text.length > 2) && (text[1]? == some 0x78 || text[1]? == some 0x58)

namespace Parser

variable (p : Parser)

def parseCharacterReference {σ : Type} (text : Bytes) (start : SourceLocation) :
    Comp σ Halt Bytes :=
  let base := if isHexadecimal text then 16 else 10
  let offset := if isHexadecimal text then 2 else 1
  if offset ≥ text.length then
    failAt .wellFormedness start "empty character reference"
  else
    match accumulateDigits base (text.drop offset) 0 with
    | .error message => failAt .wellFormedness start message
    | .ok value =>
        if !isValidXmlChar value p.options.version then
          failAt .wellFormedness start "character reference is not an XML character"
        else
          pure (appendUtf8 [] value)

/-- `++entity_expansions_` and its test, on the counter alone. -/
def countExpansion (start : SourceLocation) : Comp Nat Halt Unit := do
  Comp.modify (· + 1)
  if (← Comp.read id) > p.options.maxEntityExpansions then
    failAt .resourceLimit start "entity expansion count exceeds max_entity_expansions"
  else
    pure ()

/-- The five predefined names, in the order both callers test them. -/
def predefined (name : Bytes) : Option Bytes :=
  if name == ascii "lt" then some (ascii "<")
  else if name == ascii "gt" then some (ascii ">")
  else if name == ascii "amp" then some (ascii "&")
  else if name == ascii "apos" then some (ascii "'")
  else if name == ascii "quot" then some (ascii "\"")
  else none

/-- What a reference in a replacement text stands for; `nested` expands the
replacement text of an entity. -/
def expandReference (entities : List (Bytes × Bytes)) (start : SourceLocation)
    (nested : Bytes → Comp Nat Halt Bytes) (name : Bytes) : Comp Nat Halt Bytes :=
  match predefined name with
  | some value => pure value
  | none =>
      if name.head? == some 0x23 then
        p.parseCharacterReference name start
      else
        match lookupKey name entities with
        | none => failAt .validity start "undeclared entity reference"
        | some replacement => nested replacement

/-- One round of the loop of `expand_entity_text`: what is left of the text and
what it has expanded to so far. -/
def expandRound (entities : List (Bytes × Bytes)) (start : SourceLocation)
    (nested : Bytes → Comp Nat Halt Bytes) :
    Bytes × Bytes → Comp Nat Halt (LoopStep (Bytes × Bytes) Bytes)
  | ([], expanded) => pure (.done expanded)
  | (ch :: rest, expanded) =>
      if ch != 0x26 then
        pure (.next (rest, expanded ++ [ch]))
      else if !rest.contains 0x3B then
        failAt .validity start "truncated entity replacement"
      else do
        p.countExpansion start
        let name := rest.takeWhile (· != 0x3B)
        let value ← p.expandReference entities start nested name
        let expanded := expanded ++ value
        if expanded.length > p.options.maxEntityReplacementBytes then
          failAt .resourceLimit start
            "entity replacement exceeds max_entity_replacement_bytes"
        else
          pure (.next (rest.drop (name.length + 1), expanded))

/-- `expand_entity_text`. The recursion stops at the latest one level below
`max_entity_expansions`. -/
def expandEntityText (entities : List (Bytes × Bytes)) (start : SourceLocation) :
    Nat → Nat → Bytes → Comp Nat Halt Bytes
  | 0, _, _ => Comp.throw .outOfFuel
  | fuel + 1, depth, text =>
      if depth > p.options.maxEntityExpansions then
        failAt .resourceLimit start "entity expansion count exceeds max_entity_expansions"
      else
        Comp.loop (fun current _ => current.1.length) .outOfFuel
          (p.expandRound entities start
            (expandEntityText entities start fuel (depth + 1))) (text, [])

/-- Run a computation on `entity_expansions_`. -/
def counting {α : Type} (source : Comp Nat Halt α) : ParserM α :=
  Comp.onPart ParserState.entityExpansions
    (fun entityExpansions s => { s with entityExpansions }) source

/-- What a reference stands for once its name has been read. -/
def resolveReference (entities : List (Bytes × Bytes)) (name : Bytes)
    (start : SourceLocation) : Comp Nat Halt Bytes :=
  match predefined name with
  | some value => pure value
  | none =>
      if name.head? == some 0x23 then
        p.parseCharacterReference name start
      else
        match lookupKey name entities with
        | some replacement =>
            p.expandEntityText entities start (p.options.maxEntityExpansions + 2) 0 replacement
        | none =>
            if p.options.validation = .dtd then
              failAt .validity start "undeclared entity reference"
            else
              failAt .wellFormedness start "unknown entity reference"

def parseReference : ParserM Bytes := do
  let start ← look p.location
  scan (p.expect 0x26 "'&'")
  counting (p.countExpansion start)
  let name ← scan (whilePeek (· != 0x3B) (p.pushPeek start) [])
  scan (p.expect 0x3B "';' after entity reference")
  let entities ← Comp.read fun s => s.dtd.entities
  counting (p.resolveReference entities (toAscii name) start)

/-- The step that attribute values and text share: append what a reference
stands for, or the current character. -/
def takePiece (text : Bytes) : ParserM Bytes := do
  if (← look peek) == 0x26 then
    let expansion ← p.parseReference
    pure (text ++ expansion)
  else
    scan (p.takePeek text)

end Parser

end XmlParser
