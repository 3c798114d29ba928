import XmlParser.References

/-! The document type declaration: internal and external subsets. -/

set_option autoImplicit false

namespace XmlParser

open XmlParser.Computation

/-- `a - b` on `std::size_t`. -/
def sizeSub (a b : Nat) : Nat := (a + 2 ^ 64 - b) % 2 ^ 64

/-- Where a loop `while (cursor < text.size() && test(text[cursor])) ++cursor` ends. -/
def skipFrom (test : UInt8 → Bool) (text : Bytes) (cursor : Nat) : Nat :=
  cursor + ((text.drop cursor).takeWhile test).length

/-- `text.substr(position, count)`. -/
def substr (text : Bytes) (position count : Nat) : Bytes :=
  (text.drop position).take count

namespace Parser

variable (p : Parser)

def modifyDtd (update : DtdState → DtdState) : ParserM Unit :=
  Comp.modify fun s => { s with dtd := update s.dtd }

def failHere {α : Type} (kind : ErrorKind) (message : String) : ParserM α := do
  failAt kind (← look p.location) message

def enforceDtdDeclarationLimit : ParserM Unit := do
  modifyDtd fun dtd => { dtd with declarationCount := dtd.declarationCount + 1 }
  if (← Comp.read fun s => s.dtd.declarationCount) > p.options.maxDtdDeclarations then
    p.failHere .resourceLimit "DTD declaration count exceeds max_dtd_declarations"
  else
    pure ()

def parseElementModel {σ : Type} (model : Bytes) (location : SourceLocation) :
    Comp σ Halt ElementDeclaration :=
  let model := stripAsciiSpace model
  if model == ascii "ANY" then pure ⟨.any, []⟩
  else if model == ascii "EMPTY" then pure ⟨.empty, []⟩
  else if model == ascii "(#PCDATA)" then pure ⟨.pcdata, []⟩
  else
    let children := splitNames (substr model 1 (model.length - 2))
    if model.length ≥ 2 && model.head? == some 0x28 && model.getLast? == some 0x29 &&
        !children.isEmpty then
      pure ⟨.children, children⟩
    else
      failAt .validity location "unsupported element declaration model"

/-- The end of both element declaration readers: look for a duplicate, read the
model and enter it. -/
def declareElement (name model : Bytes) (location : SourceLocation) : ParserM Unit := do
  if (← Comp.read fun s => lookupKey name s.dtd.elements).isSome then
    failAt .validity location "duplicate element declaration"
  else
    let declaration ← parseElementModel model location
    modifyDtd fun dtd => { dtd with elements := emplaceKey name declaration dtd.elements }

def parseElementDeclaration : ParserM Unit := do
  let start ← look p.location
  p.enforceDtdDeclarationLimit
  scan (p.expectSequence (u32 "<!ELEMENT") "ELEMENT declaration")
  if !isSpace (← look peek) then
    p.failHere .wellFormedness "ELEMENT declaration requires whitespace"
  else
    scan p.skipWhitespace
    let name ← scan p.parseName
    scan p.skipWhitespace
    let model ← scan (whilePeek (· != 0x3E) p.takePeek [])
    scan (p.expect 0x3E "ELEMENT declaration close")
    declareElement name model start

/-- `parse_entity_declaration` behind the literal. -/
def enterEntity (name replacement : Bytes) (start : SourceLocation) : ParserM Unit := do
  if replacement.length > p.options.maxEntityReplacementBytes then
    failAt .resourceLimit start "entity replacement exceeds max_entity_replacement_bytes"
  else
    scan p.skipWhitespace
    scan (p.expect 0x3E "ENTITY declaration close")
    if (← Comp.read fun s => lookupKey name s.dtd.entities).isSome then
      failAt .validity start "duplicate entity declaration"
    else
      modifyDtd fun dtd => { dtd with entities := emplaceKey name replacement dtd.entities }

def parseEntityDeclaration : ParserM Unit := do
  let start ← look p.location
  p.enforceDtdDeclarationLimit
  scan (p.expectSequence (u32 "<!ENTITY") "ENTITY declaration")
  if !isSpace (← look peek) then
    p.failHere .wellFormedness "ENTITY declaration requires whitespace"
  else
    scan p.skipWhitespace
    if (← look peek) == 0x25 then
      p.failHere .wellFormedness "parameter entities are not supported"
    else
      let name ← scan p.parseName
      scan p.skipWhitespace
      let replacement ← scan p.parseQuotedLiteral
      p.enterEntity name replacement start

/-- One round of the loop of `parse_internal_subset`. Its first test is the
condition of the loop, its last failure comes after the loop. -/
def internalSubsetRound (_ : Unit) : ParserM (LoopStep Unit Unit) := do
  if ← look eof then
    p.failHere .wellFormedness "truncated DOCTYPE internal subset"
  else
    scan p.skipWhitespace
    if (← look peek) == 0x5D then
      pure (.done ())
    else if ← look (startsWith (u32 "<!--")) then
      let _ ← scan p.scanComment
      pure (.next ())
    else if ← look (startsWith (u32 "<!ELEMENT")) then
      p.parseElementDeclaration
      pure (.next ())
    else if ← look (startsWith (u32 "<!ENTITY")) then
      p.parseEntityDeclaration
      pure (.next ())
    else
      p.failHere .wellFormedness "unsupported DTD declaration"

def parseInternalSubset : ParserM Unit :=
  Comp.loop (fun _ s => s.rest.length) .outOfFuel p.internalSubsetRound ()

/-- `declaration` is a slice from `<!ELEMENT` to the first `>` after it. -/
def parseExternalElementDeclaration (declaration : Bytes) : ParserM Unit := do
  p.enforceDtdDeclarationLimit
  let nameStart := skipFrom (· == 0x20) declaration (ascii "<!ELEMENT").length
  let nameEnd := skipFrom (· != 0x20) declaration nameStart
  let name := substr declaration nameStart (nameEnd - nameStart)
  let cursor := skipFrom (· == 0x20) declaration nameEnd
  if declaration.getLast? != some 0x3E then
    p.failHere .validity "invalid external element declaration"
  else
    let model := substr declaration cursor (sizeSub (sizeSub declaration.length cursor) 1)
    declareElement name model (← look p.location)

/-- One round of the loop of `parse_external_subset_text` on what is left of
the text. -/
def externalSubsetRound (subset : Bytes) : ParserM (LoopStep Bytes Unit) :=
  let rest := subset.dropWhile isAsciiSpace
  if rest.isEmpty then
    pure (.done ())
  else if (ascii "<!ELEMENT").isPrefixOf rest then
    if !rest.contains 0x3E then
      p.failHere .validity "truncated external element declaration"
    else do
      let close := (rest.takeWhile (· != 0x3E)).length
      p.parseExternalElementDeclaration (rest.take (close + 1))
      pure (.next (rest.drop (close + 1)))
  else
    p.failHere .validity "unsupported external DTD declaration"

def parseExternalSubsetText (subset : Bytes) : ParserM Unit :=
  Comp.loop (fun rest _ => rest.length) .outOfFuel p.externalSubsetRound subset

def resolveExternalSubsetIfNeeded : ParserM Unit := do
  let dtd ← Comp.read ParserState.dtd
  if !dtd.hasExternalSubset || p.options.validation != .dtd then
    pure ()
  else
    match p.options.allowExternalDtd, p.options.externalDtdResolver with
    | true, some resolve =>
        match resolve dtd.externalSystemId with
        | .error exception => Comp.throw (.thrown exception)
        | .ok subset =>
            if subset.length > p.options.maxExternalSubsetBytes then
              p.failHere .resourceLimit
                "external DTD subset exceeds max_external_subset_bytes"
            else
              p.parseExternalSubsetText subset
    | _, _ => p.failHere .validity "external DTD resolution is disabled"

/-- The optional external identifier of a DOCTYPE. -/
def parseExternalId : ParserM Unit := do
  let enter (systemId : Bytes) : DtdState → DtdState := fun dtd =>
    { dtd with hasExternalSubset := true, externalSystemId := systemId }
  if ← look (startsWith (u32 "SYSTEM")) then
    scan (Comp.modify (List.drop 6))
    scan p.skipWhitespace
    let systemId ← scan p.parseQuotedLiteral
    modifyDtd (enter systemId)
    scan p.skipWhitespace
  else if ← look (startsWith (u32 "PUBLIC")) then
    scan (Comp.modify (List.drop 6))
    scan p.skipWhitespace
    let _ ← scan p.parseQuotedLiteral
    scan p.skipWhitespace
    let systemId ← scan p.parseQuotedLiteral
    modifyDtd (enter systemId)
    scan p.skipWhitespace
  else
    pure ()

/-- The optional internal subset of a DOCTYPE, with its brackets. -/
def parseBracketedSubset : ParserM Unit := do
  if (← look peek) == 0x5B then
    scan p.advance
    p.parseInternalSubset
    scan (p.expect 0x5D "DOCTYPE internal subset close")
    scan p.skipWhitespace
  else
    pure ()

def parseDoctypeIfPresent : ParserM Unit := do
  if !(← look (startsWith (u32 "<!DOCTYPE"))) then
    pure ()
  else
    modifyDtd fun dtd => { dtd with hasDoctype := true }
    scan (p.expectSequence (u32 "<!DOCTYPE") "DOCTYPE declaration")
    if !isSpace (← look peek) then
      p.failHere .wellFormedness "DOCTYPE requires whitespace after keyword"
    else
      scan p.skipWhitespace
      let rootName ← scan p.parseName
      modifyDtd fun dtd => { dtd with rootName }
      scan p.skipWhitespace
      p.parseExternalId
      p.parseBracketedSubset
      scan (p.expect 0x3E "DOCTYPE close")
      p.resolveExternalSubsetIfNeeded

end Parser

end XmlParser
