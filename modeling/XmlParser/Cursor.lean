import XmlParser.Decoder

/-! The scanning members of `Parser`: those that read and move `index_` only.
The cursor is what is left of the decoded characters from `index_` on. -/

set_option autoImplicit false

namespace XmlParser

open XmlParser.Computation

/-- The members of `Parser` that never change during a run. -/
structure Parser where
  handler : SaxHandler
  options : ParserOptions
  endLocation : SourceLocation

abbrev Cursor (α : Type) := Comp (List DecodedChar) Halt α

def eof (rest : List DecodedChar) : Bool := rest.isEmpty

/-- `peek(lookahead)`; zero past the end. -/
def peekAt (lookahead : Nat) (rest : List DecodedChar) : Nat :=
  (rest[lookahead]?.map DecodedChar.value).getD 0

def peek (rest : List DecodedChar) : Nat := peekAt 0 rest

def startsWith (text : List Nat) (rest : List DecodedChar) : Bool :=
  text.isPrefixOf (rest.map DecodedChar.value)

namespace Parser

variable (p : Parser)

def location (rest : List DecodedChar) : SourceLocation :=
  (rest.head?.map DecodedChar.location).getD p.endLocation

def fail {α : Type} (kind : ErrorKind) (message : String) : Cursor α := do
  failAt kind (← Comp.read p.location) message

def advance : Cursor Unit := do
  if ← Comp.read eof then
    p.fail .wellFormedness "unexpected end of XML input"
  else
    Comp.modify List.tail

def expect (value : Nat) (description : String) : Cursor Unit := do
  if (← Comp.read peek) != value then
    p.fail .wellFormedness ("expected " ++ description)
  else
    p.advance

def expectSequence (text : List Nat) (description : String) : Cursor Unit := do
  if !(← Comp.read (startsWith text)) then
    p.fail .wellFormedness ("expected " ++ description)
  else
    Comp.modify (List.drop text.length)

def enforceTokenSize {σ : Type} (size : Nat) (start : SourceLocation) : Comp σ Halt Unit :=
  if size > p.options.maxTokenBytes then
    failAt .resourceLimit start "XML token exceeds max_token_bytes"
  else
    pure ()

/-- `while (!eof() && condition(peek())) { body }`. -/
def whilePeek {β : Type} (condition : Nat → Bool) (body : β → Cursor β) :
    β → Cursor β :=
  Comp.whileLoop List.length .outOfFuel
    (fun rest => !eof rest && condition (peek rest)) body

def skipWhitespace : Cursor Unit :=
  whilePeek isSpace (fun _ => p.advance) ()

/-- The body shared by the loops that append the current character to a
buffer of bytes, test the size of the buffer and advance. -/
def appendPeek (start : SourceLocation) (text : Bytes) : Cursor Bytes := do
  let text := appendUtf8 text (← Comp.read peek)
  p.enforceTokenSize text.length start
  p.advance
  pure text

/-- The same for a buffer of code points. -/
def pushPeek (start : SourceLocation) (buffer : List Nat) :
    Cursor (List Nat) := do
  let buffer := buffer ++ [← Comp.read peek]
  p.enforceTokenSize buffer.length start
  p.advance
  pure buffer

/-- The same without the size test. -/
def takePeek (text : Bytes) : Cursor Bytes := do
  let text := appendUtf8 text (← Comp.read peek)
  p.advance
  pure text

def parseName : Cursor Bytes := do
  let start ← Comp.read p.location
  if !isNameStart (← Comp.read peek) then
    p.fail .wellFormedness "expected XML name"
  else
    let buffer ← whilePeek isNameChar (p.pushPeek start) []
    pure (toAscii buffer)

def parseQuotedLiteral : Cursor Bytes := do
  let quote ← Comp.read peek
  if quote != 0x27 && quote != 0x22 then
    p.fail .wellFormedness "expected quoted literal"
  else
    p.advance
    let value ← whilePeek (· != quote) p.takePeek []
    p.expect quote "literal quote"
    pure value

/-- `while (!eof() && !starts_with(stop)) { body }`. -/
def whileNotAt {β : Type} (stop : List Nat) (body : β → Cursor β) : β → Cursor β :=
  Comp.whileLoop List.length .outOfFuel
    (fun rest => !eof rest && !startsWith stop rest) body

def parseXmlDeclarationIfPresent : Cursor Unit := do
  if !(← Comp.read (startsWith (u32 "<?xml"))) || !isSpace (← Comp.read (peekAt 5)) then
    pure ()
  else
    let start ← Comp.read p.location
    p.expectSequence (u32 "<?xml") "XML declaration"
    if !isSpace (← Comp.read peek) then
      p.fail .wellFormedness "invalid XML declaration"
    else
      let declaration ← whileNotAt (u32 "?>") (p.appendPeek start) []
      p.expectSequence (u32 "?>") "XML declaration close"
      let declaresXml10 := containsText declaration (ascii "1.0")
      let declaresXml11 := containsText declaration (ascii "1.1")
      if !containsText declaration (ascii "version") || (!declaresXml10 && !declaresXml11) then
        failAt .wellFormedness start "XML declaration must declare version 1.0 or 1.1"
      else if (declaresXml10 && p.options.version != .xml10) ||
          (declaresXml11 && p.options.version != .xml11) then
        failAt .wellFormedness start "XML declaration version does not match ParserOptions"
      else
        pure ()

/-- One round of the loop of `parse_comment`. -/
def commentRound (start : SourceLocation) (text : Bytes) : Cursor (LoopStep Bytes Bytes) := do
  if ← Comp.read eof then
    failAt .wellFormedness start "truncated XML comment"
  else if ← Comp.read (startsWith (u32 "-->")) then
    p.expectSequence (u32 "-->") "comment close"
    pure (.done text)
  else if ← Comp.read (startsWith (u32 "--")) then
    p.fail .wellFormedness "comment text cannot contain '--'"
  else
    let text ← p.appendPeek start text
    pure (.next text)

/-- `parse_comment` up to its callback, which comes last. -/
def scanComment : Cursor Bytes := do
  let start ← Comp.read p.location
  p.expectSequence (u32 "<!--") "comment start"
  Comp.loop (fun _ => List.length) .outOfFuel (p.commentRound start) []

def cdataRound (start : SourceLocation) (text : Bytes) : Cursor (LoopStep Bytes Bytes) := do
  if ← Comp.read eof then
    failAt .wellFormedness start "truncated CDATA section"
  else if ← Comp.read (startsWith (u32 "]]>")) then
    p.expectSequence (u32 "]]>") "CDATA close"
    pure (.done text)
  else
    let text ← p.appendPeek start text
    pure (.next text)

/-- `parse_cdata` up to its callback. -/
def scanCdata : Cursor Bytes := do
  let start ← Comp.read p.location
  p.expectSequence (u32 "<![CDATA[") "CDATA start"
  Comp.loop (fun _ => List.length) .outOfFuel (p.cdataRound start) []

/-- `parse_processing_instruction` up to its callback. -/
def scanProcessingInstruction : Cursor (Bytes × Bytes) := do
  let start ← Comp.read p.location
  p.expectSequence (u32 "<?") "processing instruction start"
  let target ← p.parseName
  if lowercaseAscii target == ascii "xml" then
    failAt .wellFormedness start "XML declaration is only allowed at document start"
  else
    -- The source tests for white space first, which `skip_whitespace` does as well.
    p.skipWhitespace
    let data ← whileNotAt (u32 "?>") (p.appendPeek start) []
    p.expectSequence (u32 "?>") "processing instruction close"
    pure (target, data)

end Parser

end XmlParser
