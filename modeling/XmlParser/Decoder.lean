import XmlParser.Characters

/-! The decoders: from the bytes of the document to located code points. -/

set_option autoImplicit false

namespace XmlParser

structure DecodedChar where
  value : Nat
  location : SourceLocation
  deriving DecidableEq, Repr

structure DecodedDocument where
  chars : List DecodedChar
  endLocation : SourceLocation
  deriving DecidableEq, Repr

structure LocationTracker where
  line : Nat := 1
  column : Nat := 1
  deriving DecidableEq, Repr

def LocationTracker.current (tracker : LocationTracker) (byteOffset : Nat) : SourceLocation :=
  ⟨tracker.line, tracker.column, byteOffset⟩

def LocationTracker.advance (tracker : LocationTracker) (value : Nat) :
    LocationTracker :=
  if value = 0x0A then { line := tracker.line + 1, column := 1 }
  else { tracker with column := tracker.column + 1 }

def throwParse {α : Type} (kind : ErrorKind) (location : SourceLocation)
    (message : String) : Except XmlParseException α :=
  .error ⟨kind, location, message⟩

/-- The characters decoded from here on, behind the one just read. -/
def pushChar (value : Nat) (location : SourceLocation)
    (rest : Except XmlParseException (List DecodedChar × LocationTracker)) :
    Except XmlParseException (List DecodedChar × LocationTracker) :=
  rest.map fun decoded => (⟨value, location⟩ :: decoded.1, decoded.2)

/-- The loop over the continuation bytes of one UTF-8 sequence. -/
def continueUtf8 (location : SourceLocation) :
    Nat → Bytes → Except XmlParseException Nat
  | value, [] => .ok value
  | value, continuation :: rest =>
      if continuation &&& 0xC0 != 0x80 then
        throwParse .encoding location "invalid UTF-8 continuation"
      else
        continueUtf8 location ((value <<< 6) ||| (continuation &&& 0x3F).toNat) rest

/-- The tests on a complete UTF-8 sequence. -/
def checkUtf8 (version : XmlVersion) (location : SourceLocation) (width : Nat)
    (value : Nat) : Except XmlParseException Unit :=
  if (width == 2 && value < 0x80) || (width == 3 && value < 0x800) ||
      (width == 4 && value < 0x10000) || value > 0x10FFFF ||
      (0xD800 ≤ value && value ≤ 0xDFFF) then
    throwParse .encoding location "invalid UTF-8 scalar value"
  else if !isValidXmlChar value version then
    throwParse .wellFormedness location "invalid XML character"
  else .ok ()

/-- One sequence of `decode_utf8`: its leading bits and continuation bytes. -/
def readUtf8 (version : XmlVersion) (location : SourceLocation) (leading : Nat)
    (continuations : Bytes) : Except XmlParseException Nat := do
  let value ← continueUtf8 location leading continuations
  checkUtf8 version location (continuations.length + 1) value
  return value

/-- The loop of `decode_utf8` over the bytes from `offset` on. -/
def decodeUtf8Loop (version : XmlVersion) :
    Bytes → Nat → LocationTracker →
      Except XmlParseException (List DecodedChar × LocationTracker)
  | [], _, tracker => .ok ([], tracker)
  | byte :: rest, offset, tracker =>
      let location := tracker.current offset
      if byte < 0x80 then do
        let value ← readUtf8 version location byte.toNat []
        pushChar value location
          (decodeUtf8Loop version rest (offset + 1) (tracker.advance value))
      else if byte &&& 0xE0 == 0xC0 then
        if byte &&& 0x1F == 0 then
          throwParse .encoding location "invalid UTF-8 sequence"
        else
          match rest with
          | second :: rest => do
              let value ← readUtf8 version location (byte &&& 0x1F).toNat [second]
              pushChar value location
                (decodeUtf8Loop version rest (offset + 2) (tracker.advance value))
          | _ => throwParse .encoding location "truncated UTF-8 sequence"
      else if byte &&& 0xF0 == 0xE0 then
        match rest with
        | second :: third :: rest => do
            let value ← readUtf8 version location (byte &&& 0x0F).toNat [second, third]
            pushChar value location
              (decodeUtf8Loop version rest (offset + 3) (tracker.advance value))
        | _ => throwParse .encoding location "truncated UTF-8 sequence"
      else if byte &&& 0xF8 == 0xF0 then
        match rest with
        | second :: third :: fourth :: rest => do
            let value ← readUtf8 version location (byte &&& 0x07).toNat [second, third, fourth]
            pushChar value location
              (decodeUtf8Loop version rest (offset + 4) (tracker.advance value))
        | _ => throwParse .encoding location "truncated UTF-8 sequence"
      else
        throwParse .encoding location "invalid UTF-8 sequence"

def decodeUtf8 (xml : Bytes) (startOffset : Nat) (options : ParserOptions) :
    Except XmlParseException DecodedDocument := do
  let (chars, tracker) ←
    decodeUtf8Loop options.version (xml.drop startOffset) startOffset {}
  return { chars, endLocation := tracker.current xml.length }

/-- `read_unit` of `decode_utf16`. -/
def readUnit (littleEndian : Bool) (first second : UInt8) : Nat :=
  if littleEndian then first.toNat ||| (second.toNat <<< 8)
  else (first.toNat <<< 8) ||| second.toNat

/-- The loop of `decode_utf16` over the bytes from `offset` on. -/
def decodeUtf16Loop (littleEndian : Bool) (version : XmlVersion) :
    Bytes → Nat → LocationTracker →
      Except XmlParseException (List DecodedChar × LocationTracker)
  | [], _, tracker => .ok ([], tracker)
  | [_], offset, tracker =>
      throwParse .encoding (tracker.current offset) "truncated UTF-16 code unit"
  | first :: second :: rest, offset, tracker =>
      let location := tracker.current offset
      let unit := readUnit littleEndian first second
      if 0xD800 ≤ unit && unit ≤ 0xDBFF then
        match rest with
        | third :: fourth :: rest =>
            let trail := readUnit littleEndian third fourth
            if trail < 0xDC00 || trail > 0xDFFF then
              throwParse .encoding location "invalid UTF-16 surrogate pair"
            else
              let value := 0x10000 + (((unit - 0xD800) <<< 10) ||| (trail - 0xDC00))
              if !isValidXmlChar value version then
                throwParse .wellFormedness location "invalid XML character"
              else
                pushChar value location
                  (decodeUtf16Loop littleEndian version rest (offset + 4)
                    (tracker.advance value))
        | _ => throwParse .encoding location "truncated UTF-16 surrogate pair"
      else if 0xDC00 ≤ unit && unit ≤ 0xDFFF then
        throwParse .encoding location "unexpected UTF-16 trailing surrogate"
      else if !isValidXmlChar unit version then
        throwParse .wellFormedness location "invalid XML character"
      else
        pushChar unit location
          (decodeUtf16Loop littleEndian version rest (offset + 2) (tracker.advance unit))

def decodeUtf16 (xml : Bytes) (littleEndian : Bool) (options : ParserOptions) :
    Except XmlParseException DecodedDocument := do
  let (chars, tracker) ←
    decodeUtf16Loop littleEndian options.version (xml.drop 2) 2 {}
  return { chars, endLocation := tracker.current xml.length }

/-- The test for a document without characters, at the end of each branch of
`decode_document`. -/
def requireChars (decoded : DecodedDocument) (location : SourceLocation) :
    Except XmlParseException DecodedDocument :=
  if decoded.chars.isEmpty then throwParse .emptyInput location "XML input is empty"
  else .ok decoded

def decodeDocument (xml : Bytes) (options : ParserOptions) :
    Except XmlParseException DecodedDocument :=
  if xml.isEmpty then
    throwParse .emptyInput {} "XML input is empty"
  else if xml.length > options.maxDocumentBytes then
    throwParse .resourceLimit {} "XML input exceeds max_document_bytes"
  else if [0xEF, 0xBB, 0xBF].isPrefixOf xml then do
    requireChars (← decodeUtf8 xml 3 options) ⟨1, 1, 3⟩
  else if [0xFF, 0xFE].isPrefixOf xml then do
    requireChars (← decodeUtf16 xml true options) ⟨1, 1, 2⟩
  else if [0xFE, 0xFF].isPrefixOf xml then do
    requireChars (← decodeUtf16 xml false options) ⟨1, 1, 2⟩
  else do
    requireChars (← decodeUtf8 xml 0 options) {}

end XmlParser
