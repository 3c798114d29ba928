import XmlParser.Basic

/-! The character tests and string helpers at the top of the parser core. -/

set_option autoImplicit false

namespace XmlParser

def isSpace (value : Nat) : Bool :=
  value == 0x20 || value == 0x09 || value == 0x0A || value == 0x0D

def isNameStart (value : Nat) : Bool :=
  (0x41 ≤ value && value ≤ 0x5A) || (0x61 ≤ value && value ≤ 0x7A) ||
    value == 0x5F || value == 0x3A

def isNameChar (value : Nat) : Bool :=
  isNameStart value || (0x30 ≤ value && value ≤ 0x39) || value == 0x2D || value == 0x2E

def isValidXml10Char (value : Nat) : Bool :=
  value == 0x09 || value == 0x0A || value == 0x0D ||
    (0x20 ≤ value && value ≤ 0xD7FF) || (0xE000 ≤ value && value ≤ 0xFFFD) ||
    (0x10000 ≤ value && value ≤ 0x10FFFF)

def isValidXml11Char (value : Nat) : Bool :=
  (0x1 ≤ value && value ≤ 0xD7FF) || (0xE000 ≤ value && value ≤ 0xFFFD) ||
    (0x10000 ≤ value && value ≤ 0x10FFFF)

def isValidXmlChar (value : Nat) (version : XmlVersion) : Bool :=
  if version = .xml11 then isValidXml11Char value else isValidXml10Char value

/-- Every code point above `0x7F` becomes a question mark. -/
def toAscii (text : List Nat) : Bytes :=
  text.map fun value => if value ≤ 0x7F then UInt8.ofNat value else 0x3F

def lowercaseAscii (value : Bytes) : Bytes :=
  value.map fun ch => if 0x41 ≤ ch && ch ≤ 0x5A then ch - 0x41 + 0x61 else ch

def isAsciiSpace (ch : UInt8) : Bool :=
  ch == 0x20 || ch == 0x09 || ch == 0x0A || ch == 0x0D

def stripAsciiSpace (value : Bytes) : Bytes :=
  value.filter fun ch => !isAsciiSpace ch

/-- The loop of `split_names`, with the name read so far. -/
def splitNamesLoop : Bytes → Bytes → List Bytes
  | [], current => if current.isEmpty then [] else [current]
  | ch :: text, current =>
      if ch == 0x2C then
        if current.isEmpty then splitNamesLoop text current
        else current :: splitNamesLoop text []
      else if ch == 0x3F || ch == 0x2A || ch == 0x2B then splitNamesLoop text current
      else splitNamesLoop text (current ++ [ch])

def splitNames (text : Bytes) : List Bytes :=
  splitNamesLoop text []

/-- The bytes `append_utf8` appends for one value. -/
def utf8Unit (value : Nat) : Bytes :=
  if value ≤ 0x7F then
    [UInt8.ofNat value]
  else if value ≤ 0x7FF then
    [UInt8.ofNat (0xC0 ||| (value >>> 6)), UInt8.ofNat (0x80 ||| (value &&& 0x3F))]
  else if value ≤ 0xFFFF then
    [UInt8.ofNat (0xE0 ||| (value >>> 12)),
      UInt8.ofNat (0x80 ||| ((value >>> 6) &&& 0x3F)),
      UInt8.ofNat (0x80 ||| (value &&& 0x3F))]
  else
    [UInt8.ofNat (0xF0 ||| (value >>> 18)),
      UInt8.ofNat (0x80 ||| ((value >>> 12) &&& 0x3F)),
      UInt8.ofNat (0x80 ||| ((value >>> 6) &&& 0x3F)),
      UInt8.ofNat (0x80 ||| (value &&& 0x3F))]

def appendUtf8 (output : Bytes) (value : Nat) : Bytes :=
  output ++ utf8Unit value

/-- The bytes of a text appended code point by code point. -/
def utf8 (text : List Nat) : Bytes :=
  text.flatMap utf8Unit

/-- `haystack.find(needle) != npos`. -/
def containsText (haystack needle : Bytes) : Bool :=
  haystack.tails.any fun suffix => needle.isPrefixOf suffix

/-! A `std::map` keyed by strings is the list of its entries; the entry that
counts for a key is the first one. -/

/-- `map.find(key)`. -/
def lookupKey {α : Type} (key : Bytes) (entries : List (Bytes × α)) : Option α :=
  (entries.find? fun entry => entry.1 == key).map Prod.snd

/-- `map[key] = value`. -/
def assignKey {α : Type} (key : Bytes) (value : α) (entries : List (Bytes × α)) :
    List (Bytes × α) :=
  (key, value) :: entries

/-- `map.emplace(key, value)`, which keeps an entry that is already there. -/
def emplaceKey {α : Type} (key : Bytes) (value : α) (entries : List (Bytes × α)) :
    List (Bytes × α) :=
  entries ++ [(key, value)]

end XmlParser
