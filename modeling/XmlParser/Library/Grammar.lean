import Mathlib.Data.List.Basic

/-! Concrete syntax of XML documents without XML declaration and document type
declaration, over code points, with names restricted to ASCII. A syntax tree
keeps every choice of its spelling, so rendering it is a function. A dialect
says which characters may stand for themselves and what references denote. -/

set_option autoImplicit false

namespace XmlParser.Grammar

abbrev Text := List Nat

/-! ## Characters and names -/

/-- `S` holds one or more of these. -/
def IsSpace (c : Nat) : Prop := c = 0x20 ∨ c = 0x09 ∨ c = 0x0A ∨ c = 0x0D

def Spaces (text : Text) : Prop := ∀ c ∈ text, IsSpace c

def NameStartChar (c : Nat) : Prop :=
  (0x41 ≤ c ∧ c ≤ 0x5A) ∨ (0x61 ≤ c ∧ c ≤ 0x7A) ∨ c = 0x5F ∨ c = 0x3A

def NameChar (c : Nat) : Prop :=
  NameStartChar c ∨ (0x30 ≤ c ∧ c ≤ 0x39) ∨ c = 0x2D ∨ c = 0x2E

def Name : Text → Prop
  | [] => False
  | first :: rest => NameStartChar first ∧ ∀ c ∈ rest, NameChar c

theorem Name.front {name : Text} (named : Name name) :
    ∃ first rest, name = first :: rest ∧ NameStartChar first := by
  cases name with
  | nil => exact absurd named id
  | cons first rest => exact ⟨first, rest, rfl, named.1⟩

/-- The names that `PITarget` excludes. -/
def ReservedTarget (name : Text) : Prop :=
  ∃ x m l, name = [x, m, l] ∧ (x = 0x58 ∨ x = 0x78) ∧ (m = 0x4D ∨ m = 0x6D) ∧
    (l = 0x4C ∨ l = 0x6C)

/-! ## Syntax trees -/

/-- A unit of character data or of an attribute value: a character standing
for itself, or a reference by name together with the text it denotes. -/
inductive Piece where
  | literal (c : Nat)
  | reference (name value : Text)
  deriving DecidableEq

structure Attribute where
  before : Text
  name : Text
  beforeEquals : Text
  afterEquals : Text
  quote : Nat
  value : List Piece
  deriving DecidableEq

/-- The name and attributes of a start or empty-element tag, with the white
space in front of its closing bracket. -/
structure Tag where
  name : Text
  attributes : List Attribute
  after : Text
  deriving DecidableEq

/-- The content of an element, item by item. -/
inductive Content where
  | nil
  | piece (item : Piece) (next : Content)
  | comment (body : Text) (next : Content)
  | cdata (body : Text) (next : Content)
  | instruction (target gap data : Text) (next : Content)
  | element (tag : Tag) (children : Content) (closeSpace : Text) (next : Content)
  | emptyElement (tag : Tag) (next : Content)
  deriving DecidableEq

inductive Misc where
  | space (c : Nat)
  | comment (body : Text)
  | instruction (target gap data : Text)
  deriving DecidableEq

/-- A document; its element has no body when it is an empty-element tag. -/
structure Document where
  prolog : List Misc
  tag : Tag
  body : Option (Content × Text)
  epilog : List Misc
  deriving DecidableEq

/-! ## Rendering -/

def Piece.render : Piece → Text
  | .literal c => [c]
  | .reference name _ => 0x26 :: (name ++ [0x3B])

def Piece.value : Piece → Text
  | .literal c => [c]
  | .reference _ value => value

def renderPieces (pieces : List Piece) : Text := pieces.flatMap Piece.render

def pieceValues (pieces : List Piece) : Text := pieces.flatMap Piece.value

def Attribute.render (attr : Attribute) : Text :=
  attr.before ++ attr.name ++ attr.beforeEquals ++ 0x3D ::
    (attr.afterEquals ++ attr.quote :: (renderPieces attr.value ++ [attr.quote]))

def renderAttributes (attributes : List Attribute) : Text :=
  attributes.flatMap Attribute.render

/-- The tag between its opening and its closing bracket. -/
def Tag.render (tag : Tag) : Text :=
  tag.name ++ renderAttributes tag.attributes ++ tag.after

/-- `<!--` body `-->` -/
def renderComment (body : Text) : Text :=
  [0x3C, 0x21, 0x2D, 0x2D] ++ body ++ [0x2D, 0x2D, 0x3E]

/-- `<![CDATA[` body `]]>` -/
def renderCdata (body : Text) : Text :=
  [0x3C, 0x21, 0x5B, 0x43, 0x44, 0x41, 0x54, 0x41, 0x5B] ++ body ++ [0x5D, 0x5D, 0x3E]

/-- `<?` target gap data `?>` -/
def renderInstruction (target gap data : Text) : Text :=
  [0x3C, 0x3F] ++ target ++ gap ++ data ++ [0x3F, 0x3E]

/-- `</` name space `>` -/
def renderEndTag (name space : Text) : Text :=
  [0x3C, 0x2F] ++ name ++ space ++ [0x3E]

def Content.render : Content → Text
  | .nil => []
  | .piece item next => item.render ++ next.render
  | .comment body next => renderComment body ++ next.render
  | .cdata body next => renderCdata body ++ next.render
  | .instruction target gap data next => renderInstruction target gap data ++ next.render
  | .element tag children closeSpace next =>
      [0x3C] ++ tag.render ++ [0x3E] ++ children.render ++
        renderEndTag tag.name closeSpace ++ next.render
  | .emptyElement tag next => [0x3C] ++ tag.render ++ [0x2F, 0x3E] ++ next.render

/-- An element in front of further content. -/
def elementContent (tag : Tag) (body : Option (Content × Text)) (next : Content) : Content :=
  match body with
  | none => .emptyElement tag next
  | some (children, closeSpace) => .element tag children closeSpace next

def Misc.render : Misc → Text
  | .space c => [c]
  | .comment body => renderComment body
  | .instruction target gap data => renderInstruction target gap data

def renderMiscs (miscs : List Misc) : Text := miscs.flatMap Misc.render

def Document.render (document : Document) : Text :=
  renderMiscs document.prolog ++
    ((elementContent document.tag document.body .nil).render ++
      renderMiscs document.epilog)

/-! ## Readable trees -/

/-- The characters that may stand for themselves, and what names denote. -/
structure Dialect where
  literal : Nat → Prop
  denotes : Text → Text → Prop

variable (d : Dialect)

def Literals (text : Text) : Prop := ∀ c ∈ text, d.literal c

/-- A piece whose literal characters are none of the excluded ones. -/
def Piece.Readable (excluded : Nat → Prop) : Piece → Prop
  | .literal c => d.literal c ∧ ¬ excluded c
  | .reference name value => 0x3B ∉ name ∧ d.denotes name value

def ExcludedFromText (c : Nat) : Prop := c = 0x3C ∨ c = 0x26

def ExcludedFromValue (quote c : Nat) : Prop := c = 0x3C ∨ c = 0x26 ∨ c = quote

structure Attribute.Readable (attr : Attribute) : Prop where
  before : Spaces attr.before
  name : Name attr.name
  beforeEquals : Spaces attr.beforeEquals
  afterEquals : Spaces attr.afterEquals
  quote : attr.quote = 0x27 ∨ attr.quote = 0x22
  value : ∀ item ∈ attr.value, item.Readable d (ExcludedFromValue attr.quote)

/-- White space parts the name of the tag from its first attribute. -/
structure Tag.Readable (tag : Tag) : Prop where
  name : Name tag.name
  attributes : ∀ attr ∈ tag.attributes, attr.Readable d
  first : ∀ attr ∈ tag.attributes.head?, attr.before ≠ []
  distinct : (tag.attributes.map Attribute.name).Nodup
  after : Spaces tag.after

/-- No two hyphens in a row, and none in front of the closing `-->`. -/
structure CommentReadable (body : Text) : Prop where
  literals : Literals d body
  hyphens : ¬ [0x2D, 0x2D] <:+: body ++ [0x2D]

structure CdataReadable (body : Text) : Prop where
  literals : Literals d body
  close : ¬ [0x5D, 0x5D, 0x3E] <:+: body

/-- A name character of the data would belong to the target without a gap. -/
structure InstructionReadable (target gap data : Text) : Prop where
  name : Name target
  reserved : ¬ ReservedTarget target
  spaces : Spaces gap
  literals : Literals d data
  close : ¬ [0x3F, 0x3E] <:+: data
  start : ∀ c ∈ data.head?, ¬ IsSpace c
  joined : gap = [] → ∀ c ∈ data.head?, ¬ NameChar c

def Content.Readable : Content → Prop
  | .nil => True
  | .piece item next => item.Readable d ExcludedFromText ∧ next.Readable
  | .comment body next => CommentReadable d body ∧ next.Readable
  | .cdata body next => CdataReadable d body ∧ next.Readable
  | .instruction target gap data next =>
      InstructionReadable d target gap data ∧ next.Readable
  | .element tag children closeSpace next =>
      tag.Readable d ∧ children.Readable ∧ Spaces closeSpace ∧ next.Readable
  | .emptyElement tag next => tag.Readable d ∧ next.Readable

def Misc.Readable : Misc → Prop
  | .space c => IsSpace c
  | .comment body => CommentReadable d body
  | .instruction target gap data => InstructionReadable d target gap data

structure Document.Readable (document : Document) : Prop where
  prolog : ∀ misc ∈ document.prolog, misc.Readable d
  element : (elementContent document.tag document.body .nil).Readable d
  epilog : ∀ misc ∈ document.epilog, misc.Readable d

/-- References play no part in misc items. -/
theorem Misc.Readable.of_literal {d e : Dialect} (literal : ∀ c, d.literal c → e.literal c)
    {misc : Misc} (readable : misc.Readable d) : misc.Readable e := by
  cases misc with
  | space c => exact readable
  | comment body =>
      exact { readable with literals := fun c member => literal c (readable.literals c member) }
  | instruction target gap data =>
      exact { readable with literals := fun c member => literal c (readable.literals c member) }

/-- A dialect allows whatever another one does. -/
structure Dialect.Within (d e : Dialect) : Prop where
  literal : ∀ c, d.literal c → e.literal c
  denotes : ∀ name value, d.denotes name value → e.denotes name value

section Within

variable {d} {e : Dialect} (within : d.Within e)

include within

theorem Literals.mono {text : Text} (literals : Literals d text) : Literals e text :=
  fun c member => within.literal c (literals c member)

theorem Piece.Readable.mono {excluded : Nat → Prop} {item : Piece}
    (readable : item.Readable d excluded) : item.Readable e excluded := by
  cases item with
  | literal c => exact ⟨within.literal c readable.1, readable.2⟩
  | reference name value => exact ⟨readable.1, within.denotes name value readable.2⟩

theorem Attribute.Readable.mono {attr : Attribute} (readable : attr.Readable d) : attr.Readable e :=
  { readable with value := fun item member => (readable.value item member).mono within }

theorem Tag.Readable.mono {tag : Tag} (readable : tag.Readable d) : tag.Readable e :=
  { readable with attributes := fun attr member => (readable.attributes attr member).mono within }

theorem CommentReadable.mono {body : Text} (readable : CommentReadable d body) :
    CommentReadable e body :=
  { readable with literals := readable.literals.mono within }

theorem CdataReadable.mono {body : Text} (readable : CdataReadable d body) : CdataReadable e body :=
  { readable with literals := readable.literals.mono within }

theorem InstructionReadable.mono {target gap data : Text}
    (readable : InstructionReadable d target gap data) : InstructionReadable e target gap data :=
  { readable with literals := readable.literals.mono within }

theorem Content.Readable.mono {content : Content} (readable : content.Readable d) :
    content.Readable e := by
  induction content with
  | nil => exact trivial
  | piece item next ih => exact ⟨readable.1.mono within, ih readable.2⟩
  | comment body next ih => exact ⟨readable.1.mono within, ih readable.2⟩
  | cdata body next ih => exact ⟨readable.1.mono within, ih readable.2⟩
  | instruction target gap data next ih => exact ⟨readable.1.mono within, ih readable.2⟩
  | element tag children closeSpace next ihChildren ihNext =>
      obtain ⟨readableTag, readableChildren, spaces, readableNext⟩ := readable
      exact ⟨readableTag.mono within, ihChildren readableChildren, spaces, ihNext readableNext⟩
  | emptyElement tag next ih => exact ⟨readable.1.mono within, ih readable.2⟩

theorem Misc.Readable.mono {misc : Misc} (readable : misc.Readable d) : misc.Readable e :=
  readable.of_literal within.literal

theorem Document.Readable.mono {document : Document} (readable : document.Readable d) :
    document.Readable e where
  prolog misc member := (readable.prolog misc member).mono within
  element := readable.element.mono within
  epilog misc member := (readable.epilog misc member).mono within

end Within

/-! ## The rules of the recommendation that no single piece shows -/

/-- The literal characters that content begins with. -/
def Content.leadingText : Content → Text
  | .piece (.literal c) next => c :: next.leadingText
  | _ => []

/-- `(S Attribute)*`: white space in front of every attribute. -/
def Tag.Separated (tag : Tag) : Prop :=
  ∀ attr ∈ tag.attributes, attr.before ≠ []

/-- `PITarget (S (Char* - (Char* '?>' Char*)))?`: white space in front of data. -/
def InstructionSeparated (gap data : Text) : Prop := gap = [] → data = []

/-- White space where the productions ask for it, and no `]]>` in the
character data. -/
def Content.Regular : Content → Prop
  | .nil => True
  | .piece item next =>
      ¬ [0x5D, 0x5D, 0x3E] <+: (Content.piece item next).leadingText ∧ next.Regular
  | .comment _ next => next.Regular
  | .cdata _ next => next.Regular
  | .instruction _ gap data next => InstructionSeparated gap data ∧ next.Regular
  | .element tag children _ next => tag.Separated ∧ children.Regular ∧ next.Regular
  | .emptyElement tag next => tag.Separated ∧ next.Regular

def Misc.Regular : Misc → Prop
  | .instruction _ gap data => InstructionSeparated gap data
  | _ => True

structure Document.Regular (document : Document) : Prop where
  prolog : ∀ misc ∈ document.prolog, misc.Regular
  element : (elementContent document.tag document.body .nil).Regular
  epilog : ∀ misc ∈ document.epilog, misc.Regular

/-- Derivable from the `document` production over the dialect. -/
structure Document.Conforms (document : Document) : Prop where
  readable : document.Readable d
  regular : document.Regular

/-! ## The dialects of the recommendations -/

/-- `Char` of XML 1.0. -/
def Char10 (c : Nat) : Prop :=
  c = 0x09 ∨ c = 0x0A ∨ c = 0x0D ∨ (0x20 ≤ c ∧ c ≤ 0xD7FF) ∨
    (0xE000 ≤ c ∧ c ≤ 0xFFFD) ∨ (0x10000 ≤ c ∧ c ≤ 0x10FFFF)

/-- `Char` of XML 1.1. -/
def Char11 (c : Nat) : Prop :=
  (0x1 ≤ c ∧ c ≤ 0xD7FF) ∨ (0xE000 ≤ c ∧ c ≤ 0xFFFD) ∨ (0x10000 ≤ c ∧ c ≤ 0x10FFFF)

/-- `RestrictedChar` of XML 1.1, which only references may bring in. -/
def RestrictedChar (c : Nat) : Prop :=
  (0x1 ≤ c ∧ c ≤ 0x8) ∨ (0xB ≤ c ∧ c ≤ 0xC) ∨ (0xE ≤ c ∧ c ≤ 0x1F) ∨
    (0x7F ≤ c ∧ c ≤ 0x84) ∨ (0x86 ≤ c ∧ c ≤ 0x9F)

def digit? (c : Nat) : Option Nat :=
  if 0x30 ≤ c ∧ c ≤ 0x39 then some (c - 0x30)
  else if 0x61 ≤ c ∧ c ≤ 0x66 then some (c - 0x61 + 10)
  else if 0x41 ≤ c ∧ c ≤ 0x46 then some (c - 0x41 + 10)
  else none

/-- The number that the digits of a base continue `value` to. -/
def digits? (base : Nat) : Text → Nat → Option Nat
  | [], value => some value
  | c :: rest, value =>
      match digit? c with
      | none => none
      | some digit => if digit < base then digits? base rest (value * base + digit) else none

def numeral? (base : Nat) (text : Text) : Option Nat :=
  if text.isEmpty then none else digits? base text 0

/-- The number of a character reference, its name being what stands between
`&` and `;`. -/
def charRef? : Text → Option Nat
  | 0x23 :: 0x78 :: digits => numeral? 16 digits
  | 0x23 :: digits => numeral? 10 digits
  | _ => none

def predefined? (name : Text) : Option Nat :=
  if name = [0x6C, 0x74] then some 0x3C
  else if name = [0x67, 0x74] then some 0x3E
  else if name = [0x61, 0x6D, 0x70] then some 0x26
  else if name = [0x61, 0x70, 0x6F, 0x73] then some 0x27
  else if name = [0x71, 0x75, 0x6F, 0x74] then some 0x22
  else none

/-- What a name denotes without entity declarations. -/
def Denotes (legal : Nat → Prop) (name value : Text) : Prop :=
  ∃ c, value = [c] ∧ (predefined? name = some c ∨ (charRef? name = some c ∧ legal c))

def Dialect.xml10 : Dialect := ⟨Char10, Denotes Char10⟩

def Dialect.xml11 : Dialect := ⟨fun c => Char11 c ∧ ¬ RestrictedChar c, Denotes Char11⟩

/-! ## The names of references -/

/-- The predefined names, with what they stand for. -/
theorem predefined?_mem {name : Text} {c : Nat} (known : predefined? name = some c) :
    (name, c) ∈ [([0x6C, 0x74], 0x3C), ([0x67, 0x74], 0x3E), ([0x61, 0x6D, 0x70], 0x26),
      ([0x61, 0x70, 0x6F, 0x73], 0x27), ([0x71, 0x75, 0x6F, 0x74], 0x22)] := by
  unfold predefined? at known
  split at known
  · rename_i same
    cases known
    rw [same]
    decide
  split at known
  · rename_i same
    cases known
    rw [same]
    decide
  split at known
  · rename_i same
    cases known
    rw [same]
    decide
  split at known
  · rename_i same
    cases known
    rw [same]
    decide
  split at known
  · rename_i same
    cases known
    rw [same]
    decide
  · cases known

theorem digits?_all {base : Nat} {digits : Text} {value number : Nat}
    (read : digits? base digits value = some number) :
    ∀ c ∈ digits, (digit? c).isSome = true := by
  induction digits generalizing value with
  | nil => exact fun _ member => nomatch member
  | cons c rest ih =>
      unfold digits? at read
      split at read
      · cases read
      · rename_i digit found
        split at read
        · refine List.forall_mem_cons.mpr ⟨?_, ih read⟩
          rw [found]
          rfl
        · cases read

theorem numeral?_all {base : Nat} {digits : Text} {number : Nat}
    (read : numeral? base digits = some number) : ∀ c ∈ digits, (digit? c).isSome = true := by
  unfold numeral? at read
  split at read
  · cases read
  · exact digits?_all read

end XmlParser.Grammar
