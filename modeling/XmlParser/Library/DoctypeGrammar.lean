import XmlParser.Library.Grammar

/-! Concrete syntax of document type declarations without parameter entities: an external
identifier, and an internal subset of element declarations, general entities and comments. -/

set_option autoImplicit false

namespace XmlParser.Grammar

/-! ## Syntax trees -/

structure Quoted where
  quote : Nat
  body : Text
  deriving DecidableEq

inductive ExternalId where
  | systemId (gap : Text) (name : Quoted)
  | publicId (gap : Text) (publicName : Quoted) (between : Text) (name : Quoted)
  deriving DecidableEq

/-- `space` parts the keyword from the name. -/
inductive Declaration where
  | comment (body : Text)
  | element (space name gap model : Text)
  | entity (space name gap : Text) (value : Quoted) (after : Text)
  deriving DecidableEq

/-- Each declaration has white space in front of it; `before` and `after` are around the
closing bracket. -/
structure InternalSubset where
  declarations : List (Text × Declaration)
  before : Text
  after : Text
  deriving DecidableEq

/-- An external identifier comes with the white space behind it. -/
structure Doctype where
  space : Text
  root : Text
  gap : Text
  externalId : Option (ExternalId × Text)
  subset : Option InternalSubset
  deriving DecidableEq

/-! ## Rendering -/

def Quoted.render (literal : Quoted) : Text := literal.quote :: (literal.body ++ [literal.quote])

/-- `SYSTEM` or `PUBLIC` and the literals. -/
def ExternalId.render : ExternalId → Text
  | .systemId gap name => [0x53, 0x59, 0x53, 0x54, 0x45, 0x4D] ++ (gap ++ name.render)
  | .publicId gap publicName between name =>
      [0x50, 0x55, 0x42, 0x4C, 0x49, 0x43] ++ (gap ++ (publicName.render ++ (between ++ name.render)))

/-- A comment, `<!ELEMENT … >` or `<!ENTITY … >`. -/
def Declaration.render : Declaration → Text
  | .comment body => renderComment body
  | .element space name gap model =>
      [0x3C, 0x21, 0x45, 0x4C, 0x45, 0x4D, 0x45, 0x4E, 0x54] ++ (space ++ (name ++ (gap ++ (model ++ [0x3E]))))
  | .entity space name gap value after =>
      [0x3C, 0x21, 0x45, 0x4E, 0x54, 0x49, 0x54, 0x59] ++
        (space ++ (name ++ (gap ++ (value.render ++ (after ++ [0x3E])))))

def renderDeclarations (declarations : List (Text × Declaration)) : Text :=
  declarations.flatMap fun item => item.1 ++ item.2.render

def InternalSubset.render (subset : InternalSubset) : Text :=
  0x5B :: (renderDeclarations subset.declarations ++ (subset.before ++ 0x5D :: subset.after))

def renderExternalId (externalId : Option (ExternalId × Text)) : Text :=
  (externalId.map fun item => item.1.render ++ item.2).getD []

def renderSubset (subset : Option InternalSubset) : Text := (subset.map InternalSubset.render).getD []

/-- `<!DOCTYPE … >` -/
def Doctype.render (doctype : Doctype) : Text :=
  [0x3C, 0x21, 0x44, 0x4F, 0x43, 0x54, 0x59, 0x50, 0x45] ++ (doctype.space ++ (doctype.root ++ (doctype.gap ++
    (renderExternalId doctype.externalId ++ (renderSubset doctype.subset ++ [0x3E])))))

/-- A document behind an XML declaration and a document type declaration; `before` is
between these. -/
structure WholeDocument where
  declaration : Text
  before : List Misc
  doctype : Option Doctype
  document : Document

def WholeDocument.render (whole : WholeDocument) : Text :=
  whole.declaration ++ (renderMiscs whole.before ++
    ((whole.doctype.map Doctype.render).getD [] ++ whole.document.render))

/-! ## Readable trees -/

structure Quoted.Readable (literal : Quoted) : Prop where
  quote : literal.quote = 0x27 ∨ literal.quote = 0x22
  closed : literal.quote ∉ literal.body

def ExternalId.Readable : ExternalId → Prop
  | .systemId gap name => Spaces gap ∧ name.Readable
  | .publicId gap publicName between name =>
      Spaces gap ∧ publicName.Readable ∧ Spaces between ∧ name.Readable

/-- The name is as long as it can be, and so is the white space around it. -/
def Declaration.Readable : Declaration → Prop
  | .comment body => ¬ [0x2D, 0x2D] <:+: body ++ [0x2D]
  | .element space name gap model =>
      space ≠ [] ∧ Spaces space ∧ Name name ∧ Spaces gap ∧ 0x3E ∉ model ∧ (∀ c ∈ model.head?, ¬ IsSpace c) ∧
        ∀ c ∈ (gap ++ model).head?, ¬ NameChar c
  | .entity space name gap value after =>
      space ≠ [] ∧ Spaces space ∧ Name name ∧ Spaces gap ∧ value.Readable ∧ Spaces after

structure InternalSubset.Readable (subset : InternalSubset) : Prop where
  declarations : ∀ item ∈ subset.declarations, Spaces item.1 ∧ item.2.Readable
  before : Spaces subset.before
  after : Spaces subset.after

structure Doctype.Readable (doctype : Doctype) : Prop where
  apart : doctype.space ≠ []
  space : Spaces doctype.space
  root : Name doctype.root
  gap : Spaces doctype.gap
  joined : doctype.gap = [] → doctype.externalId = none
  externalId : ∀ item ∈ doctype.externalId, item.1.Readable ∧ Spaces item.2
  subset : ∀ subset ∈ doctype.subset, subset.Readable

end XmlParser.Grammar
