import XmlParser.Elements

/-! Which members of the parser read neither the options about external subsets nor
the one about namespaces. -/

set_option autoImplicit false

namespace XmlParser

open XmlParser.Computation Comp

structure ExternalOptions where
  allowExternalDtd : Bool
  externalDtdResolver : Option (Bytes → Except Exception Bytes)
  maxExternalSubsetBytes : Nat

def ParserOptions.external (options : ParserOptions) : ExternalOptions :=
  ⟨options.allowExternalDtd, options.externalDtdResolver, options.maxExternalSubsetBytes⟩

def ParserOptions.reconfigured (options : ParserOptions) (external : ExternalOptions) (namespaces : NamespaceMode) :
    ParserOptions :=
  { options with
    namespaces
    allowExternalDtd := external.allowExternalDtd
    externalDtdResolver := external.externalDtdResolver
    maxExternalSubsetBytes := external.maxExternalSubsetBytes }

namespace Parser

def reconfigured (p : Parser) (external : ExternalOptions) (namespaces : NamespaceMode) : Parser :=
  { p with options := p.options.reconfigured external namespaces }

variable (p : Parser) (external : ExternalOptions) (namespaces : NamespaceMode)

/-! ## Members that read neither of them -/

theorem reconfigured_emit : (p.reconfigured external namespaces).emit = p.emit := rfl

theorem reconfigured_failHere {α : Type} : (p.reconfigured external namespaces).failHere (α := α) = p.failHere := rfl

theorem reconfigured_expect : (p.reconfigured external namespaces).expect = p.expect := rfl

theorem reconfigured_expectSequence : (p.reconfigured external namespaces).expectSequence = p.expectSequence := rfl

theorem reconfigured_skipWhitespace : (p.reconfigured external namespaces).skipWhitespace = p.skipWhitespace := rfl

theorem reconfigured_parseName : (p.reconfigured external namespaces).parseName = p.parseName := rfl

theorem reconfigured_parseQuotedLiteral :
    (p.reconfigured external namespaces).parseQuotedLiteral = p.parseQuotedLiteral := by
  obtain ⟨handler, ⟨⟩, endLocation⟩ := p
  rfl

theorem reconfigured_parseXmlDeclarationIfPresent :
    (p.reconfigured external namespaces).parseXmlDeclarationIfPresent = p.parseXmlDeclarationIfPresent := by
  obtain ⟨handler, ⟨⟩, endLocation⟩ := p
  rfl

theorem reconfigured_scanComment : (p.reconfigured external namespaces).scanComment = p.scanComment := by
  obtain ⟨handler, ⟨⟩, endLocation⟩ := p
  rfl

theorem reconfigured_scanCdata : (p.reconfigured external namespaces).scanCdata = p.scanCdata := by
  obtain ⟨handler, ⟨⟩, endLocation⟩ := p
  rfl

theorem reconfigured_scanProcessingInstruction :
    (p.reconfigured external namespaces).scanProcessingInstruction = p.scanProcessingInstruction := by
  obtain ⟨handler, ⟨⟩, endLocation⟩ := p
  rfl

theorem reconfigured_skipMisc : (p.reconfigured external namespaces).skipMisc = p.skipMisc := by
  have round : (p.reconfigured external namespaces).skipMiscRound = p.skipMiscRound := by
    funext start
    unfold skipMiscRound parseComment parseProcessingInstruction
    rw [reconfigured_skipWhitespace, reconfigured_scanComment, reconfigured_scanProcessingInstruction,
      reconfigured_emit]
  unfold skipMisc
  rw [round]

theorem reconfigured_parseExternalId : (p.reconfigured external namespaces).parseExternalId = p.parseExternalId := by
  unfold parseExternalId
  rw [reconfigured_skipWhitespace, reconfigured_parseQuotedLiteral]

theorem reconfigured_parseBracketedSubset :
    (p.reconfigured external namespaces).parseBracketedSubset = p.parseBracketedSubset := by
  have elements : (p.reconfigured external namespaces).parseElementDeclaration = p.parseElementDeclaration := by
    obtain ⟨handler, ⟨⟩, endLocation⟩ := p
    rfl
  have entities : (p.reconfigured external namespaces).parseEntityDeclaration = p.parseEntityDeclaration := by
    obtain ⟨handler, ⟨⟩, endLocation⟩ := p
    rfl
  have round : (p.reconfigured external namespaces).internalSubsetRound = p.internalSubsetRound := by
    funext start
    unfold internalSubsetRound
    rw [elements, entities, reconfigured_scanComment, reconfigured_skipWhitespace, reconfigured_failHere]
  unfold parseBracketedSubset parseInternalSubset
  rw [round, reconfigured_expect, reconfigured_skipWhitespace]
  rfl

theorem reconfigured_parseExternalSubsetText :
    (p.reconfigured external namespaces).parseExternalSubsetText = p.parseExternalSubsetText := by
  have declaration : (p.reconfigured external namespaces).parseExternalElementDeclaration =
      p.parseExternalElementDeclaration := by
    have limit : (p.reconfigured external namespaces).enforceDtdDeclarationLimit = p.enforceDtdDeclarationLimit := rfl
    have location : (p.reconfigured external namespaces).location = p.location := rfl
    funext text
    unfold parseExternalElementDeclaration
    rw [limit, location, reconfigured_failHere]
  have round : (p.reconfigured external namespaces).externalSubsetRound = p.externalSubsetRound := by
    funext subset
    unfold externalSubsetRound
    rw [declaration, reconfigured_failHere]
  funext subset
  unfold parseExternalSubsetText
  rw [round]

/-- Only the resolver is asked in another way, and not where the options about it are the same. -/
theorem reconfigured_parseDoctypeIfPresent :
    (p.reconfigured p.options.external namespaces).parseDoctypeIfPresent = p.parseDoctypeIfPresent := by
  have resolve : (p.reconfigured p.options.external namespaces).resolveExternalSubsetIfNeeded =
      p.resolveExternalSubsetIfNeeded := by
    unfold resolveExternalSubsetIfNeeded
    rw [reconfigured_parseExternalSubsetText, reconfigured_failHere]
    rfl
  unfold parseDoctypeIfPresent
  rw [resolve, reconfigured_parseExternalId, reconfigured_parseBracketedSubset]
  rfl

/-! ### References -/

theorem reconfigured_expandEntityText (entities : List (Bytes × Bytes)) (start : SourceLocation) (fuel : Nat) :
    (p.reconfigured external namespaces).expandEntityText entities start fuel = p.expandEntityText entities start fuel := by
  have round : (p.reconfigured external namespaces).expandRound = p.expandRound := by
    funext entities start nested current
    obtain ⟨rest, expanded⟩ := current
    cases rest with
    | nil => rfl
    | cons ch rest => rfl
  induction fuel with
  | zero => rfl
  | succ fuel ih =>
      funext depth text
      unfold expandEntityText
      rw [round, ih]
      rfl

theorem reconfigured_takePiece : (p.reconfigured external namespaces).takePiece = p.takePiece := by
  have resolve : (p.reconfigured external namespaces).resolveReference = p.resolveReference := by
    funext entities name start
    unfold resolveReference
    rw [reconfigured_expandEntityText]
    rfl
  have reference : (p.reconfigured external namespaces).parseReference = p.parseReference := by
    unfold parseReference
    rw [resolve]
    rfl
  funext text
  unfold takePiece
  rw [reference]
  rfl

/-! ### Elements -/

theorem reconfigured_parseAttributes : (p.reconfigured external namespaces).parseAttributes = p.parseAttributes := by
  have values : (p.reconfigured external namespaces).attributeValueRound = p.attributeValueRound := by
    funext start quote value
    unfold attributeValueRound
    rw [reconfigured_takePiece, reconfigured_expect, reconfigured_failHere]
    rfl
  have round : (p.reconfigured external namespaces).attributesRound = p.attributesRound := by
    funext attributes
    unfold attributesRound parseAttributeValue
    rw [reconfigured_skipWhitespace, reconfigured_parseName, reconfigured_expect, reconfigured_failHere, values]
    rfl
  unfold parseAttributes
  rw [round]

theorem reconfigured_parseContent (element : ParserM Unit) :
    (p.reconfigured external namespaces).parseContent element = p.parseContent element := by
  have texts : (p.reconfigured external namespaces).textRound = p.textRound := by
    funext start text
    unfold textRound
    rw [reconfigured_takePiece]
    rfl
  have round : (p.reconfigured external namespaces).contentRound = p.contentRound := by
    funext element openName start
    unfold contentRound parseEndTag parseComment parseCdata parseProcessingInstruction parseText
    rw [reconfigured_scanComment, reconfigured_scanCdata, reconfigured_scanProcessingInstruction, reconfigured_emit,
      reconfigured_failHere, reconfigured_expectSequence, reconfigured_parseName, reconfigured_skipWhitespace,
      reconfigured_expect, texts]
    rfl
  funext openName
  unfold parseContent
  rw [round]

end Parser

end XmlParser
