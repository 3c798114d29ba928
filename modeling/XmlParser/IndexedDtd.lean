import XmlParser.IndexedReferences
import XmlParser.DeclarationOffsets

/-! The document type declaration with the positions of its loops. -/

set_option autoImplicit false

namespace XmlParser

open XmlParser.Computation Comp

namespace Indexed

/-- `text.back()` -/
def back {σ α : Type} (text : List α) : Comp σ Halt α := Comp.last .undefinedBehavior text

/-- `while (cursor < text.size() && test(text[cursor])) { ++cursor; }` -/
def skipFrom {σ : Type} (test : UInt8 → Bool) (text : Bytes) (cursor : Nat) : Comp σ Halt Nat :=
  Comp.seek .undefinedBehavior .outOfFuel test text cursor

/-- `model.size() >= 2 && model.front() == '(' && model.back() == ')'` -/
def isBracketed {σ : Type} (model : Bytes) : Comp σ Halt Bool := do
  if model.length ≥ 2 then
    if (← subscript model 0) == 0x28 then
      let final ← back model
      pure (final == 0x29)
    else
      pure false
  else
    pure false

/-- `declaration.empty() || declaration.back() != '>'` -/
def lacksClose {σ : Type} (declaration : Bytes) : Comp σ Halt Bool := do
  if declaration.isEmpty then
    pure true
  else
    let final ← back declaration
    pure (final != 0x3E)

def parseElementModel {σ : Type} (model : Bytes) (location : SourceLocation) :
    Comp σ Halt ElementDeclaration := do
  let model := stripAsciiSpace model
  if model == ascii "ANY" then pure ⟨.any, []⟩
  else if model == ascii "EMPTY" then pure ⟨.empty, []⟩
  else if model == ascii "(#PCDATA)" then pure ⟨.pcdata, []⟩
  else if ← isBracketed model then
    let body ← Comp.window .undefinedBehavior model 1 (model.length - 2)
    let children := splitNames body
    if !children.isEmpty then pure ⟨.children, children⟩
    else failAt .validity location "unsupported element declaration model"
  else
    failAt .validity location "unsupported element declaration model"

namespace Parser

variable (p : Parser)

def modifyDtd (update : DtdState → DtdState) : ParserM Unit :=
  beside (XmlParser.Parser.modifyDtd update)

def failHere {α : Type} (kind : ErrorKind) (message : String) : ParserM α := do
  failAt kind (← scan p.location) message

def enforceDtdDeclarationLimit : ParserM Unit := do
  modifyDtd fun dtd => { dtd with declarationCount := dtd.declarationCount + 1 }
  if (← Comp.read fun s => s.members.dtd.declarationCount) > p.options.maxDtdDeclarations then
    p.failHere .resourceLimit "DTD declaration count exceeds max_dtd_declarations"
  else
    pure ()

def declareElement (name model : Bytes) (location : SourceLocation) : ParserM Unit := do
  if (← Comp.read fun s => lookupKey name s.members.dtd.elements).isSome then
    failAt .validity location "duplicate element declaration"
  else
    let declaration ← parseElementModel model location
    modifyDtd fun dtd => { dtd with elements := emplaceKey name declaration dtd.elements }

def parseElementDeclaration : ParserM Unit := do
  let start ← scan p.location
  p.enforceDtdDeclarationLimit
  scan (p.expectSequence (u32 "<!ELEMENT") "ELEMENT declaration")
  if !isSpace (← scan p.peek) then
    p.failHere .wellFormedness "ELEMENT declaration requires whitespace"
  else
    scan p.skipWhitespace
    let name ← scan p.parseName
    scan p.skipWhitespace
    let model ← scan (p.whilePeek (· != 0x3E) p.takePeek [])
    scan (p.expect 0x3E "ELEMENT declaration close")
    declareElement name model start

def enterEntity (name replacement : Bytes) (start : SourceLocation) : ParserM Unit := do
  if replacement.length > p.options.maxEntityReplacementBytes then
    failAt .resourceLimit start "entity replacement exceeds max_entity_replacement_bytes"
  else
    scan p.skipWhitespace
    scan (p.expect 0x3E "ENTITY declaration close")
    if (← Comp.read fun s => lookupKey name s.members.dtd.entities).isSome then
      failAt .validity start "duplicate entity declaration"
    else
      modifyDtd fun dtd => { dtd with entities := emplaceKey name replacement dtd.entities }

def parseEntityDeclaration : ParserM Unit := do
  let start ← scan p.location
  p.enforceDtdDeclarationLimit
  scan (p.expectSequence (u32 "<!ENTITY") "ENTITY declaration")
  if !isSpace (← scan p.peek) then
    p.failHere .wellFormedness "ENTITY declaration requires whitespace"
  else
    scan p.skipWhitespace
    if (← scan p.peek) == 0x25 then
      p.failHere .wellFormedness "parameter entities are not supported"
    else
      let name ← scan p.parseName
      scan p.skipWhitespace
      let replacement ← scan p.parseQuotedLiteral
      p.enterEntity name replacement start

def internalSubsetRound (_ : Unit) : ParserM (LoopStep Unit Unit) := do
  if ← scan p.eof then
    p.failHere .wellFormedness "truncated DOCTYPE internal subset"
  else
    scan p.skipWhitespace
    if (← scan p.peek) == 0x5D then
      pure (.done ())
    else if ← scan (p.startsWith (u32 "<!--")) then
      let _ ← scan p.scanComment
      pure (.next ())
    else if ← scan (p.startsWith (u32 "<!ELEMENT")) then
      p.parseElementDeclaration
      pure (.next ())
    else if ← scan (p.startsWith (u32 "<!ENTITY")) then
      p.parseEntityDeclaration
      pure (.next ())
    else
      p.failHere .wellFormedness "unsupported DTD declaration"

def parseInternalSubset : ParserM Unit := p.loop p.internalSubsetRound ()

/-- `declaration` is a slice of the external subset from `<!ELEMENT` on. -/
def parseExternalElementDeclaration (declaration : Bytes) : ParserM Unit := do
  p.enforceDtdDeclarationLimit
  let nameStart ← skipFrom (· == 0x20) declaration (ascii "<!ELEMENT").length
  let nameEnd ← skipFrom (· != 0x20) declaration nameStart
  let name ← substr declaration nameStart (nameEnd - nameStart)
  let cursor ← skipFrom (· == 0x20) declaration nameEnd
  if ← lacksClose declaration then
    p.failHere .validity "invalid external element declaration"
  else
    let model ← substr declaration cursor (sizeSub (sizeSub declaration.length cursor) 1)
    declareElement name model (← scan p.location)

/-- One round of the loop of `parse_external_subset_text` from its cursor on. -/
def externalSubsetRound (subset : Bytes) (cursor : Nat) : ParserM (LoopStep Nat Unit) := do
  if cursor < subset.length then
    let cursor ← skipFrom isAsciiSpace subset cursor
    if cursor ≥ subset.length then
      pure (.done ())
    else if (← substr subset cursor 9) == ascii "<!ELEMENT" then
      match Comp.find subset 0x3E cursor with
      | none => p.failHere .validity "truncated external element declaration"
      | some close =>
          let declaration ← substr subset cursor (close - cursor + 1)
          p.parseExternalElementDeclaration declaration
          pure (.next (close + 1))
    else
      p.failHere .validity "unsupported external DTD declaration"
  else
    pure (.done ())

def parseExternalSubsetText (subset : Bytes) : ParserM Unit :=
  Comp.loop (fun cursor _ => subset.length - cursor) .outOfFuel (p.externalSubsetRound subset) 0

def resolveExternalSubsetIfNeeded : ParserM Unit := do
  let dtd ← Comp.read fun s => s.members.dtd
  if !dtd.hasExternalSubset || p.options.validation != .dtd then
    pure ()
  else
    match p.options.allowExternalDtd, p.options.externalDtdResolver with
    | true, some resolve =>
        match resolve dtd.externalSystemId with
        | .error exception => Comp.throw (.thrown exception)
        | .ok subset =>
            if subset.length > p.options.maxExternalSubsetBytes then
              p.failHere .resourceLimit
                "external DTD subset exceeds max_external_subset_bytes"
            else
              p.parseExternalSubsetText subset
    | _, _ => p.failHere .validity "external DTD resolution is disabled"

def enterExternalId (systemId : Bytes) : ParserM Unit :=
  modifyDtd fun dtd => { dtd with hasExternalSubset := true, externalSystemId := systemId }

def parseExternalId : ParserM Unit := do
  if ← scan (p.startsWith (u32 "SYSTEM")) then
    scan (Comp.modify (· + 6))
    scan p.skipWhitespace
    let systemId ← scan p.parseQuotedLiteral
    enterExternalId systemId
    scan p.skipWhitespace
  else if ← scan (p.startsWith (u32 "PUBLIC")) then
    scan (Comp.modify (· + 6))
    scan p.skipWhitespace
    let _ ← scan p.parseQuotedLiteral
    scan p.skipWhitespace
    let systemId ← scan p.parseQuotedLiteral
    enterExternalId systemId
    scan p.skipWhitespace
  else
    pure ()

def parseBracketedSubset : ParserM Unit := do
  if (← scan p.peek) == 0x5B then
    scan p.advance
    p.parseInternalSubset
    scan (p.expect 0x5D "DOCTYPE internal subset close")
    scan p.skipWhitespace
  else
    pure ()

def parseDoctypeIfPresent : ParserM Unit := do
  if !(← scan (p.startsWith (u32 "<!DOCTYPE"))) then
    pure ()
  else
    modifyDtd fun dtd => { dtd with hasDoctype := true }
    scan (p.expectSequence (u32 "<!DOCTYPE") "DOCTYPE declaration")
    if !isSpace (← scan p.peek) then
      p.failHere .wellFormedness "DOCTYPE requires whitespace after keyword"
    else
      scan p.skipWhitespace
      let rootName ← scan p.parseName
      modifyDtd fun dtd => { dtd with rootName }
      scan p.skipWhitespace
      p.parseExternalId
      p.parseBracketedSubset
      scan (p.expect 0x3E "DOCTYPE close")
      p.resolveExternalSubsetIfNeeded

end Parser

/-! ## Strings in range -/

theorem skipFrom_eq {σ : Type} (test : UInt8 → Bool) (text : Bytes) (cursor : Nat) :
    (skipFrom test text cursor : Comp σ Halt Nat) = pure (XmlParser.skipFrom test text cursor) :=
  seek_eq test cursor

theorem skipFrom_le {text : Bytes} {cursor : Nat} (inside : cursor ≤ text.length) (test : UInt8 → Bool) :
    XmlParser.skipFrom test text cursor ≤ text.length := by
  have short := (List.takeWhile_prefix test (l := text.drop cursor)).length_le
  rw [List.length_drop] at short
  unfold XmlParser.skipFrom
  omega

theorem isBracketed_eq {σ : Type} (model : Bytes) :
    (isBracketed model : Comp σ Halt Bool) =
      pure (decide (model.length ≥ 2) && model.head? == some 0x28 && model.getLast? == some 0x29) := by
  unfold isBracketed subscript back
  by_cases long : model.length ≥ 2
  · obtain ⟨first, isRest⟩ := drop_eq_cons (show 0 < model.length by omega)
    have nonempty : model ≠ [] := List.ne_nil_of_length_pos (by omega)
    have head : model.head? = some first := by
      rw [← List.drop_zero (l := model), isRest, List.head?_cons]
    rw [if_pos long, get_of_drop isRest, pure_bind, decide_eq_true long, head,
      last_of_getLast? (List.getLast?_eq_some_getLast nonempty), List.getLast?_eq_some_getLast nonempty,
      Option.some_beq_some, Option.some_beq_some]
    cases first == 0x28 <;> rfl
  · rw [if_neg long, decide_eq_false long]
    rfl

theorem lacksClose_eq {σ : Type} (declaration : Bytes) :
    (lacksClose declaration : Comp σ Halt Bool) = pure (declaration.getLast? != some 0x3E) := by
  unfold lacksClose back
  cases isLast : declaration.getLast? with
  | none =>
      rw [List.getLast?_eq_none_iff.mp isLast]
      rfl
  | some final =>
      have nonempty : declaration.isEmpty = false := by
        cases declaration with
        | nil => cases isLast
        | cons => rfl
      rw [nonempty, if_neg Bool.false_ne_true, last_of_getLast? isLast, pure_bind, bne, bne,
        Option.some_beq_some]

/-- The brackets are looked for and taken off inside the model. -/
theorem simulates_parseElementModel {σ τ : Type} {view : σ → τ} (model : Bytes) (location : SourceLocation) :
    Simulates view (parseElementModel model location)
      (XmlParser.Parser.parseElementModel model location) := by
  unfold parseElementModel XmlParser.Parser.parseElementModel
  dsimp only
  generalize stripAsciiSpace model = model
  refine simulates_ite (fun _ => simulates_pure _) fun _ => ?_
  refine simulates_ite (fun _ => simulates_pure _) fun _ => ?_
  refine simulates_ite (fun _ => simulates_pure _) fun _ => ?_
  rw [isBracketed_eq, pure_bind]
  cases bracketed : decide (model.length ≥ 2) && model.head? == some 0x28 && model.getLast? == some 0x29 with
  | false => exact simulates_throw _
  | true =>
      have long : 2 ≤ model.length := by
        rw [Bool.and_eq_true, Bool.and_eq_true, decide_eq_true_iff] at bracketed
        exact bracketed.1.1
      rw [if_pos rfl, window_of_le (by omega), pure_bind, Bool.true_and]
      exact simulates_ite (fun _ => simulates_pure _) fun _ => simulates_throw _

namespace Parser

variable (p : Parser)

/-! ## Members in range -/

theorem mirrors_failHere {α : Type} (kind : ErrorKind) (message : String) :
    p.Mirrors (p.failHere kind message : ParserM α) (p.listed.failHere kind message) :=
  simulates_bind (p.mirrors_scan p.follows_location) fun _ => simulates_throw _

theorem mirrors_modifyDtd (update : DtdState → DtdState) :
    p.Mirrors (modifyDtd update) (XmlParser.Parser.modifyDtd update) :=
  p.mirrors_beside fun _ => simulates_modify fun _ => rfl

theorem mirrors_enforceDtdDeclarationLimit :
    p.Mirrors p.enforceDtdDeclarationLimit p.listed.enforceDtdDeclarationLimit := by
  refine simulates_bind (p.mirrors_modifyDtd _) fun _ => simulates_bind (p.mirrors_members fun _ _ => rfl) ?_
  exact fun count => simulates_ite (fun _ => p.mirrors_failHere _ _) fun _ => simulates_pure _

theorem mirrors_declareElement (name model : Bytes) (location : SourceLocation) :
    p.Mirrors (declareElement name model location) (XmlParser.Parser.declareElement name model location) := by
  refine simulates_bind (p.mirrors_members fun _ _ => rfl) fun declared => ?_
  refine simulates_ite (fun _ => simulates_throw _) fun _ => ?_
  exact simulates_bind (simulates_parseElementModel _ _) fun _ => p.mirrors_modifyDtd _

theorem mirrors_parseElementDeclaration :
    p.Mirrors p.parseElementDeclaration p.listed.parseElementDeclaration := by
  refine simulates_bind (p.mirrors_scan p.follows_location) fun start => ?_
  refine simulates_bind p.mirrors_enforceDtdDeclarationLimit fun _ => ?_
  refine simulates_bind (p.mirrors_scan (p.follows_expectSequence (by decide) _)) fun _ => ?_
  refine simulates_bind (p.mirrors_scan p.follows_peek) fun next => ?_
  refine simulates_ite (fun _ => p.mirrors_failHere _ _) fun _ => ?_
  refine simulates_bind (p.mirrors_scan p.follows_skipWhitespace) fun _ => ?_
  refine simulates_bind (p.mirrors_scan p.follows_parseName) fun name => ?_
  refine simulates_bind (p.mirrors_scan p.follows_skipWhitespace) fun _ => ?_
  refine simulates_bind (p.mirrors_scan (p.follows_whilePeek p.follows_takePeek _ _)) fun model => ?_
  exact simulates_bind (p.mirrors_scan (p.follows_expect _ _)) fun _ => p.mirrors_declareElement _ _ _

theorem mirrors_enterEntity (name replacement : Bytes) (start : SourceLocation) :
    p.Mirrors (p.enterEntity name replacement start) (p.listed.enterEntity name replacement start) := by
  refine simulates_ite (fun _ => simulates_throw _) fun _ => ?_
  refine simulates_bind (p.mirrors_scan p.follows_skipWhitespace) fun _ => ?_
  refine simulates_bind (p.mirrors_scan (p.follows_expect _ _)) fun _ => ?_
  refine simulates_bind (p.mirrors_members fun _ _ => rfl) fun declared => ?_
  exact simulates_ite (fun _ => simulates_throw _) fun _ => p.mirrors_modifyDtd _

theorem mirrors_parseEntityDeclaration :
    p.Mirrors p.parseEntityDeclaration p.listed.parseEntityDeclaration := by
  refine simulates_bind (p.mirrors_scan p.follows_location) fun start => ?_
  refine simulates_bind p.mirrors_enforceDtdDeclarationLimit fun _ => ?_
  refine simulates_bind (p.mirrors_scan (p.follows_expectSequence (by decide) _)) fun _ => ?_
  refine simulates_bind (p.mirrors_scan p.follows_peek) fun next => ?_
  refine simulates_ite (fun _ => p.mirrors_failHere _ _) fun _ => ?_
  refine simulates_bind (p.mirrors_scan p.follows_skipWhitespace) fun _ => ?_
  refine simulates_bind (p.mirrors_scan p.follows_peek) fun percent => ?_
  refine simulates_ite (fun _ => p.mirrors_failHere _ _) fun _ => ?_
  refine simulates_bind (p.mirrors_scan p.follows_parseName) fun name => ?_
  refine simulates_bind (p.mirrors_scan p.follows_skipWhitespace) fun _ => ?_
  exact simulates_bind (p.mirrors_scan p.follows_parseQuotedLiteral) fun _ => p.mirrors_enterEntity _ _ _

theorem mirrors_parseInternalSubset : p.Mirrors p.parseInternalSubset p.listed.parseInternalSubset := by
  refine p.mirrors_loop (fun _ => ?_) ()
  refine simulates_bind (p.mirrors_scan p.follows_eof) fun atEnd => ?_
  refine simulates_ite (fun _ => p.mirrors_failHere _ _) fun _ => ?_
  refine simulates_bind (p.mirrors_scan p.follows_skipWhitespace) fun _ => ?_
  refine simulates_bind (p.mirrors_scan p.follows_peek) fun next => ?_
  refine simulates_ite (fun _ => simulates_pure _) fun _ => ?_
  refine simulates_bind (p.mirrors_scan (p.follows_startsWith (by decide))) fun comment => ?_
  refine simulates_ite (fun _ => ?_) fun _ => ?_
  · exact simulates_bind (p.mirrors_scan p.follows_scanComment) fun _ => simulates_pure _
  refine simulates_bind (p.mirrors_scan (p.follows_startsWith (by decide))) fun element => ?_
  refine simulates_ite (fun _ => ?_) fun _ => ?_
  · exact simulates_bind p.mirrors_parseElementDeclaration fun _ => simulates_pure _
  refine simulates_bind (p.mirrors_scan (p.follows_startsWith (by decide))) fun entity => ?_
  refine simulates_ite (fun _ => ?_) fun _ => p.mirrors_failHere _ _
  exact simulates_bind p.mirrors_parseEntityDeclaration fun _ => simulates_pure _

/-! ## The external subset in range -/

/-- Every slice that is handed over holds the keyword that its reader steps over. -/
theorem mirrors_parseExternalElementDeclaration {declaration : Bytes}
    (keyword : (ascii "<!ELEMENT").length ≤ declaration.length) :
    p.Mirrors (p.parseExternalElementDeclaration declaration)
      (p.listed.parseExternalElementDeclaration declaration) := by
  have nameStart := skipFrom_le keyword (· == 0x20)
  have nameEnd := skipFrom_le nameStart (· != 0x20)
  have modelStart := skipFrom_le nameEnd (· == 0x20)
  unfold parseExternalElementDeclaration substr
  refine simulates_bind p.mirrors_enforceDtdDeclarationLimit fun _ => ?_
  rw [skipFrom_eq, pure_bind, skipFrom_eq, pure_bind, slice_of_le nameStart, pure_bind, skipFrom_eq, pure_bind,
    lacksClose_eq, pure_bind]
  refine simulates_ite (fun _ => p.mirrors_failHere _ _) fun _ => ?_
  rw [slice_of_le modelStart, pure_bind]
  exact simulates_bind (p.mirrors_scan p.follows_location) fun _ => p.mirrors_declareElement _ _ _

/-- `compare(cursor, 9, keyword)` is the test for a prefix. -/
theorem take_beq_keyword (keyword text : Bytes) :
    (text.take keyword.length == keyword) = keyword.isPrefixOf text := by
  rw [Bool.eq_iff_iff, beq_iff_eq, List.isPrefixOf_iff_prefix, List.prefix_iff_eq_take, eq_comm]

/-- The list level keeps the subset from the cursor on. -/
theorem mirrors_externalSubsetRound (subset : Bytes) (cursor : Nat) :
    p.Mirrors (LoopStep.mapNext (fun cursor => subset.drop cursor) <$> p.externalSubsetRound subset cursor)
      (p.listed.externalSubsetRound (subset.drop cursor)) := by
  have fails : ∀ message, p.Mirrors (LoopStep.mapNext (fun cursor => subset.drop cursor) <$>
      (p.failHere .validity message : ParserM (LoopStep Nat Unit))) (p.listed.failHere .validity message) := by
    intro message
    rw [failHere, map_bind]
    exact p.mirrors_failHere _ _
  unfold externalSubsetRound
  by_cases inside : cursor < subset.length
  · have stays := skipFrom_le (Nat.le_of_lt inside) isAsciiSpace
    have isRest := drop_skipFrom isAsciiSpace subset cursor
    have handed : ∀ {slice after : Bytes}, handedSlice? (subset.drop cursor) = some (slice, after) →
        (ascii "<!ELEMENT").length ≤ slice.length := by
      intro slice after isHanded
      obtain ⟨_, body, _, isSlice⟩ := handedSlice?_eq_some isHanded
      rw [isSlice, List.length_append]
      exact Nat.le_add_right _ _
    rw [if_pos inside, skipFrom_eq, pure_bind]
    unfold XmlParser.Parser.externalSubsetRound
    unfold handedSlice? at handed
    dsimp only at handed ⊢
    rw [← isRest] at handed ⊢
    generalize XmlParser.skipFrom isAsciiSpace subset cursor = position at stays handed ⊢
    by_cases atEnd : position ≥ subset.length
    · rw [if_pos atEnd, List.drop_eq_nil_of_le atEnd]
      exact simulates_pure _
    · have nonempty : (subset.drop position).isEmpty = false := by
        rw [← Bool.not_eq_true, List.isEmpty_iff, List.drop_eq_nil_iff]
        exact atEnd
      rw [if_neg atEnd, nonempty, substr, slice_of_le stays, pure_bind,
        show 9 = (ascii "<!ELEMENT").length by decide, take_beq_keyword, find_eq]
      cases starts : (ascii "<!ELEMENT").isPrefixOf (subset.drop position) with
      | false => exact fails _
      | true =>
          cases closed : (subset.drop position).contains 0x3E with
          | false => exact fails _
          | true =>
              rw [starts, closed] at handed
              have keyword := handed rfl
              have width : position + ((subset.drop position).takeWhile (· != 0x3E)).length - position + 1 =
                  ((subset.drop position).takeWhile (· != 0x3E)).length + 1 := by omega
              rw [if_pos rfl, if_pos rfl]
              dsimp only
              rw [substr, slice_of_le stays, pure_bind, map_bind, width]
              refine simulates_bind (p.mirrors_parseExternalElementDeclaration keyword) fun _ => ?_
              rw [List.drop_drop]
              exact simulates_pure _
  · rw [if_neg inside, List.drop_eq_nil_of_le (Nat.le_of_not_lt inside)]
    exact simulates_pure _

theorem mirrors_parseExternalSubsetText (subset : Bytes) :
    p.Mirrors (p.parseExternalSubsetText subset) (p.listed.parseExternalSubsetText subset) :=
  simulates_loop (fun cursor => subset.drop cursor) (fun _ _ => List.length_drop)
    (p.mirrors_externalSubsetRound subset) 0

theorem mirrors_resolveExternalSubsetIfNeeded :
    p.Mirrors p.resolveExternalSubsetIfNeeded p.listed.resolveExternalSubsetIfNeeded := by
  refine simulates_bind (p.mirrors_members fun _ _ => rfl) fun dtd => ?_
  refine simulates_ite (fun _ => simulates_pure _) fun _ => ?_
  change p.Mirrors _ (match p.options.allowExternalDtd, p.options.externalDtdResolver with
    | true, some resolve => _
    | _, _ => _)
  cases p.options.allowExternalDtd with
  | false => exact p.mirrors_failHere _ _
  | true =>
      cases p.options.externalDtdResolver with
      | none => exact p.mirrors_failHere _ _
      | some resolve =>
          dsimp only
          cases resolve dtd.externalSystemId with
          | error exception => exact simulates_throw _
          | ok subset =>
              exact simulates_ite (fun _ => p.mirrors_failHere _ _) fun _ => p.mirrors_parseExternalSubsetText _

theorem mirrors_parseExternalId : p.Mirrors p.parseExternalId p.listed.parseExternalId := by
  have tail : ∀ systemId, p.Mirrors (enterExternalId systemId >>= fun _ => scan p.skipWhitespace)
      (XmlParser.Parser.modifyDtd (fun dtd => { dtd with hasExternalSubset := true, externalSystemId := systemId })
        >>= fun _ => XmlParser.scan p.listed.skipWhitespace) :=
    fun systemId => simulates_bind (p.mirrors_modifyDtd _) fun _ => p.mirrors_scan p.follows_skipWhitespace
  refine simulates_bind (p.mirrors_scan (p.follows_startsWith (by decide))) fun isSystem => ?_
  refine simulates_ite (fun _ => ?_) fun _ => ?_
  · refine simulates_bind (p.mirrors_scan (p.follows_move 6)) fun _ => ?_
    refine simulates_bind (p.mirrors_scan p.follows_skipWhitespace) fun _ => ?_
    exact simulates_bind (p.mirrors_scan p.follows_parseQuotedLiteral) tail
  refine simulates_bind (p.mirrors_scan (p.follows_startsWith (by decide))) fun isPublic => ?_
  refine simulates_ite (fun _ => ?_) fun _ => simulates_pure _
  refine simulates_bind (p.mirrors_scan (p.follows_move 6)) fun _ => ?_
  refine simulates_bind (p.mirrors_scan p.follows_skipWhitespace) fun _ => ?_
  refine simulates_bind (p.mirrors_scan p.follows_parseQuotedLiteral) fun _ => ?_
  refine simulates_bind (p.mirrors_scan p.follows_skipWhitespace) fun _ => ?_
  exact simulates_bind (p.mirrors_scan p.follows_parseQuotedLiteral) tail

theorem mirrors_parseBracketedSubset : p.Mirrors p.parseBracketedSubset p.listed.parseBracketedSubset := by
  refine simulates_bind (p.mirrors_scan p.follows_peek) fun next => ?_
  refine simulates_ite (fun _ => ?_) fun _ => simulates_pure _
  refine simulates_bind (p.mirrors_scan p.follows_advance) fun _ => ?_
  refine simulates_bind p.mirrors_parseInternalSubset fun _ => ?_
  exact simulates_bind (p.mirrors_scan (p.follows_expect _ _)) fun _ => p.mirrors_scan p.follows_skipWhitespace

theorem mirrors_parseDoctypeIfPresent : p.Mirrors p.parseDoctypeIfPresent p.listed.parseDoctypeIfPresent := by
  refine simulates_bind (p.mirrors_scan (p.follows_startsWith (by decide))) fun starts => ?_
  refine simulates_ite (fun _ => simulates_pure _) fun _ => ?_
  refine simulates_bind (p.mirrors_modifyDtd _) fun _ => ?_
  refine simulates_bind (p.mirrors_scan (p.follows_expectSequence (by decide) _)) fun _ => ?_
  refine simulates_bind (p.mirrors_scan p.follows_peek) fun next => ?_
  refine simulates_ite (fun _ => p.mirrors_failHere _ _) fun _ => ?_
  refine simulates_bind (p.mirrors_scan p.follows_skipWhitespace) fun _ => ?_
  refine simulates_bind (p.mirrors_scan p.follows_parseName) fun rootName => ?_
  refine simulates_bind (p.mirrors_modifyDtd _) fun _ => ?_
  refine simulates_bind (p.mirrors_scan p.follows_skipWhitespace) fun _ => ?_
  refine simulates_bind p.mirrors_parseExternalId fun _ => ?_
  refine simulates_bind p.mirrors_parseBracketedSubset fun _ => ?_
  exact simulates_bind (p.mirrors_scan (p.follows_expect _ _)) fun _ => p.mirrors_resolveExternalSubsetIfNeeded

end Parser

end Indexed

end XmlParser
