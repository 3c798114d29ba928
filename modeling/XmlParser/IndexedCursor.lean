import XmlParser.IndexedDecoder
import XmlParser.Library.Simulation

/-! The scanning members of `Parser` with `index_` for the cursor, and that they
do what the scanning members do with the characters from there on. -/

set_option autoImplicit false

namespace XmlParser

open XmlParser.Computation Comp

namespace Indexed

/-- The members of `Parser` that never change during a run. -/
structure Parser where
  document : DecodedDocument
  handler : SaxHandler
  options : ParserOptions

/-- A scanning member, whose state is `index_`. -/
abbrev Cursor (α : Type) := Comp Nat Halt α

namespace Parser

variable (p : Parser)

/-- The same parser without its characters. -/
def listed : XmlParser.Parser := ⟨p.handler, p.options, p.document.endLocation⟩

/-- The characters from `index_` on. -/
def rest (index : Nat) : List DecodedChar := p.document.chars.drop index

/-! ## Reads -/

def eof : Cursor Bool := Comp.read fun index => decide (index ≥ p.document.chars.length)

def peekAt (lookahead : Nat) : Cursor Nat := do
  let index ← Comp.read id
  if index + lookahead ≥ p.document.chars.length then
    pure 0
  else
    let char ← subscript p.document.chars (index + lookahead)
    pure char.value

def peek : Cursor Nat := p.peekAt 0

def location : Cursor SourceLocation := do
  let index ← Comp.read id
  if index < p.document.chars.length then
    let char ← subscript p.document.chars index
    pure char.location
  else
    pure p.document.endLocation

def startsWith (text : List Nat) : Cursor Bool := do
  let index ← Comp.read id
  if index + text.length > p.document.chars.length then
    pure false
  else
    Comp.matchesFrom .undefinedBehavior DecodedChar.value p.document.chars text index

/-- How many characters are left, which bounds the rounds of the loops. -/
def remaining (index : Nat) : Nat := p.document.chars.length - index

/-! ## Scanning -/

def fail {α : Type} (kind : ErrorKind) (message : String) : Cursor α := do
  failAt kind (← p.location) message

def advance : Cursor Unit := do
  if ← p.eof then
    p.fail .wellFormedness "unexpected end of XML input"
  else
    Comp.modify (· + 1)

def expect (value : Nat) (description : String) : Cursor Unit := do
  if (← p.peek) != value then
    p.fail .wellFormedness ("expected " ++ description)
  else
    p.advance

def expectSequence (text : List Nat) (description : String) : Cursor Unit := do
  if !(← p.startsWith text) then
    p.fail .wellFormedness ("expected " ++ description)
  else
    Comp.modify (· + text.length)

def enforceTokenSize {σ : Type} (size : Nat) (start : SourceLocation) : Comp σ Halt Unit :=
  p.listed.enforceTokenSize size start

/-- One round of `while (!eof() && test()) { body }`. -/
def whileRound {β : Type} (test : Cursor Bool) (body : β → Cursor β) (current : β) :
    Cursor (LoopStep β β) := do
  if ← p.eof then
    pure (.done current)
  else if ← test then
    let following ← body current
    pure (.next following)
  else
    pure (.done current)

def whileTest {β : Type} (test : Cursor Bool) (body : β → Cursor β) : β → Cursor β :=
  Comp.loop (fun _ => p.remaining) .outOfFuel (p.whileRound test body)

def whilePeek {β : Type} (condition : Nat → Bool) : (β → Cursor β) → β → Cursor β :=
  p.whileTest do pure (condition (← p.peek))

def whileNotAt {β : Type} (stop : List Nat) : (β → Cursor β) → β → Cursor β :=
  p.whileTest do pure !(← p.startsWith stop)

def skipWhitespace : Cursor Unit :=
  p.whilePeek isSpace (fun _ => p.advance) ()

def appendPeek (start : SourceLocation) (text : Bytes) : Cursor Bytes := do
  let text := appendUtf8 text (← p.peek)
  p.enforceTokenSize text.length start
  p.advance
  pure text

def pushPeek (start : SourceLocation) (buffer : List Nat) : Cursor (List Nat) := do
  let buffer := buffer ++ [← p.peek]
  p.enforceTokenSize buffer.length start
  p.advance
  pure buffer

def takePeek (text : Bytes) : Cursor Bytes := do
  let text := appendUtf8 text (← p.peek)
  p.advance
  pure text

def parseName : Cursor Bytes := do
  let start ← p.location
  if !isNameStart (← p.peek) then
    p.fail .wellFormedness "expected XML name"
  else
    let buffer ← p.whilePeek isNameChar (p.pushPeek start) []
    pure (toAscii buffer)

def parseQuotedLiteral : Cursor Bytes := do
  let quote ← p.peek
  if quote != 0x27 && quote != 0x22 then
    p.fail .wellFormedness "expected quoted literal"
  else
    p.advance
    let value ← p.whilePeek (· != quote) p.takePeek []
    p.expect quote "literal quote"
    pure value

/-- The tests on the text of the XML declaration. -/
def checkDeclaration {σ : Type} (start : SourceLocation) (declaration : Bytes) : Comp σ Halt Unit :=
  let declaresXml10 := containsText declaration (ascii "1.0")
  let declaresXml11 := containsText declaration (ascii "1.1")
  if !containsText declaration (ascii "version") || (!declaresXml10 && !declaresXml11) then
    failAt .wellFormedness start "XML declaration must declare version 1.0 or 1.1"
  else if (declaresXml10 && p.options.version != .xml10) ||
      (declaresXml11 && p.options.version != .xml11) then
    failAt .wellFormedness start "XML declaration version does not match ParserOptions"
  else
    pure ()

def parseXmlDeclarationIfPresent : Cursor Unit := do
  if !(← p.startsWith (u32 "<?xml")) || !isSpace (← p.peekAt 5) then
    pure ()
  else
    let start ← p.location
    p.expectSequence (u32 "<?xml") "XML declaration"
    if !isSpace (← p.peek) then
      p.fail .wellFormedness "invalid XML declaration"
    else
      let declaration ← p.whileNotAt (u32 "?>") (p.appendPeek start) []
      p.expectSequence (u32 "?>") "XML declaration close"
      p.checkDeclaration start declaration

def commentRound (start : SourceLocation) (text : Bytes) : Cursor (LoopStep Bytes Bytes) := do
  if ← p.eof then
    failAt .wellFormedness start "truncated XML comment"
  else if ← p.startsWith (u32 "-->") then
    p.expectSequence (u32 "-->") "comment close"
    pure (.done text)
  else if ← p.startsWith (u32 "--") then
    p.fail .wellFormedness "comment text cannot contain '--'"
  else
    let text ← p.appendPeek start text
    pure (.next text)

def scanComment : Cursor Bytes := do
  let start ← p.location
  p.expectSequence (u32 "<!--") "comment start"
  Comp.loop (fun _ => p.remaining) .outOfFuel (p.commentRound start) []

def cdataRound (start : SourceLocation) (text : Bytes) : Cursor (LoopStep Bytes Bytes) := do
  if ← p.eof then
    failAt .wellFormedness start "truncated CDATA section"
  else if ← p.startsWith (u32 "]]>") then
    p.expectSequence (u32 "]]>") "CDATA close"
    pure (.done text)
  else
    let text ← p.appendPeek start text
    pure (.next text)

def scanCdata : Cursor Bytes := do
  let start ← p.location
  p.expectSequence (u32 "<![CDATA[") "CDATA start"
  Comp.loop (fun _ => p.remaining) .outOfFuel (p.cdataRound start) []

def scanProcessingInstruction : Cursor (Bytes × Bytes) := do
  let start ← p.location
  p.expectSequence (u32 "<?") "processing instruction start"
  let target ← p.parseName
  if lowercaseAscii target == ascii "xml" then
    failAt .wellFormedness start "XML declaration is only allowed at document start"
  else
    -- The source tests for white space first, which `skip_whitespace` does as well.
    p.skipWhitespace
    let data ← p.whileNotAt (u32 "?>") (p.appendPeek start) []
    p.expectSequence (u32 "?>") "processing instruction close"
    pure (target, data)

/-! ## Reads in range -/

/-- The member does at an index what the other one does with the characters
from there on. -/
abbrev Follows {α : Type} (source : Cursor α) (target : XmlParser.Cursor α) : Prop :=
  Simulates p.rest source target

theorem follows_of_run {α : Type} {source : Cursor α} {view : List DecodedChar → α}
    (found : ∀ index, source.run index = (.ok (view (p.rest index)), index)) :
    p.Follows source (Comp.read view) := by
  intro index
  rw [run_read, found]

theorem follows_eof : p.Follows p.eof (Comp.read XmlParser.eof) := by
  refine simulates_read fun index => ?_
  unfold rest XmlParser.eof
  rw [Bool.eq_iff_iff, decide_eq_true_iff, List.isEmpty_iff, List.drop_eq_nil_iff]

theorem follows_peekAt (lookahead : Nat) :
    p.Follows (p.peekAt lookahead) (Comp.read (XmlParser.peekAt lookahead)) := by
  refine p.follows_of_run fun index => ?_
  unfold peekAt XmlParser.peekAt rest subscript
  rw [run_read_bind, id, List.getElem?_drop]
  by_cases outside : index + lookahead ≥ p.document.chars.length
  · rw [if_pos outside, List.getElem?_eq_none outside]
    rfl
  · obtain ⟨char, isRest⟩ := drop_eq_cons (Nat.lt_of_not_le outside)
    rw [if_neg outside, get_of_drop isRest, pure_bind, ← List.head?_drop, isRest]
    rfl

theorem follows_peek : p.Follows p.peek (Comp.read XmlParser.peek) := p.follows_peekAt 0

theorem follows_location : p.Follows p.location (Comp.read p.listed.location) := by
  refine p.follows_of_run fun index => ?_
  unfold location XmlParser.Parser.location rest subscript
  rw [run_read_bind, id]
  by_cases inside : index < p.document.chars.length
  · obtain ⟨char, isRest⟩ := drop_eq_cons inside
    rw [if_pos inside, get_of_drop isRest, pure_bind, isRest]
    rfl
  · rw [if_neg inside, List.drop_eq_nil_of_le (Nat.le_of_not_lt inside)]
    rfl

/-- No keyword is empty; the empty one would be found behind the end as well. -/
theorem follows_startsWith {text : List Nat} (nonempty : text ≠ []) :
    p.Follows (p.startsWith text) (Comp.read (XmlParser.startsWith text)) := by
  refine p.follows_of_run fun index => ?_
  have positive := List.length_pos_iff.mpr nonempty
  unfold startsWith XmlParser.startsWith rest
  rw [run_read_bind, id]
  by_cases short : index + text.length > p.document.chars.length
  · have fails : text.isPrefixOf ((p.document.chars.drop index).map DecodedChar.value) = false := by
      rw [← Bool.not_eq_true, List.isPrefixOf_iff_prefix]
      intro isPrefix
      have fits := isPrefix.length_le
      rw [List.length_map, List.length_drop] at fits
      omega
    rw [if_pos short, fails]
    rfl
  · rw [if_neg short, matchesFrom_of_le (Nat.le_of_not_lt short)]
    rfl

theorem remaining_eq (index : Nat) : (p.rest index).length = p.remaining index := List.length_drop

/-! ## Scanning in range -/

theorem follows_fail {α : Type} (kind : ErrorKind) (message : String) :
    p.Follows (p.fail kind message : Cursor α) (p.listed.fail kind message) :=
  simulates_bind p.follows_location fun _ => simulates_throw _

theorem follows_move (count : Nat) : p.Follows (Comp.modify (· + count)) (Comp.modify (List.drop count)) :=
  simulates_modify fun _ => List.drop_drop.symm

theorem follows_advance : p.Follows p.advance p.listed.advance := by
  refine simulates_bind p.follows_eof fun atEnd => simulates_ite (fun _ => p.follows_fail _ _) fun _ => ?_
  exact simulates_modify fun index => List.tail_drop.symm

theorem follows_expect (value : Nat) (description : String) :
    p.Follows (p.expect value description) (p.listed.expect value description) :=
  simulates_bind p.follows_peek fun _ => simulates_ite (fun _ => p.follows_fail _ _) fun _ => p.follows_advance

theorem follows_expectSequence {text : List Nat} (nonempty : text ≠ []) (description : String) :
    p.Follows (p.expectSequence text description) (p.listed.expectSequence text description) :=
  simulates_bind (p.follows_startsWith nonempty) fun _ =>
    simulates_ite (fun _ => p.follows_fail _ _) fun _ => p.follows_move _

theorem simulates_enforceTokenSize {σ τ : Type} {view : σ → τ} (size : Nat) (start : SourceLocation) :
    Simulates view (p.enforceTokenSize size start) (p.listed.enforceTokenSize size start) :=
  simulates_ite (fun _ => simulates_throw _) fun _ => simulates_pure _

theorem follows_loop {β γ : Type} {body : β → Cursor (LoopStep β γ)} {other : β → XmlParser.Cursor (LoopStep β γ)}
    (rounds : ∀ current, p.Follows (body current) (other current)) (start : β) :
    p.Follows (Comp.loop (fun _ => p.remaining) .outOfFuel body start)
      (Comp.loop (fun _ => List.length) .outOfFuel other start) :=
  simulates_loop_eq (fun _ => p.remaining_eq) rounds start

/-- The two tests of a loop are one condition on the characters left. -/
theorem whileRound_eq {β : Type} (test : List DecodedChar → Bool) (body : β → XmlParser.Cursor β) (current : β) :
    Comp.whileRound (fun rest => !XmlParser.eof rest && test rest) body current = (do
      if ← Comp.read XmlParser.eof then
        pure (.done current)
      else if ← Comp.read test then
        let following ← body current
        pure (.next following)
      else
        pure (.done current) : XmlParser.Cursor (LoopStep β β)) := by
  refine eq_of_run fun rest => ?_
  unfold Comp.whileRound
  rw [run_read_bind, run_read_bind]
  cases XmlParser.eof rest with
  | true => rfl
  | false => rfl

theorem follows_whileTest {β : Type} {test : Cursor Bool} {condition : List DecodedChar → Bool}
    {body : β → Cursor β} {other : β → XmlParser.Cursor β} (tests : p.Follows test (Comp.read condition))
    (rounds : ∀ current, p.Follows (body current) (other current)) (start : β) :
    p.Follows (p.whileTest test body start)
      (Comp.whileLoop List.length .outOfFuel (fun rest => !XmlParser.eof rest && condition rest) other start) := by
  refine p.follows_loop (fun current => ?_) start
  rw [whileRound_eq]
  refine simulates_bind p.follows_eof fun atEnd => simulates_ite (fun _ => simulates_pure _) fun _ => ?_
  refine simulates_bind tests fun holds => simulates_ite (fun _ => ?_) fun _ => simulates_pure _
  exact simulates_bind (rounds current) fun following => simulates_pure _

theorem follows_whilePeek {β : Type} {body : β → Cursor β} {other : β → XmlParser.Cursor β}
    (rounds : ∀ current, p.Follows (body current) (other current)) (condition : Nat → Bool) (start : β) :
    p.Follows (p.whilePeek condition body start) (XmlParser.Parser.whilePeek condition other start) :=
  p.follows_whileTest (simulates_bind p.follows_peek fun value => simulates_pure (condition value)) rounds start

theorem follows_whileNotAt {β : Type} {body : β → Cursor β} {other : β → XmlParser.Cursor β}
    (rounds : ∀ current, p.Follows (body current) (other current)) {stop : List Nat} (nonempty : stop ≠ [])
    (start : β) :
    p.Follows (p.whileNotAt stop body start) (XmlParser.Parser.whileNotAt stop other start) :=
  p.follows_whileTest (simulates_bind (p.follows_startsWith nonempty) fun starts => simulates_pure (!starts))
    rounds start

theorem follows_skipWhitespace : p.Follows p.skipWhitespace p.listed.skipWhitespace :=
  p.follows_whilePeek (fun _ => p.follows_advance) isSpace ()

theorem follows_appendPeek (start : SourceLocation) (text : Bytes) :
    p.Follows (p.appendPeek start text) (p.listed.appendPeek start text) := by
  refine simulates_bind p.follows_peek fun value => ?_
  refine simulates_bind (p.simulates_enforceTokenSize _ _) fun _ => ?_
  exact simulates_bind p.follows_advance fun _ => simulates_pure _

theorem follows_pushPeek (start : SourceLocation) (buffer : List Nat) :
    p.Follows (p.pushPeek start buffer) (p.listed.pushPeek start buffer) := by
  refine simulates_bind p.follows_peek fun value => ?_
  refine simulates_bind (p.simulates_enforceTokenSize _ _) fun _ => ?_
  exact simulates_bind p.follows_advance fun _ => simulates_pure _

theorem follows_takePeek (text : Bytes) : p.Follows (p.takePeek text) (p.listed.takePeek text) :=
  simulates_bind p.follows_peek fun _ => simulates_bind p.follows_advance fun _ => simulates_pure _

theorem follows_parseName : p.Follows p.parseName p.listed.parseName := by
  refine simulates_bind p.follows_location fun start => simulates_bind p.follows_peek fun first => ?_
  refine simulates_ite (fun _ => p.follows_fail _ _) fun _ => ?_
  refine simulates_bind (p.follows_whilePeek (p.follows_pushPeek start) _ _) fun buffer => ?_
  exact simulates_pure _

theorem follows_parseQuotedLiteral : p.Follows p.parseQuotedLiteral p.listed.parseQuotedLiteral := by
  refine simulates_bind p.follows_peek fun quote => simulates_ite (fun _ => p.follows_fail _ _) fun _ => ?_
  refine simulates_bind p.follows_advance fun _ => ?_
  refine simulates_bind (p.follows_whilePeek p.follows_takePeek _ _) fun value => ?_
  exact simulates_bind (p.follows_expect _ _) fun _ => simulates_pure _

theorem follows_parseXmlDeclarationIfPresent :
    p.Follows p.parseXmlDeclarationIfPresent p.listed.parseXmlDeclarationIfPresent := by
  refine simulates_bind (p.follows_startsWith (by decide)) fun starts => ?_
  refine simulates_bind (p.follows_peekAt 5) fun sixth => simulates_ite (fun _ => simulates_pure _) fun _ => ?_
  refine simulates_bind p.follows_location fun start => ?_
  refine simulates_bind (p.follows_expectSequence (by decide) _) fun _ => ?_
  refine simulates_bind p.follows_peek fun next => simulates_ite (fun _ => p.follows_fail _ _) fun _ => ?_
  refine simulates_bind (p.follows_whileNotAt (p.follows_appendPeek start) (by decide) _) fun declaration => ?_
  refine simulates_bind (p.follows_expectSequence (by decide) _) fun _ => ?_
  refine simulates_ite (fun _ => simulates_throw _) fun _ => ?_
  exact simulates_ite (fun _ => simulates_throw _) fun _ => simulates_pure _

theorem follows_commentRound (start : SourceLocation) (text : Bytes) :
    p.Follows (p.commentRound start text) (p.listed.commentRound start text) := by
  refine simulates_bind p.follows_eof fun atEnd => simulates_ite (fun _ => simulates_throw _) fun _ => ?_
  refine simulates_bind (p.follows_startsWith (by decide)) fun closes => simulates_ite (fun _ => ?_) fun _ => ?_
  · exact simulates_bind (p.follows_expectSequence (by decide) _) fun _ => simulates_pure _
  refine simulates_bind (p.follows_startsWith (by decide)) fun dashes => ?_
  refine simulates_ite (fun _ => p.follows_fail _ _) fun _ => ?_
  exact simulates_bind (p.follows_appendPeek start text) fun _ => simulates_pure _

theorem follows_scanComment : p.Follows p.scanComment p.listed.scanComment := by
  refine simulates_bind p.follows_location fun start => ?_
  refine simulates_bind (p.follows_expectSequence (by decide) _) fun _ => ?_
  exact p.follows_loop (p.follows_commentRound start) []

theorem follows_cdataRound (start : SourceLocation) (text : Bytes) :
    p.Follows (p.cdataRound start text) (p.listed.cdataRound start text) := by
  refine simulates_bind p.follows_eof fun atEnd => simulates_ite (fun _ => simulates_throw _) fun _ => ?_
  refine simulates_bind (p.follows_startsWith (by decide)) fun closes => simulates_ite (fun _ => ?_) fun _ => ?_
  · exact simulates_bind (p.follows_expectSequence (by decide) _) fun _ => simulates_pure _
  · exact simulates_bind (p.follows_appendPeek start text) fun _ => simulates_pure _

theorem follows_scanCdata : p.Follows p.scanCdata p.listed.scanCdata := by
  refine simulates_bind p.follows_location fun start => ?_
  refine simulates_bind (p.follows_expectSequence (by decide) _) fun _ => ?_
  exact p.follows_loop (p.follows_cdataRound start) []

theorem follows_scanProcessingInstruction :
    p.Follows p.scanProcessingInstruction p.listed.scanProcessingInstruction := by
  refine simulates_bind p.follows_location fun start => ?_
  refine simulates_bind (p.follows_expectSequence (by decide) _) fun _ => ?_
  refine simulates_bind p.follows_parseName fun target => simulates_ite (fun _ => simulates_throw _) fun _ => ?_
  refine simulates_bind p.follows_skipWhitespace fun _ => ?_
  refine simulates_bind (p.follows_whileNotAt (p.follows_appendPeek start) (by decide) _) fun data => ?_
  exact simulates_bind (p.follows_expectSequence (by decide) _) fun _ => simulates_pure _

end Parser

end Indexed

end XmlParser
