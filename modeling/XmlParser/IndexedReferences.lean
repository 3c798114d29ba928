import XmlParser.IndexedCursor
import XmlParser.References

/-! The mutable members of `Parser` with `index_`, and references with the
positions of their loops. -/

set_option autoImplicit false

namespace XmlParser

open XmlParser.Computation Comp

namespace Indexed

/-- The mutable members of `Parser`. `index_` takes the place of the cursor of the
other members, which is not used. -/
structure ParserState where
  index : Nat := 0
  members : XmlParser.ParserState := { rest := [] }

abbrev ParserM (α : Type) := Comp ParserState Halt α

/-- Run a scanning member. -/
def scan {α : Type} (source : Cursor α) : ParserM α :=
  Comp.onPart ParserState.index (fun index s => { s with index }) source

/-- Run a member that does not touch `index_`. -/
def beside {α : Type} (source : XmlParser.ParserM α) : ParserM α :=
  Comp.onPart ParserState.members (fun members s => { s with members }) source

/-- `text.substr(position, count)`, which throws where it begins behind the end. -/
def substr {σ : Type} (text : Bytes) (position count : Nat) : Comp σ Halt Bytes :=
  Comp.slice .undefinedBehavior text position count

/-- `ascii.size() > 2 && (ascii[1] == 'x' || ascii[1] == 'X')` -/
def isHexadecimal {σ : Type} (text : Bytes) : Comp σ Halt Bool := do
  if text.length > 2 then
    let mark ← subscript text 1
    pure (mark == 0x78 || mark == 0x58)
  else
    pure false

/-- `!name.empty() && name[0] == '#'` -/
def isNumeric {σ : Type} (name : Bytes) : Comp σ Halt Bool := do
  if name.isEmpty then
    pure false
  else
    let first ← subscript name 0
    pure (first == 0x23)

/-- The body of the digit loop of `parse_character_reference`. -/
def accumulateDigit (base : Nat) (start : SourceLocation) (value : Nat) (ch : UInt8) :
    Except XmlParseException Nat :=
  match digitOf ch with
  | none => throwParse .wellFormedness start "invalid character reference"
  | some digit =>
      if digit ≥ base then throwParse .wellFormedness start "invalid character reference"
      else if value > (2 ^ 32 - 1 - digit) / base then
        throwParse .wellFormedness start "character reference overflow"
      else .ok ((value * base + digit) % 2 ^ 32)

namespace Parser

variable (p : Parser)

def emit (event : Event) : ParserM Unit := beside (p.listed.emit event)

def parseComment : ParserM Unit := do
  let text ← scan p.scanComment
  p.emit (.comment text)

def parseProcessingInstruction : ParserM Unit := do
  let (target, data) ← scan p.scanProcessingInstruction
  p.emit (.processingInstruction target data)

def parseCdata : ParserM Unit := do
  let text ← scan p.scanCdata
  p.emit (.cdata text)

def skipMiscRound (_ : Unit) : ParserM (LoopStep Unit Unit) := do
  let before ← Comp.read fun s => p.remaining s.index
  scan p.skipWhitespace
  let consumed ← Comp.read fun s => decide (p.remaining s.index < before)
  if ← scan (p.startsWith (u32 "<!--")) then
    p.parseComment
    pure (.next ())
  else if ← scan (p.startsWith (u32 "<?")) then
    p.parseProcessingInstruction
    pure (.next ())
  else if consumed then
    pure (.next ())
  else
    pure (.done ())

/-- A loop of a member of `Parser`, bounded by the characters left. -/
def loop {β γ : Type} (body : β → ParserM (LoopStep β γ)) : β → ParserM γ :=
  Comp.loop (fun _ s => p.remaining s.index) .outOfFuel body

def skipMisc : ParserM Unit := p.loop p.skipMiscRound ()

/-! ## References -/

def parseCharacterReference (text : Bytes) (start : SourceLocation) : Comp Nat Halt Bytes := do
  let hexadecimal ← isHexadecimal text
  let base := if hexadecimal then 16 else 10
  let offset := if hexadecimal then 2 else 1
  if offset ≥ text.length then
    failAt .wellFormedness start "empty character reference"
  else
    let value ← Comp.forRange .undefinedBehavior (fun value ch => raise (accumulateDigit base start value ch))
      text (text.length - offset) offset 0
    if !isValidXmlChar value p.options.version then
      failAt .wellFormedness start "character reference is not an XML character"
    else
      pure (appendUtf8 [] value)

def countExpansion (start : SourceLocation) : Comp Nat Halt Unit := p.listed.countExpansion start

def expandReference (entities : List (Bytes × Bytes)) (start : SourceLocation)
    (nested : Bytes → Comp Nat Halt Bytes) (name : Bytes) : Comp Nat Halt Bytes := do
  match XmlParser.Parser.predefined name with
  | some value => pure value
  | none =>
      if ← isNumeric name then
        p.parseCharacterReference name start
      else
        match lookupKey name entities with
        | none => failAt .validity start "undeclared entity reference"
        | some replacement => nested replacement

/-- One round of the loop of `expand_entity_text`, with its cursor and what the
text in front of it has expanded to. -/
def expandRound (entities : List (Bytes × Bytes)) (start : SourceLocation)
    (nested : Bytes → Comp Nat Halt Bytes) (text : Bytes) :
    Nat × Bytes → Comp Nat Halt (LoopStep (Nat × Bytes) Bytes)
  | (cursor, expanded) => do
      if cursor < text.length then
        let ch ← subscript text cursor
        if ch != 0x26 then
          pure (.next (cursor + 1, expanded ++ [ch]))
        else
          match Comp.find text 0x3B (cursor + 1) with
          | none => failAt .validity start "truncated entity replacement"
          | some close =>
              p.countExpansion start
              let name ← substr text (cursor + 1) (close - cursor - 1)
              let value ← p.expandReference entities start nested name
              let expanded := expanded ++ value
              if expanded.length > p.options.maxEntityReplacementBytes then
                failAt .resourceLimit start
                  "entity replacement exceeds max_entity_replacement_bytes"
              else
                pure (.next (close + 1, expanded))
      else
        pure (.done expanded)

def expandEntityText (entities : List (Bytes × Bytes)) (start : SourceLocation) :
    Nat → Nat → Bytes → Comp Nat Halt Bytes
  | 0, _, _ => Comp.throw .outOfFuel
  | fuel + 1, depth, text =>
      if depth > p.options.maxEntityExpansions then
        failAt .resourceLimit start "entity expansion count exceeds max_entity_expansions"
      else
        Comp.loop (fun current _ => text.length - current.1) .outOfFuel
          (p.expandRound entities start (expandEntityText entities start fuel (depth + 1)) text) (0, [])

def resolveReference (entities : List (Bytes × Bytes)) (name : Bytes) (start : SourceLocation) :
    Comp Nat Halt Bytes := do
  match XmlParser.Parser.predefined name with
  | some value => pure value
  | none =>
      if ← isNumeric name then
        p.parseCharacterReference name start
      else
        match lookupKey name entities with
        | some replacement =>
            p.expandEntityText entities start (p.options.maxEntityExpansions + 2) 0 replacement
        | none =>
            if p.options.validation = .dtd then
              failAt .validity start "undeclared entity reference"
            else
              failAt .wellFormedness start "unknown entity reference"

/-- Run a computation on `entity_expansions_`. -/
def counting {α : Type} (source : Comp Nat Halt α) : ParserM α := beside (XmlParser.Parser.counting source)

def parseReference : ParserM Bytes := do
  let start ← scan p.location
  scan (p.expect 0x26 "'&'")
  counting (p.countExpansion start)
  let name ← scan (p.whilePeek (· != 0x3B) (p.pushPeek start) [])
  scan (p.expect 0x3B "';' after entity reference")
  let entities ← Comp.read fun s => s.members.dtd.entities
  counting (p.resolveReference entities (toAscii name) start)

def takePiece (text : Bytes) : ParserM Bytes := do
  if (← scan p.peek) == 0x26 then
    let expansion ← p.parseReference
    pure (text ++ expansion)
  else
    scan (p.takePeek text)

end Parser

/-! ## Strings in range -/

theorem isHexadecimal_eq {σ : Type} (text : Bytes) :
    (isHexadecimal text : Comp σ Halt Bool) = pure (XmlParser.isHexadecimal text) := by
  unfold isHexadecimal XmlParser.isHexadecimal subscript
  by_cases long : text.length > 2
  · obtain ⟨mark, isRest⟩ := drop_eq_cons (show 1 < text.length by omega)
    have second : text[1]? = some mark := by
      rw [← List.head?_drop, isRest, List.head?_cons]
    rw [if_pos long, get_of_drop isRest, pure_bind, second, decide_eq_true long]
    rfl
  · rw [if_neg long, decide_eq_false long]
    rfl

theorem isNumeric_eq {σ : Type} (name : Bytes) :
    (isNumeric name : Comp σ Halt Bool) = pure (name.head? == some 0x23) := by
  cases name with
  | nil => rfl
  | cons first rest => rfl

theorem isNumeric_bind {σ α : Type} (name : Bytes) (numeric named : Comp σ Halt α) :
    (isNumeric name >>= fun holds => if holds then numeric else named) =
      if name.head? == some 0x23 then numeric else named := by
  rw [isNumeric_eq, pure_bind]

theorem foldlM_accumulateDigit {σ : Type} (base : Nat) (start : SourceLocation) (digits : Bytes) (value : Nat) :
    (digits.foldlM (fun value ch => raise (accumulateDigit base start value ch)) value : Comp σ Halt Nat) =
      match accumulateDigits base digits value with
      | .error message => failAt .wellFormedness start message
      | .ok number => pure number := by
  induction digits generalizing value with
  | nil => rfl
  | cons ch digits ih =>
      rw [List.foldlM_cons, accumulateDigit, accumulateDigits]
      cases digitOf ch with
      | none => rfl
      | some digit =>
          dsimp only
          by_cases high : digit ≥ base
          · rw [if_pos high, if_pos high]
            rfl
          by_cases overflows : value > (2 ^ 32 - 1 - digit) / base
          · rw [if_neg high, if_neg high, if_pos overflows, if_pos overflows]
            rfl
          · rw [if_neg high, if_neg high, if_neg overflows, if_neg overflows]
            exact ih _

/-- The member neither reads nor moves the cursor. -/
def LeavesCursor {α : Type} (source : XmlParser.ParserM α) : Prop :=
  ∀ rest, Simulates (XmlParser.ParserState.withRest rest) source source

namespace Parser

variable (p : Parser)

/-- The digits are read up to the end of the text and not behind it. -/
theorem parseCharacterReference_eq (text : Bytes) (start : SourceLocation) :
    p.parseCharacterReference text start = p.listed.parseCharacterReference text start := by
  unfold parseCharacterReference XmlParser.Parser.parseCharacterReference
  rw [isHexadecimal_eq, pure_bind]
  dsimp only
  generalize (if XmlParser.isHexadecimal text = true then 2 else 1) = offset
  generalize (if XmlParser.isHexadecimal text = true then 16 else 10) = base
  by_cases empty : offset ≥ text.length
  · rw [if_pos empty, if_pos empty]
  · have whole : (text.drop offset).take (text.length - offset) = text.drop offset :=
      List.take_of_length_le (Nat.le_of_eq List.length_drop)
    rw [if_neg empty, if_neg empty, forRange_of_le (by omega), whole, foldlM_accumulateDigit]
    cases accumulateDigits base (text.drop offset) 0 <;> rfl

variable (entities : List (Bytes × Bytes)) (start : SourceLocation)

theorem expandReference_eq (nested : Bytes → Comp Nat Halt Bytes) (name : Bytes) :
    p.expandReference entities start nested name = p.listed.expandReference entities start nested name := by
  unfold expandReference XmlParser.Parser.expandReference
  cases XmlParser.Parser.predefined name with
  | some value => rfl
  | none =>
      have same := p.parseCharacterReference_eq name start
      exact (isNumeric_bind name _ _).trans (if_congr Iff.rfl same rfl)

/-- The list level keeps the text from the cursor on. -/
theorem expandRound_eq (nested : Bytes → Comp Nat Halt Bytes) (text : Bytes) (cursor : Nat) (expanded : Bytes) :
    p.listed.expandRound entities start nested (text.drop cursor, expanded) =
      LoopStep.mapNext (fun current : Nat × Bytes => (text.drop current.1, current.2)) <$>
        p.expandRound entities start nested text (cursor, expanded) := by
  unfold expandRound subscript substr
  dsimp only
  by_cases inside : cursor < text.length
  · obtain ⟨ch, isRest⟩ := drop_eq_cons inside
    rw [if_pos inside, get_of_drop isRest, pure_bind, isRest]
    unfold XmlParser.Parser.expandRound
    dsimp only
    cases plain : ch != 0x26 with
    | true => rfl
    | false =>
        rw [if_neg Bool.false_ne_true, if_neg Bool.false_ne_true, find_eq]
        cases closed : (text.drop (cursor + 1)).contains 0x3B with
        | false => rfl
        | true =>
            have name : (text.drop (cursor + 1)).take
                (cursor + 1 + ((text.drop (cursor + 1)).takeWhile (· != 0x3B)).length - cursor - 1) =
                  (text.drop (cursor + 1)).takeWhile (· != 0x3B) := by
              rw [show cursor + 1 + ((text.drop (cursor + 1)).takeWhile (· != 0x3B)).length - cursor - 1 =
                ((text.drop (cursor + 1)).takeWhile (· != 0x3B)).length by omega]
              exact (List.prefix_iff_eq_take.mp (List.takeWhile_prefix _)).symm
            rw [if_neg (by decide), if_pos rfl]
            dsimp only
            rw [map_bind, slice_of_le (Nat.succ_le_of_lt inside), name]
            refine bind_congr fun _ => ?_
            rw [pure_bind, map_bind, expandReference_eq]
            refine bind_congr fun value => ?_
            rw [apply_ite (LoopStep.mapNext _ <$> ·), List.drop_drop]
            rfl
  · rw [if_neg inside, List.drop_eq_nil_of_le (Nat.le_of_not_lt inside)]
    rfl

theorem expandLoop_eq (nested : Bytes → Comp Nat Halt Bytes) (text : Bytes) :
    Comp.loop (fun current _ => text.length - current.1) .outOfFuel
        (p.expandRound entities start nested text) (0, []) =
      Comp.loop (fun current _ => current.1.length) .outOfFuel
        (p.listed.expandRound entities start nested) (text, []) := by
  refine (eq_of_simulates ?_).symm
  refine simulates_loop (fun current : Nat × Bytes => (text.drop current.1, current.2)) (fun _ _ => ?_)
    (fun current => simulates_of_eq ?_) (0, [])
  · exact List.length_drop
  · exact p.expandRound_eq entities start nested text current.1 current.2

theorem expandEntityText_eq (fuel depth : Nat) (text : Bytes) :
    p.expandEntityText entities start fuel depth text = p.listed.expandEntityText entities start fuel depth text := by
  induction fuel generalizing depth text with
  | zero => rfl
  | succ fuel ih =>
      unfold expandEntityText XmlParser.Parser.expandEntityText
      have same : p.expandEntityText entities start fuel (depth + 1) =
          p.listed.expandEntityText entities start fuel (depth + 1) := funext fun text => ih (depth + 1) text
      rw [same, expandLoop_eq]
      rfl

theorem resolveReference_eq (name : Bytes) :
    p.resolveReference entities name start = p.listed.resolveReference entities name start := by
  unfold resolveReference XmlParser.Parser.resolveReference
  cases XmlParser.Parser.predefined name with
  | some value => rfl
  | none =>
      have same := p.parseCharacterReference_eq name start
      refine (isNumeric_bind name _ _).trans (if_congr Iff.rfl same ?_)
      cases lookupKey name entities with
      | some replacement => exact p.expandEntityText_eq entities start _ 0 replacement
      | none => rfl

/-! ## Members in range -/

/-- The state with the characters from `index_` on for its cursor. -/
def view (s : ParserState) : XmlParser.ParserState := s.members.withRest (p.rest s.index)

/-- The member does with `index_` what the other one does with the characters
from there on. -/
abbrev Mirrors {α : Type} (source : ParserM α) (target : XmlParser.ParserM α) : Prop :=
  Simulates p.view source target

theorem mirrors_scan {α : Type} {source : Cursor α} {target : XmlParser.Cursor α}
    (follows : p.Follows source target) : p.Mirrors (scan source) (XmlParser.scan target) :=
  simulates_onPart follows (fun _ => rfl) fun _ _ => rfl

theorem mirrors_beside {α : Type} {source : XmlParser.ParserM α} (aside : LeavesCursor source) :
    p.Mirrors (beside source) source :=
  fun s => aside (p.rest s.index) s.members

theorem mirrors_members {α : Type} {first : XmlParser.ParserState → α}
    (same : ∀ rest s, first (s.withRest rest) = first s) :
    p.Mirrors (Comp.read fun s => first s.members) (Comp.read first) :=
  simulates_read fun s => (same (p.rest s.index) s.members).symm

theorem mirrors_loop {β γ : Type} {body : β → ParserM (LoopStep β γ)}
    {other : β → XmlParser.ParserM (LoopStep β γ)} (rounds : ∀ current, p.Mirrors (body current) (other current))
    (start : β) :
    p.Mirrors (p.loop body start) (Comp.loop (fun _ s => s.rest.length) .outOfFuel other start) :=
  simulates_loop_eq (fun _ s => p.remaining_eq s.index) rounds start

theorem leavesCursor_emit (event : Event) : LeavesCursor (p.listed.emit event) := by
  intro rest
  refine simulates_bind (simulates_modify fun _ => rfl) fun _ => ?_
  refine simulates_read_bind (fun _ => rfl) fun answer => ?_
  cases answer with
  | none => exact simulates_pure ()
  | some exception => exact simulates_throw _

theorem mirrors_emit (event : Event) : p.Mirrors (p.emit event) (p.listed.emit event) :=
  p.mirrors_beside (p.leavesCursor_emit event)

theorem mirrors_parseComment : p.Mirrors p.parseComment p.listed.parseComment :=
  simulates_bind (p.mirrors_scan p.follows_scanComment) fun _ => p.mirrors_emit _

theorem mirrors_parseProcessingInstruction :
    p.Mirrors p.parseProcessingInstruction p.listed.parseProcessingInstruction :=
  simulates_bind (p.mirrors_scan p.follows_scanProcessingInstruction) fun _ => p.mirrors_emit _

theorem mirrors_parseCdata : p.Mirrors p.parseCdata p.listed.parseCdata :=
  simulates_bind (p.mirrors_scan p.follows_scanCdata) fun _ => p.mirrors_emit _

theorem mirrors_skipMisc : p.Mirrors p.skipMisc p.listed.skipMisc := by
  refine p.mirrors_loop (fun _ => ?_) ()
  refine simulates_read_bind (fun s => (p.remaining_eq s.index).symm) fun before => ?_
  refine simulates_bind (p.mirrors_scan p.follows_skipWhitespace) fun _ => ?_
  refine simulates_read_bind (fun s => ?_) fun consumed => ?_
  · rw [← remaining_eq]
    rfl
  refine simulates_bind (p.mirrors_scan (p.follows_startsWith (by decide))) fun comment => ?_
  refine simulates_ite (fun _ => simulates_bind p.mirrors_parseComment fun _ => simulates_pure _) fun _ => ?_
  refine simulates_bind (p.mirrors_scan (p.follows_startsWith (by decide))) fun instruction => ?_
  refine simulates_ite (fun _ => ?_) fun _ => simulates_ite (fun _ => simulates_pure _) fun _ => simulates_pure _
  exact simulates_bind p.mirrors_parseProcessingInstruction fun _ => simulates_pure _

theorem mirrors_counting {α : Type} {source target : Comp Nat Halt α} (same : source = target) :
    p.Mirrors (counting source) (XmlParser.Parser.counting target) := by
  rw [same]
  exact p.mirrors_beside fun rest s => rfl

theorem mirrors_parseReference : p.Mirrors p.parseReference p.listed.parseReference := by
  refine simulates_bind (p.mirrors_scan p.follows_location) fun start => ?_
  refine simulates_bind (p.mirrors_scan (p.follows_expect _ _)) fun _ => ?_
  refine simulates_bind (p.mirrors_counting rfl) fun _ => ?_
  refine simulates_bind (p.mirrors_scan (p.follows_whilePeek (p.follows_pushPeek start) _ _)) fun name => ?_
  refine simulates_bind (p.mirrors_scan (p.follows_expect _ _)) fun _ => ?_
  refine simulates_bind (p.mirrors_members fun _ _ => rfl) fun entities => ?_
  exact p.mirrors_counting (p.resolveReference_eq entities start _)

theorem mirrors_takePiece (text : Bytes) : p.Mirrors (p.takePiece text) (p.listed.takePiece text) := by
  refine simulates_bind (p.mirrors_scan p.follows_peek) fun next => simulates_ite (fun _ => ?_) fun _ => ?_
  · exact simulates_bind p.mirrors_parseReference fun _ => simulates_pure _
  · exact p.mirrors_scan (p.follows_takePeek text)

end Parser

end Indexed

end XmlParser
