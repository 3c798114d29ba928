import XmlParser.ElementDeclarations

/-! The two readers of element declarations, that of the internal subset and that of
the text of an external one. -/

set_option autoImplicit false

namespace XmlParser

open XmlParser.Computation Comp
open Grammar (Text Name NameStartChar Spaces)

/-! ## Text of declarations -/

/-- A text of `<!ELEMENT ...>` declarations: for each one the white space in front
of it and what is between `<!ELEMENT` and `>`. -/
structure SubsetText where
  declarations : List (Text × Text)
  trailing : Text
  spaced : ∀ declaration ∈ declarations, Spaces declaration.1
  closed : ∀ declaration ∈ declarations, 0x3E ∉ declaration.2
  spaces : Spaces trailing

def renderDeclaration (declaration : Text × Text) : Text :=
  declaration.1 ++ (u32 "<!ELEMENT" ++ (declaration.2 ++ [0x3E]))

def SubsetText.render (subset : SubsetText) : Text :=
  subset.declarations.flatMap renderDeclaration ++ subset.trailing

def SubsetText.bodies (subset : SubsetText) : List Text := subset.declarations.map Prod.snd

/-! ## Tables -/

abbrev ElementTable := List (Bytes × ElementDeclaration)

/-- What one more declaration enters, if it can be read, is not one too many and has
a new name. -/
def newEntry (reading : Text → Option (Bytes × ElementDeclaration)) (limit : Nat) (body : Text)
    (table : ElementTable) (count : Nat) : Option (Bytes × ElementDeclaration) :=
  if count + 1 > limit then none
  else
    match reading body with
    | none => none
    | some entry => if (lookupKey entry.1 table).isSome then none else some entry

/-- The table after declarations have been read one by one with this reading, if
all of them can be. -/
def enterAll (reading : Text → Option (Bytes × ElementDeclaration)) (limit : Nat) :
    List Text → ElementTable → Nat → Option ElementTable
  | [], table, _ => some table
  | body :: bodies, table, count =>
      match newEntry reading limit body table count with
      | none => none
      | some entry => enterAll reading limit bodies (emplaceKey entry.1 entry.2 table) (count + 1)

theorem newEntry_eq_some_iff {reading : Text → Option (Bytes × ElementDeclaration)} {limit count : Nat}
    {body : Text} {table : ElementTable} {entry : Bytes × ElementDeclaration} :
    newEntry reading limit body table count = some entry ↔
      count + 1 ≤ limit ∧ reading body = some entry ∧ lookupKey entry.1 table = none := by
  unfold newEntry
  by_cases beyond : count + 1 > limit
  · rw [if_pos beyond]
    exact iff_of_false nofun fun entered => absurd entered.1 (Nat.not_le_of_gt beyond)
  · rw [if_neg beyond]
    cases reading body with
    | none => simp
    | some read =>
        have within : count + 1 ≤ limit := Nat.le_of_not_gt beyond
        dsimp only
        cases found : lookupKey read.1 table with
        | none =>
            rw [Option.isSome_none, if_neg Bool.false_ne_true]
            constructor
            · intro entered
              cases entered
              exact ⟨within, rfl, found⟩
            · rintro ⟨_, same, _⟩
              exact same
        | some declared =>
            rw [Option.isSome_some, if_pos rfl]
            refine iff_of_false nofun ?_
            rintro ⟨_, same, new⟩
            cases same
            rw [found] at new
            cases new

/-- `S Name S? model` -/
def internalReading (maxTokenBytes : Nat) (body : Text) : Option (Bytes × ElementDeclaration) :=
  let named := body.dropWhile isSpace
  let name := named.takeWhile isNameChar
  if (body.head?.map isSpace).getD false && (named.head?.map isNameStart).getD false &&
      name.length ≤ maxTokenBytes then
    (elementModel (utf8 ((named.dropWhile isNameChar).dropWhile isSpace))).map (utf8 name, ·)
  else none

/-- Anything up to the next U+0020, and the model behind it. -/
def externalReading (body : Text) : Option (Bytes × ElementDeclaration) :=
  let named := body.dropWhile (· == 0x20)
  let rest := named.dropWhile (· != 0x20)
  if rest.isEmpty then none
  else (elementModel (utf8 (rest.dropWhile (· == 0x20)))).map (utf8 (named.takeWhile (· != 0x20)), ·)

/-- A run that ends with this table, or by an exception if there is none. -/
def Yields (outcome : Except Halt Unit × ParserState) : Option ElementTable → Prop
  | some table => outcome.1 = .ok () ∧ outcome.2.dtd.elements = table
  | none => ∃ exception, outcome.1 = .error (.thrown exception)

/-! ## The internal subset -/

theorem head_map_iff {condition : Nat → Bool} {text : Text} :
    (text.head?.map condition).getD false = true ↔ ∃ c ∈ text.head?, condition c = true := by
  cases text <;> simp

theorem internalReading_eq_some_iff {maxTokenBytes : Nat} {body : Text} {name : Bytes}
    {declaration : ElementDeclaration} :
    internalReading maxTokenBytes body = some (name, declaration) ↔
      ∃ text model, Declares body text model ∧ text.length ≤ maxTokenBytes ∧ name = utf8 text ∧
        elementModel (utf8 model) = some declaration := by
  unfold internalReading
  dsimp only
  constructor
  · intro read
    split at read
    · rename_i fits
      simp only [Bool.and_eq_true, head_map_iff, decide_eq_true_eq] at fits
      obtain ⟨declared, isModel, same⟩ := Option.map_eq_some_iff.mp read
      cases same
      exact ⟨_, _, declares_iff_readsBody.mpr ⟨fits.1.1, fits.1.2, rfl, rfl⟩, fits.2, rfl, isModel⟩
    · cases read
  · rintro ⟨text, model, declares, short, rfl, isModel⟩
    obtain ⟨spaced, starts, rfl, rfl⟩ := declares_iff_readsBody.mp declares
    rw [if_pos, isModel]
    · rfl
    · simp only [Bool.and_eq_true, head_map_iff, decide_eq_true_eq]
      exact ⟨⟨spaced, starts⟩, short⟩

namespace Parser

variable (p : Parser)

/-- One declaration: it is entered, or the reader throws. -/
theorem run_parseElementDeclaration {s : ParserState} {body after : Text}
    (written : values s.rest = u32 "<!ELEMENT" ++ (body ++ 0x3E :: after)) (closed : 0x3E ∉ body) :
    match newEntry (internalReading p.options.maxTokenBytes) p.options.maxDtdDeclarations body s.dtd.elements
        s.dtd.declarationCount with
    | some entry =>
        p.parseElementDeclaration.run s = (.ok (), declared (body.length + 10) entry.1 entry.2 s)
    | none => ∃ exception t, p.parseElementDeclaration.run s = (.error (.thrown exception), t) := by
  have spec : ∀ t, p.parseElementDeclaration.run s = (.ok (), t) ↔ _ :=
    fun t => p.parseElementDeclaration_eq_ok_iff written closed
  split
  · rename_i entry entered
    obtain ⟨within, read, new⟩ := newEntry_eq_some_iff.mp entered
    obtain ⟨text, model, declares, short, isName, isModel⟩ := internalReading_eq_some_iff.mp read
    rw [isName] at new ⊢
    exact (spec _).mpr ⟨within, text, model, entry.2, declares, short, new, isModel, rfl⟩
  · rename_i refused
    cases ran : p.parseElementDeclaration.run s with
    | mk outcome t =>
        cases outcome with
        | error halt =>
            obtain ⟨exception, rfl⟩ := (p.strictly_parseElementDeclaration.obeys s).2 halt (by rw [ran])
            exact ⟨exception, t, rfl⟩
        | ok value =>
            obtain ⟨within, text, model, declaration, declares, short, new, isModel, _⟩ := (spec t).mp ran
            have read : internalReading p.options.maxTokenBytes body = some (utf8 text, declaration) :=
              internalReading_eq_some_iff.mpr ⟨text, model, declares, short, rfl, isModel⟩
            rw [newEntry_eq_some_iff.mpr ⟨within, read, new⟩] at refused
            cases refused

theorem run_skipWhitespace_of {s : ParserState} {space rest : List DecodedChar} (split : s.rest = space ++ rest)
    (spaces : Spaces (values space)) (stops : StopsAt isSpace rest) :
    (scan p.skipWhitespace).run s = (.ok (), s.withRest rest) :=
  run_scan_eq_ok_iff.mpr ⟨rest, p.skipWhitespace_eq_ok_iff.mpr ⟨space, split, spaces_iff.mpr spaces, stops⟩, rfl⟩

theorem parseInternalSubset_yields {declarations : List (Text × Text)} {trailing after : Text}
    (spaced : ∀ declaration ∈ declarations, Spaces declaration.1)
    (closed : ∀ declaration ∈ declarations, 0x3E ∉ declaration.2) (spaces : Spaces trailing)
    {s : ParserState}
    (written : values s.rest = declarations.flatMap renderDeclaration ++ (trailing ++ 0x5D :: after)) :
    Yields (p.parseInternalSubset.run s)
      (enterAll (internalReading p.options.maxTokenBytes) p.options.maxDtdDeclarations
        (declarations.map Prod.snd) s.dtd.elements s.dtd.declarationCount) := by
  have shrinks : Shrinks (fun (_ : Unit) (s : ParserState) => s.rest.length) p.internalSubsetRound :=
    shrinks_of_advances p.internalSubsetRound_strict
  unfold parseInternalSubset
  induction declarations generalizing s with
  | nil =>
      rw [List.flatMap_nil, List.nil_append] at written
      obtain ⟨space, rest, split, rfl, isRest⟩ := values_eq_append written
      cases rest with
      | nil => cases isRest
      | cons bracket rest =>
          obtain ⟨isBracket, _⟩ := List.cons.inj isRest
          have nonempty : eof s.rest = false := by
            rw [split]
            cases space <;> rfl
          have skipped := p.run_skipWhitespace_of split spaces fun c isHead => by
            cases isHead
            rw [isBracket]
            rfl
          have ran : (p.internalSubsetRound ()).run s = (.ok (.done ()), s.withRest (bracket :: rest)) := by
            unfold internalSubsetRound
            rw [run_look_bind, nonempty, if_neg Bool.false_ne_true, run_bind_of_ok skipped, run_look_bind]
            have isPeek : peek (s.withRest (bracket :: rest)).rest = 0x5D := isBracket
            rw [isPeek, if_pos (by decide)]
            rfl
          rw [run_loop_of_done shrinks ran]
          exact ⟨rfl, rfl⟩
  | cons declaration declarations ih =>
      obtain ⟨space, body⟩ := declaration
      obtain ⟨isSpaced, othersSpaced⟩ := List.forall_mem_cons.mp spaced
      obtain ⟨isClosed, othersClosed⟩ := List.forall_mem_cons.mp closed
      let remaining := declarations.flatMap renderDeclaration ++ (trailing ++ 0x5D :: after)
      have isWritten : values s.rest = space ++ (u32 "<!ELEMENT" ++ (body ++ 0x3E :: remaining)) := by
        rw [written, List.flatMap_cons, renderDeclaration]
        simp [remaining]
      obtain ⟨gap, rest, split, rfl, isRest⟩ := values_eq_append isWritten
      let next := s.withRest rest
      have starts : startsWith (u32 "<!ELEMENT") next.rest = true := startsWith_iff.mpr ⟨_, isRest.symm⟩
      have isPeek : peek next.rest = 0x3C := by
        change peek rest = 0x3C
        cases rest with
        | nil => cases isRest
        | cons c rest => exact (List.cons.inj isRest).1
      have noComment : startsWith (u32 "<!--") next.rest = false := by
        refine startsWith_eq_false_iff.mpr fun comment => ?_
        have opens : u32 "<!--" <+: u32 "<!ELEMENT" ++ (body ++ 0x3E :: remaining) := isRest ▸ comment
        exact absurd (List.prefix_of_prefix_length_le opens (List.prefix_append _ _) (by decide)) (by decide)
      have nonempty : eof s.rest = false := by
        rw [split]
        cases gap with
        | nil =>
            cases rest with
            | nil => cases isRest
            | cons c rest => rfl
        | cons c gap => rfl
      have stops : StopsAt isSpace rest := by
        intro c isHead
        cases rest with
        | nil => cases isHead
        | cons first rest =>
            cases isHead
            rw [show c.value = 0x3C from isPeek]
            rfl
      have round : (p.internalSubsetRound ()).run s =
          (p.parseElementDeclaration >>= fun _ => pure (.next ())).run next := by
        unfold internalSubsetRound
        rw [run_look_bind, nonempty, if_neg Bool.false_ne_true,
          run_bind_of_ok (p.run_skipWhitespace_of split isSpaced stops)]
        change Comp.run _ next = _
        rw [run_look_bind, isPeek, if_neg (by decide), run_look_bind, noComment, if_neg Bool.false_ne_true,
          run_look_bind, starts, if_pos rfl]
      have read := @run_parseElementDeclaration p next body remaining isRest isClosed
      rw [List.map_cons, enterAll]
      cases entered : newEntry (internalReading p.options.maxTokenBytes) p.options.maxDtdDeclarations body
          s.dtd.elements s.dtd.declarationCount with
      | none =>
          rw [show newEntry _ _ _ next.dtd.elements next.dtd.declarationCount = none from entered] at read
          obtain ⟨exception, t, ran⟩ := read
          rw [run_loop_of_error shrinks (round.trans (run_bind_of_error ran _))]
          exact ⟨exception, rfl⟩
      | some entry =>
          rw [show newEntry _ _ _ next.dtd.elements next.dtd.declarationCount = some entry from entered] at read
          rw [run_loop_of_next shrinks (round.trans (run_bind_of_ok read _))]
          have behind : values (declared (body.length + 10) entry.1 entry.2 next).rest = remaining := by
            have dropped : values (next.rest.drop (body.length + 10)) =
                (u32 "<!ELEMENT" ++ (body ++ 0x3E :: remaining)).drop (body.length + 10) := by
              rw [← isRest]
              exact List.map_drop
            refine dropped.trans ?_
            have size : (u32 "<!ELEMENT" ++ (body ++ [0x3E])).length = body.length + 10 := by
              rw [List.length_append, List.length_append, Nat.add_comm, show (u32 "<!ELEMENT").length = 9 from rfl]
              rfl
            rw [← size, show u32 "<!ELEMENT" ++ (body ++ 0x3E :: remaining) =
              (u32 "<!ELEMENT" ++ (body ++ [0x3E])) ++ remaining by simp, List.drop_left]
          exact ih othersSpaced othersClosed behind

end Parser

/-! ## The external subset -/

theorem utf8Unit_ne_nil (c : Nat) : utf8Unit c ≠ [] := by
  unfold utf8Unit
  split
  · exact List.cons_ne_nil _ _
  split
  · exact List.cons_ne_nil _ _
  split <;> exact List.cons_ne_nil _ _

/-- A test of bytes that agrees with one of characters splits a text where that does. -/
theorem utf8_splits {test : UInt8 → Bool} {condition : Nat → Bool} {text : Text}
    (agree : ∀ c ∈ text, ∀ byte ∈ utf8Unit c, test byte = condition c) :
    (utf8 text).takeWhile test = utf8 (text.takeWhile condition) ∧
      (utf8 text).dropWhile test = utf8 (text.dropWhile condition) := by
  induction text with
  | nil => exact ⟨rfl, rfl⟩
  | cons c text ih =>
      obtain ⟨first, others⟩ := List.forall_mem_cons.mp agree
      obtain ⟨takes, drops⟩ := ih others
      rw [utf8_cons]
      cases holds : condition c with
      | true =>
          have all : ∀ byte ∈ utf8Unit c, test byte = true := fun byte member => (first byte member).trans holds
          rw [List.takeWhile_append_of_pos all, List.dropWhile_append_of_pos all, takes, drops,
            List.takeWhile_cons_of_pos holds, List.dropWhile_cons_of_pos holds]
          exact ⟨rfl, rfl⟩
      | false =>
          rw [List.takeWhile_cons_of_neg (by simp [holds]), List.dropWhile_cons_of_neg (by simp [holds])]
          cases unit : utf8Unit c with
          | nil => exact absurd unit (utf8Unit_ne_nil c)
          | cons byte rest =>
              have stops : test byte = false := (first byte (unit ▸ List.mem_cons_self)).trans holds
              rw [List.cons_append, List.takeWhile_cons_of_neg (by simp [stops]),
                List.dropWhile_cons_of_neg (by simp [stops]), utf8_cons, unit]
              exact ⟨rfl, rfl⟩

theorem isSpaceByte_eq {version : XmlVersion} {c : Nat} (valid : isValidXmlChar c version = true) :
    ∀ byte ∈ utf8Unit c, (byte == 0x20) = (c == 0x20) := by
  intro byte member
  by_cases space : c = 0x20
  · subst space
    rw [List.mem_singleton.mp (show byte ∈ [0x20] from member)]
    rfl
  · have absent : (0x20 : UInt8) ∉ utf8Unit c := fun inside =>
      space ((ascii_mem_utf8Unit (by decide) valid).mp inside).symm
    rw [beq_eq_false_iff_ne.mpr space, beq_eq_false_iff_ne]
    rintro rfl
    exact absent member

theorem split_takeWhile (test : UInt8 → Bool) (text : Bytes) :
    text.take (text.takeWhile test).length = text.takeWhile test ∧
      text.drop (text.takeWhile test).length = text.dropWhile test := by
  have split := @List.takeWhile_append_dropWhile _ test text
  constructor
  · calc text.take (text.takeWhile test).length
        = (text.takeWhile test ++ text.dropWhile test).take (text.takeWhile test).length := by rw [split]
      _ = text.takeWhile test := List.take_left
  · calc text.drop (text.takeWhile test).length
        = (text.takeWhile test ++ text.dropWhile test).drop (text.takeWhile test).length := by rw [split]
      _ = text.dropWhile test := List.drop_left

theorem drop_skipFrom (test : UInt8 → Bool) (text : Bytes) (cursor : Nat) :
    text.drop (skipFrom test text cursor) = (text.drop cursor).dropWhile test := by
  unfold skipFrom
  rw [← List.drop_drop]
  exact (split_takeWhile test (text.drop cursor)).2

theorem substr_skipFrom (test : UInt8 → Bool) (text : Bytes) (cursor : Nat) :
    substr text cursor (skipFrom test text cursor - cursor) = (text.drop cursor).takeWhile test := by
  unfold skipFrom substr
  rw [Nat.add_sub_cancel_left]
  exact (split_takeWhile test (text.drop cursor)).1

/-- Up to the last character, when the length is that of a string. -/
theorem substr_last {text : Bytes} {cursor : Nat} (small : text.length < 2 ^ 64) :
    substr text cursor (sizeSub (sizeSub text.length cursor) 1) = (text.drop cursor).dropLast := by
  unfold substr
  by_cases within : cursor < text.length
  · have size : sizeSub (sizeSub text.length cursor) 1 = (text.drop cursor).length - 1 := by
      unfold sizeSub
      rw [List.length_drop]
      omega
    rw [size, List.dropLast_eq_take]
  · rw [List.drop_eq_nil_of_le (Nat.le_of_not_lt within), List.take_nil, List.dropLast_nil]

/-- The name and the model that the reader of external declarations cuts out. -/
theorem external_parts {version : XmlVersion} {body : Text} (legal : Legal version body)
    (small : (utf8 body).length + 10 < 2 ^ 64) {declaration : Bytes}
    (isDeclaration : declaration = ascii "<!ELEMENT" ++ utf8 (body ++ [0x3E])) :
    let nameStart := skipFrom (· == 0x20) declaration (ascii "<!ELEMENT").length
    let nameEnd := skipFrom (· != 0x20) declaration nameStart
    let cursor := skipFrom (· == 0x20) declaration nameEnd
    let named := (body ++ [0x3E]).dropWhile (· == 0x20)
    substr declaration nameStart (nameEnd - nameStart) = utf8 (named.takeWhile (· != 0x20)) ∧
      substr declaration cursor (sizeSub (sizeSub declaration.length cursor) 1) =
        (utf8 ((named.dropWhile (· != 0x20)).dropWhile (· == 0x20))).dropLast := by
  dsimp only
  have valid : ∀ c ∈ body ++ [0x3E], isValidXmlChar c version = true := by
    refine List.forall_mem_append.mpr ⟨legal, List.forall_mem_singleton.mpr ?_⟩
    cases version <;> rfl
  have spaces : ∀ {text : Text}, (∀ c ∈ text, isValidXmlChar c version = true) →
      (utf8 text).dropWhile (· == 0x20) = utf8 (text.dropWhile (· == 0x20)) :=
    fun valid => (utf8_splits fun c member => isSpaceByte_eq (valid c member)).2
  have words : ∀ {text : Text}, (∀ c ∈ text, isValidXmlChar c version = true) →
      (utf8 text).takeWhile (· != 0x20) = utf8 (text.takeWhile (· != 0x20)) ∧
        (utf8 text).dropWhile (· != 0x20) = utf8 (text.dropWhile (· != 0x20)) :=
    fun valid => utf8_splits fun c member byte inUnit => congrArg not (isSpaceByte_eq (valid c member) byte inUnit)
  have rest : ∀ {text : Text} (condition : Nat → Bool), (∀ c ∈ text, isValidXmlChar c version = true) →
      ∀ c ∈ text.dropWhile condition, isValidXmlChar c version = true :=
    fun condition valid c member => valid c ((List.dropWhile_suffix condition).subset member)
  have length : declaration.length < 2 ^ 64 := by
    have keyword : (ascii "<!ELEMENT").length = 9 := by decide
    have mark : (utf8 [0x3E]).length = 1 := rfl
    rw [isDeclaration, List.length_append, utf8_append, List.length_append, keyword, mark]
    omega
  have start : declaration.drop (ascii "<!ELEMENT").length = utf8 (body ++ [0x3E]) := by
    rw [isDeclaration, List.drop_left]
  have named := rest (· == 0x20) valid
  rw [substr_skipFrom, substr_last length]
  simp only [drop_skipFrom, start]
  rw [spaces valid, (words named).1, (words named).2, spaces (rest (· != 0x20) named)]
  exact ⟨rfl, rfl⟩

theorem elementModel_nil : elementModel [] = none := by decide

/-- What is cut out, by whether there is a U+0020 behind the name. -/
theorem externalReading_eq (body : Text) :
    let named := (body ++ [0x3E]).dropWhile (· == 0x20)
    externalReading body =
      (elementModel (utf8 ((named.dropWhile (· != 0x20)).dropWhile (· == 0x20))).dropLast).map
        (utf8 (named.takeWhile (· != 0x20)), ·) := by
  have behind : ∀ text : Text, (text ++ [0x3E]).dropWhile (· == 0x20) = text.dropWhile (· == 0x20) ++ [0x3E] := by
    intro text
    rw [List.dropWhile_append]
    split
    · rename_i empty
      rw [List.isEmpty_iff.mp empty]
      rfl
    · rfl
  unfold externalReading
  dsimp only
  rw [behind, List.dropWhile_append, List.takeWhile_append]
  generalize body.dropWhile (· == 0x20) = named
  by_cases ends : (named.dropWhile (· != 0x20)).isEmpty = true
  · rw [if_pos ends, if_pos ends]
    have nothing : (utf8 ((([0x3E] : Text).dropWhile (· != 0x20)).dropWhile (· == 0x20))).dropLast = [] := rfl
    rw [nothing, elementModel_nil]
    rfl
  · have goesOn : (named.takeWhile (· != 0x20)).length ≠ named.length := by
      intro same
      have lengths := congrArg List.length (@List.takeWhile_append_dropWhile _ (· != 0x20) named)
      rw [List.length_append, same] at lengths
      exact ends (List.isEmpty_iff.mpr (List.eq_nil_of_length_eq_zero (by omega)))
    have mark : utf8 [0x3E] = [0x3E] := rfl
    rw [if_neg ends, if_neg ends, if_neg goesOn, behind, utf8_append, mark, List.dropLast_concat]

namespace Parser

variable (p : Parser)

theorem run_parseExternalElementDeclaration {version : XmlVersion} {s : ParserState} {body : Text}
    (legal : Legal version body) (small : (utf8 body).length + 10 < 2 ^ 64) {declaration : Bytes}
    (isDeclaration : declaration = ascii "<!ELEMENT" ++ utf8 (body ++ [0x3E])) :
    match newEntry externalReading p.options.maxDtdDeclarations body s.dtd.elements s.dtd.declarationCount with
    | some entry =>
        (p.parseExternalElementDeclaration declaration).run s = (.ok (), declared 0 entry.1 entry.2 s)
    | none =>
        ∃ exception t, (p.parseExternalElementDeclaration declaration).run s = (.error (.thrown exception), t) := by
  obtain ⟨isName, isModel⟩ := external_parts legal small isDeclaration
  have closes : declaration.getLast? = some 0x3E := by
    rw [isDeclaration, utf8_append, ← List.append_assoc]
    exact List.getLast?_concat
  have spec : ∀ t, (p.parseExternalElementDeclaration declaration).run s = (.ok (), t) ↔
      ∃ entry, newEntry externalReading p.options.maxDtdDeclarations body s.dtd.elements
        s.dtd.declarationCount = some entry ∧ t = declared 0 entry.1 entry.2 s := by
    intro t
    unfold parseExternalElementDeclaration
    dsimp only at isName isModel ⊢
    rw [isName, isModel, closes, bne_self_eq_false, if_neg Bool.false_ne_true]
    constructor
    · intro ran
      obtain ⟨_, _, isCounted, ran⟩ := bind_eq_ok.mp ran
      obtain ⟨within, rfl⟩ := p.enforceDtdDeclarationLimit_eq_ok_iff.mp isCounted
      rw [run_look_bind] at ran
      obtain ⟨new, declared, isDeclared, rfl⟩ := declareElement_eq_ok_iff.mp ran
      refine ⟨(_, declared), newEntry_eq_some_iff.mpr ⟨within, ?_, new⟩, rfl⟩
      rw [externalReading_eq, isDeclared]
      rfl
    · rintro ⟨entry, entered, rfl⟩
      obtain ⟨within, read, new⟩ := newEntry_eq_some_iff.mp entered
      rw [externalReading_eq] at read
      obtain ⟨declared, isDeclared, rfl⟩ := Option.map_eq_some_iff.mp read
      rw [run_bind_of_ok (p.enforceDtdDeclarationLimit_eq_ok_iff.mpr ⟨within, rfl⟩), run_look_bind]
      exact declareElement_eq_ok_iff.mpr ⟨new, declared, isDeclared, rfl⟩
  split
  · rename_i entry entered
    exact (spec _).mpr ⟨entry, entered, rfl⟩
  · rename_i refused
    cases ran : (p.parseExternalElementDeclaration declaration).run s with
    | mk outcome t =>
        cases outcome with
        | error halt =>
            obtain ⟨exception, rfl⟩ := (p.quietly_parseExternalElementDeclaration declaration s).2 halt (by rw [ran])
            exact ⟨exception, t, rfl⟩
        | ok value =>
            obtain ⟨entry, entered, _⟩ := (spec t).mp ran
            rw [refused] at entered
            cases entered

theorem dropWhile_utf8_spaces {space : Text} (spaces : Spaces space) (text : Text) :
    (utf8 (space ++ text)).dropWhile isAsciiSpace = (utf8 text).dropWhile isAsciiSpace := by
  rw [utf8_append]
  refine List.dropWhile_append_of_pos fun byte member => ?_
  obtain ⟨c, isChar, inUnit⟩ := List.mem_flatMap.mp member
  obtain rfl | rfl | rfl | rfl := spaces c isChar <;> (cases List.mem_singleton.mp inUnit; rfl)

/-- One round of the reader of an external subset, in front of a declaration. -/
theorem externalSubsetRound_eq {subset before after : Bytes} (absent : 0x3E ∉ before)
    (isRest : subset.dropWhile isAsciiSpace = ascii "<!ELEMENT" ++ (before ++ 0x3E :: after)) :
    p.externalSubsetRound subset =
      p.parseExternalElementDeclaration (ascii "<!ELEMENT" ++ (before ++ [0x3E])) >>= fun _ =>
        pure (.next after) := by
  have keyword : ∀ byte ∈ ascii "<!ELEMENT", byte ≠ 0x3E := by decide +kernel
  have isHead : ascii "<!ELEMENT" ++ (before ++ 0x3E :: after) = (ascii "<!ELEMENT" ++ before) ++ 0x3E :: after :=
    (List.append_assoc _ _ _).symm
  have front : ∀ byte ∈ ascii "<!ELEMENT" ++ before, (byte != 0x3E) = true := by
    refine List.forall_mem_append.mpr ⟨fun byte member => bne_iff_ne.mpr (keyword byte member), ?_⟩
    exact fun byte member => bne_iff_ne.mpr fun same => absent (same ▸ member)
  unfold externalSubsetRound
  dsimp only
  rw [isRest]
  have nonempty : (ascii "<!ELEMENT" ++ (before ++ 0x3E :: after)).isEmpty = false := by
    simp
  have starts : (ascii "<!ELEMENT").isPrefixOf (ascii "<!ELEMENT" ++ (before ++ 0x3E :: after)) = true :=
    List.isPrefixOf_iff_prefix.mpr (List.prefix_append _ _)
  have contains : (ascii "<!ELEMENT" ++ (before ++ 0x3E :: after)).contains 0x3E = true := by
    simp
  rw [nonempty, starts, contains, if_neg Bool.false_ne_true, if_pos rfl, if_neg (by decide)]
  rw [isHead, List.takeWhile_append_of_pos front, List.takeWhile_cons_of_neg (by decide), List.append_nil]
  have taken : ((ascii "<!ELEMENT" ++ before) ++ 0x3E :: after).take ((ascii "<!ELEMENT" ++ before).length + 1) =
      ascii "<!ELEMENT" ++ (before ++ [0x3E]) := by
    rw [List.take_length_add_append]
    simp
  have dropped : ((ascii "<!ELEMENT" ++ before) ++ 0x3E :: after).drop ((ascii "<!ELEMENT" ++ before).length + 1) =
      after := by
    rw [List.drop_length_add_append]
    simp
  rw [taken, dropped]

theorem parseExternalSubsetText_yields {version : XmlVersion} {declarations : List (Text × Text)} {trailing : Text}
    (spaced : ∀ declaration ∈ declarations, Spaces declaration.1)
    (closed : ∀ declaration ∈ declarations, 0x3E ∉ declaration.2) (spaces : Spaces trailing)
    (legal : Legal version (declarations.flatMap renderDeclaration ++ trailing))
    (small : (utf8 (declarations.flatMap renderDeclaration ++ trailing)).length < 2 ^ 64) (s : ParserState) :
    Yields ((p.parseExternalSubsetText (utf8 (declarations.flatMap renderDeclaration ++ trailing))).run s)
      (enterAll externalReading p.options.maxDtdDeclarations (declarations.map Prod.snd) s.dtd.elements
        s.dtd.declarationCount) := by
  unfold parseExternalSubsetText
  have shrinks := p.externalSubsetRound_shrinks
  induction declarations generalizing s with
  | nil =>
      have ended : (utf8 trailing).dropWhile isAsciiSpace = [] := by
        have bare := dropWhile_utf8_spaces spaces []
        rwa [List.append_nil] at bare
      have ran : (p.externalSubsetRound (utf8 trailing)).run s = (.ok (.done ()), s) := by
        unfold externalSubsetRound
        dsimp only
        rw [ended, List.isEmpty_nil, if_pos rfl]
        rfl
      rw [List.flatMap_nil, List.nil_append, run_loop_of_done shrinks ran]
      exact ⟨rfl, rfl⟩
  | cons declaration declarations ih =>
      obtain ⟨space, body⟩ := declaration
      obtain ⟨isSpaced, othersSpaced⟩ := List.forall_mem_cons.mp spaced
      obtain ⟨isClosed, othersClosed⟩ := List.forall_mem_cons.mp closed
      let remaining := declarations.flatMap renderDeclaration ++ trailing
      have isText : ((space, body) :: declarations).flatMap renderDeclaration ++ trailing =
          space ++ (u32 "<!ELEMENT" ++ (body ++ 0x3E :: remaining)) := by
        rw [List.flatMap_cons, renderDeclaration]
        simp [remaining]
      rw [isText] at legal small ⊢
      obtain ⟨_, legalRest⟩ := legal_append.mp legal
      obtain ⟨_, legalBody⟩ := legal_append.mp legalRest
      obtain ⟨bodyLegal, markLegal⟩ := legal_append.mp legalBody
      obtain ⟨_, remainingLegal⟩ := legal_cons.mp markLegal
      have keyword : utf8 (u32 "<!ELEMENT") = ascii "<!ELEMENT" := by decide
      have isBytes : utf8 (u32 "<!ELEMENT" ++ (body ++ 0x3E :: remaining)) =
          ascii "<!ELEMENT" ++ (utf8 body ++ 0x3E :: utf8 remaining) := by
        rw [utf8_append, utf8_append, keyword]
        rfl
      have absent : 0x3E ∉ utf8 body := fun member =>
        isClosed ((ascii_mem_utf8 (by decide) bodyLegal).mp member)
      have isRest : (utf8 (space ++ (u32 "<!ELEMENT" ++ (body ++ 0x3E :: remaining)))).dropWhile isAsciiSpace =
          ascii "<!ELEMENT" ++ (utf8 body ++ 0x3E :: utf8 remaining) := by
        have bracket : ascii "<!ELEMENT" = 0x3C :: ascii "!ELEMENT" := by decide
        rw [dropWhile_utf8_spaces isSpaced, isBytes, bracket]
        exact List.dropWhile_cons_of_neg (by decide)
      have size : (utf8 body).length + 10 < 2 ^ 64 ∧ (utf8 remaining).length < 2 ^ 64 := by
        have length : (ascii "<!ELEMENT").length = 9 := by decide
        rw [utf8_append, isBytes, List.length_append, List.length_append, List.length_append, length,
          List.length_cons] at small
        omega
      have read := @run_parseExternalElementDeclaration p version s body bodyLegal size.1 _ rfl
      have isDeclaration : ascii "<!ELEMENT" ++ utf8 (body ++ [0x3E]) = ascii "<!ELEMENT" ++ (utf8 body ++ [0x3E]) := by
        rw [utf8_append]
        rfl
      have round := p.externalSubsetRound_eq absent isRest
      rw [← isDeclaration] at round
      rw [List.map_cons, enterAll]
      cases entered : newEntry externalReading p.options.maxDtdDeclarations body s.dtd.elements
          s.dtd.declarationCount with
      | none =>
          rw [entered] at read
          obtain ⟨exception, t, ran⟩ := read
          rw [run_loop_of_error shrinks (round ▸ run_bind_of_error ran _)]
          exact ⟨exception, rfl⟩
      | some entry =>
          rw [entered] at read
          rw [run_loop_of_next shrinks (round ▸ run_bind_of_ok read _)]
          exact ih othersSpaced othersClosed remainingLegal size.2 (declared 0 entry.1 entry.2 s)

theorem resolveExternalSubset_yields {version : XmlVersion} (subset : SubsetText)
    (legal : Legal version subset.render) (small : (utf8 subset.render).length < 2 ^ 64)
    (validates : p.options.validation = .dtd) (allowed : p.options.allowExternalDtd = true)
    {resolve : Bytes → Except Exception Bytes} (resolver : p.options.externalDtdResolver = some resolve)
    {s : ParserState} (external : s.dtd.hasExternalSubset = true)
    (answer : resolve s.dtd.externalSystemId = .ok (utf8 subset.render)) :
    Yields (p.resolveExternalSubsetIfNeeded.run s)
      (if (utf8 subset.render).length > p.options.maxExternalSubsetBytes then none
        else enterAll externalReading p.options.maxDtdDeclarations subset.bodies s.dtd.elements
          s.dtd.declarationCount) := by
  unfold resolveExternalSubsetIfNeeded
  rw [run_read_bind, external, validates, if_neg (by decide), allowed, resolver]
  dsimp only
  rw [answer]
  dsimp only
  by_cases long : (utf8 subset.render).length > p.options.maxExternalSubsetBytes
  · rw [if_pos long, if_pos long]
    exact ⟨_, rfl⟩
  · rw [if_neg long, if_neg long]
    exact p.parseExternalSubsetText_yields subset.spaced subset.closed subset.spaces legal small s

end Parser

/-! ## Agreement -/

/-- Both runs throw, or both return with the same table of declared elements. -/
def ReadAlike (first second : Except Halt Unit × ParserState) : Prop :=
  (∃ exception other, first.1 = .error (.thrown exception) ∧ second.1 = .error (.thrown other)) ∨
    first.1 = .ok () ∧ second.1 = .ok () ∧
      ∀ name, lookupKey name first.2.dtd.elements = lookupKey name second.2.dtd.elements

/-- One or more U+0020, a name that is not too long, and U+0020 behind it. -/
def PlainlySpaced (maxTokenBytes : Nat) (body : Text) : Prop :=
  ∃ space name model, body = space ++ (name ++ 0x20 :: model) ∧ space ≠ [] ∧ (∀ c ∈ space, c = 0x20) ∧
    Name name ∧ name.length ≤ maxTokenBytes

theorem lookupKey_isSome_iff {α : Type} {key : Bytes} {entries : List (Bytes × α)} :
    (lookupKey key entries).isSome = true ↔ key ∈ entries.map Prod.fst := by
  unfold lookupKey
  simp

/-- What is entered are the readings of the declarations. -/
theorem enterAll_eq_some {reading : Text → Option (Bytes × ElementDeclaration)} {limit count : Nat}
    {bodies : List Text} {table result : ElementTable}
    (entered : enterAll reading limit bodies table count = some result) :
    ∃ entries, result = table ++ entries ∧ bodies.map reading = entries.map some := by
  induction bodies generalizing table count with
  | nil =>
      cases entered
      exact ⟨[], (List.append_nil _).symm, rfl⟩
  | cons body bodies ih =>
      rw [enterAll] at entered
      cases isNew : newEntry reading limit body table count with
      | none =>
          rw [isNew] at entered
          cases entered
      | some entry =>
          rw [isNew] at entered
          obtain ⟨entries, rfl, readings⟩ := ih entered
          obtain ⟨_, read, _⟩ := newEntry_eq_some_iff.mp isNew
          refine ⟨entry :: entries, ?_, by rw [List.map_cons, List.map_cons, read, readings]⟩
          rw [emplaceKey, List.append_assoc]
          rfl

theorem enterAll_congr {reading other : Text → Option (Bytes × ElementDeclaration)} {limit : Nat}
    {bodies : List Text} (same : ∀ body ∈ bodies, reading body = other body) (table : ElementTable) (count : Nat) :
    enterAll reading limit bodies table count = enterAll other limit bodies table count := by
  induction bodies generalizing table count with
  | nil => rfl
  | cons body bodies ih =>
      obtain ⟨first, others⟩ := List.forall_mem_cons.mp same
      have isNew : newEntry reading limit body table count = newEntry other limit body table count := by
        unfold newEntry
        rw [first]
      rw [enterAll, enterAll, isNew]
      cases newEntry other limit body table count with
      | none => rfl
      | some entry => exact ih others _ _

/-- A name that a test of its characters takes up to a character that fails it. -/
theorem splits_name {condition : Nat → Bool} {name : Text} (letters : ∀ c ∈ name, condition c = true) {mark : Nat}
    (stops : condition mark = false) (model : Text) :
    (name ++ mark :: model).takeWhile condition = name ∧
      (name ++ mark :: model).dropWhile condition = mark :: model := by
  rw [List.takeWhile_append_of_pos letters, List.dropWhile_append_of_pos letters,
    List.takeWhile_cons_of_neg (by simp [stops]), List.dropWhile_cons_of_neg (by simp [stops]), List.append_nil]
  exact ⟨rfl, rfl⟩

theorem isNameChar_ne_space {c : Nat} (nameChar : isNameChar c = true) : (c != 0x20) = true := by
  refine bne_iff_ne.mpr ?_
  rintro rfl
  cases nameChar

theorem dropWhile_front {condition : Nat → Bool} {space name : Text} (spaces : ∀ c ∈ space, c = 0x20)
    (isSpaced : condition 0x20 = true) (named : Name name)
    (stops : ∀ letter, isNameStart letter = true → condition letter = false) (model : Text) :
    (space ++ (name ++ 0x20 :: model)).dropWhile condition = name ++ 0x20 :: model := by
  obtain ⟨_, letter, isLetter, starts⟩ := name_iff.mp named
  rw [List.dropWhile_append_of_pos fun c member => spaces c member ▸ isSpaced]
  refine dropWhile_of_head fun c isFirst => ?_
  rw [List.head?_append, Option.mem_def.mp isLetter] at isFirst
  cases isFirst
  exact stops letter starts

theorem isSpace_of_isNameStart {letter : Nat} (starts : isNameStart letter = true) : isSpace letter = false :=
  isSpace_of_nameStart (isNameStart_iff.mp starts)

theorem PlainlySpaced.readings {maxTokenBytes : Nat} {body : Text} (plain : PlainlySpaced maxTokenBytes body) :
    internalReading maxTokenBytes body = externalReading body := by
  obtain ⟨space, name, model, rfl, nonempty, spaces, named, short⟩ := plain
  obtain ⟨letters, letter, isLetter, starts⟩ := name_iff.mp named
  have notSpace : ∀ letter, isNameStart letter = true → (letter == 0x20) = false := by
    intro letter starts
    have nameChar : isNameChar letter = true := by simp [isNameChar, starts]
    simpa using isNameChar_ne_space nameChar
  have isHead : (name ++ 0x20 :: model).head? = some letter := by
    rw [List.head?_append, Option.mem_def.mp isLetter]
    rfl
  have spaced : ((space ++ (name ++ 0x20 :: model)).head?.map isSpace).getD false = true := by
    cases space with
    | nil => exact absurd rfl nonempty
    | cons c space =>
        rw [show c = 0x20 from spaces c List.mem_cons_self]
        rfl
  have words := @splits_name (· != 0x20) name (fun c member => isNameChar_ne_space (letters c member)) 0x20 rfl model
  unfold internalReading externalReading
  dsimp only
  rw [dropWhile_front spaces rfl named fun _ => isSpace_of_isNameStart, dropWhile_front spaces rfl named notSpace,
    (splits_name letters rfl model).1, (splits_name letters rfl model).2, words.1, words.2, spaced, isHead,
    if_pos (by simp [starts, short]), if_neg (by simp), elementModel_dropWhile fun _ => id,
    elementModel_dropWhile]
  intro c isSpaced
  rw [beq_iff_eq.mp isSpaced]
  rfl

/-- Where the two readers find the same name, it is in plain space. -/
theorem plainlySpaced_of_readings {version : XmlVersion} {maxTokenBytes : Nat} {body text : Text}
    {declaration other : ElementDeclaration} {name : Bytes} (legal : Legal version body)
    (internal : internalReading maxTokenBytes body = some (name, declaration))
    (external : externalReading body = some (utf8 text, other)) (named : Name text) :
    PlainlySpaced maxTokenBytes body := by
  obtain ⟨read, _, declares, short, _, _⟩ := internalReading_eq_some_iff.mp internal
  obtain ⟨⟨c, isHead, isSpaced⟩, _, isName, _⟩ := declares_iff_readsBody.mp declares
  unfold externalReading at external
  dsimp only at external
  split at external
  · cases external
  rename_i goesOn
  obtain ⟨_, _, same⟩ := Option.map_eq_some_iff.mp external
  have spaces : ∀ c ∈ body.takeWhile (· == 0x20), c = 0x20 :=
    fun c member => beq_iff_eq.mp (List.mem_takeWhile_imp (p := (· == 0x20)) member)
  have split := @List.takeWhile_append_dropWhile _ (· == 0x20) body
  generalize body.takeWhile (· == 0x20) = space at split spaces
  generalize body.dropWhile (· == 0x20) = behind at split goesOn same
  have isText : behind.takeWhile (· != 0x20) = text := by
    refine @utf8_injective version _ _ (fun c member => ?_) (named.legal version) (Prod.mk.inj same).1
    exact legal c (split ▸ List.mem_append_right _ ((List.takeWhile_prefix _).subset member))
  have ends := @head_takeWhile (· != 0x20) behind
  have split2 := @List.takeWhile_append_dropWhile _ (· != 0x20) behind
  generalize behind.dropWhile (· != 0x20) = rest at split2 goesOn ends
  rw [isText] at split2
  cases rest with
  | nil => exact absurd rfl goesOn
  | cons mark model =>
      have isMark : mark = 0x20 := by simpa using ends mark rfl
      subst isMark split2 split
      obtain ⟨letters, letter, isLetter, starts⟩ := name_iff.mp named
      rw [dropWhile_front spaces rfl named fun _ => isSpace_of_isNameStart,
        (splits_name letters rfl model).1] at isName
      refine ⟨space, text, model, rfl, ?_, spaces, named, isName ▸ short⟩
      rintro rfl
      rw [List.nil_append, List.head?_append, Option.mem_def.mp isLetter] at isHead
      cases isHead
      rw [isSpace_of_isNameStart starts] at isSpaced
      cases isSpaced

theorem readAlike_iff {first second : Except Halt Unit × ParserState} {table other : Option ElementTable}
    (yields : Yields first table) (yieldsOther : Yields second other) :
    ReadAlike first second ↔ (table = none ∧ other = none) ∨
      ∃ left right, table = some left ∧ other = some right ∧ ∀ name, lookupKey name left = lookupKey name right := by
  unfold ReadAlike
  cases table with
  | none =>
      obtain ⟨exception, threw⟩ := yields
      cases other with
      | none =>
          obtain ⟨raised, threwToo⟩ := yieldsOther
          exact iff_of_true (.inl ⟨exception, raised, threw, threwToo⟩) (.inl ⟨rfl, rfl⟩)
      | some right => simp [threw, yieldsOther.1]
  | some left =>
      obtain ⟨returned, rfl⟩ := yields
      cases other with
      | none =>
          obtain ⟨raised, threw⟩ := yieldsOther
          simp [returned, threw]
      | some right =>
          obtain ⟨returnedToo, rfl⟩ := yieldsOther
          simp [returned, returnedToo]

/-- Either every declaration has its name in plain space, no name is too long and
the text is not too long for an external subset, or neither reader can read the
text. -/
def SubsetsMeet (options : ParserOptions) (subset : SubsetText) : Prop :=
  ((∀ body ∈ subset.bodies, PlainlySpaced options.maxTokenBytes body) ∧
      (utf8 subset.render).length ≤ options.maxExternalSubsetBytes) ∨
    (enterAll (internalReading options.maxTokenBytes) options.maxDtdDeclarations subset.bodies [] 0 = none ∧
      ((utf8 subset.render).length > options.maxExternalSubsetBytes ∨
        enterAll externalReading options.maxDtdDeclarations subset.bodies [] 0 = none))

theorem SubsetText.legal_body {subset : SubsetText} {version : XmlVersion} (legal : Legal version subset.render)
    {body : Text} (isBody : body ∈ subset.bodies) : Legal version body := by
  obtain ⟨declaration, member, rfl⟩ := List.mem_map.mp isBody
  intro c inBody
  refine legal c (List.mem_append_left _ (List.mem_flatMap.mpr ⟨declaration, member, ?_⟩))
  simp [renderDeclaration, inBody]

/-- Two tables with the same names have been read from plainly spaced declarations. -/
theorem plainlySpaced_of_tables {version : XmlVersion} {maxTokenBytes limit : Nat} {bodies : List Text}
    (legal : ∀ body ∈ bodies, Legal version body) {left right : ElementTable}
    (internal : enterAll (internalReading maxTokenBytes) limit bodies [] 0 = some left)
    (external : enterAll externalReading limit bodies [] 0 = some right)
    (same : ∀ name, lookupKey name left = lookupKey name right) :
    ∀ body ∈ bodies, PlainlySpaced maxTokenBytes body := by
  obtain ⟨_, rfl, readings⟩ := enterAll_eq_some internal
  obtain ⟨_, rfl, otherReadings⟩ := enterAll_eq_some external
  intro body isBody
  have read : ∃ entry, internalReading maxTokenBytes body = some entry := by
    have member := readings ▸ List.mem_map_of_mem isBody
    obtain ⟨entry, _, isEntry⟩ := List.mem_map.mp member
    exact ⟨entry, isEntry.symm⟩
  have readToo : ∃ entry ∈ right, externalReading body = some entry := by
    have member := otherReadings ▸ List.mem_map_of_mem isBody
    obtain ⟨entry, isOther, isEntry⟩ := List.mem_map.mp member
    exact ⟨entry, isOther, isEntry.symm⟩
  obtain ⟨entry, internalRead⟩ := read
  obtain ⟨other, isOther, externalRead⟩ := readToo
  have isKey : other.1 ∈ left.map Prod.fst := by
    rw [← lookupKey_isSome_iff, same, lookupKey_isSome_iff]
    exact List.mem_map_of_mem isOther
  obtain ⟨origin, isOrigin, sameKey⟩ := List.mem_map.mp isKey
  have named : ∃ text, Name text ∧ other.1 = utf8 text := by
    have member : some origin ∈ bodies.map (internalReading maxTokenBytes) := by
      rw [readings]
      exact List.mem_map_of_mem isOrigin
    obtain ⟨source, _, sourceRead⟩ := List.mem_map.mp member
    obtain ⟨text, _, declares, _, isName, _⟩ := internalReading_eq_some_iff.mp sourceRead
    exact ⟨text, declares.named, sameKey.symm.trans isName⟩
  obtain ⟨text, isNamed, isText⟩ := named
  obtain ⟨name, declaration⟩ := other
  cases isText
  exact plainlySpaced_of_readings (legal body isBody) internalRead externalRead isNamed

/-- The two readers agree on a text just if they meet. -/
theorem subsets_readAlike_iff {p q : Parser} (same : q.options = p.options) (validates : p.options.validation = .dtd)
    (allowed : p.options.allowExternalDtd = true) {resolve : Bytes → Except Exception Bytes}
    (resolver : p.options.externalDtdResolver = some resolve) (subset : SubsetText)
    (legal : Legal p.options.version subset.render) (small : (utf8 subset.render).length < 2 ^ 64)
    {s u : ParserState} {after : Text} (written : values s.rest = subset.render ++ 0x5D :: after)
    (fresh : s.dtd.elements = [] ∧ s.dtd.declarationCount = 0)
    (freshToo : u.dtd.elements = [] ∧ u.dtd.declarationCount = 0) (external : u.dtd.hasExternalSubset = true)
    (answer : resolve u.dtd.externalSystemId = .ok (utf8 subset.render)) :
    ReadAlike (p.parseInternalSubset.run s) (q.resolveExternalSubsetIfNeeded.run u) ↔
      SubsetsMeet p.options subset := by
  have yields := p.parseInternalSubset_yields subset.spaced subset.closed subset.spaces
    (written.trans (List.append_assoc _ _ _))
  have yieldsToo := q.resolveExternalSubset_yields subset legal small (by rw [same, validates])
    (by rw [same, allowed]) (by rw [same, resolver]) external answer
  rw [fresh.1, fresh.2] at yields
  rw [freshToo.1, freshToo.2, same] at yieldsToo
  rw [readAlike_iff yields yieldsToo]
  change (enterAll _ _ subset.bodies [] 0 = none ∧ _) ∨ (∃ left right, enterAll _ _ subset.bodies [] 0 = _ ∧ _) ↔ _
  unfold SubsetsMeet
  by_cases long : (utf8 subset.render).length > p.options.maxExternalSubsetBytes
  · rw [if_pos long]
    simp [long, Nat.not_le_of_gt long]
  rw [if_neg long]
  have bounded := Nat.le_of_not_gt long
  constructor
  · rintro (failed | ⟨left, right, internal, external, sameTable⟩)
    · exact .inr ⟨failed.1, .inr failed.2⟩
    · exact .inl ⟨plainlySpaced_of_tables (fun body isBody => subset.legal_body legal isBody) internal external
        sameTable, bounded⟩
  · rintro (⟨plain, _⟩ | ⟨internal, external⟩)
    · have agree := @enterAll_congr _ _ p.options.maxDtdDeclarations _
        (fun body isBody => (plain body isBody).readings) [] 0
      rw [agree]
      cases enterAll externalReading p.options.maxDtdDeclarations subset.bodies [] 0 with
      | none => exact .inl ⟨rfl, rfl⟩
      | some table => exact .inr ⟨table, table, rfl, rfl, fun _ => rfl⟩
    · exact .inl ⟨internal, external.resolve_left long⟩

/-- The text of one declaration. -/
def oneDeclaration (body : Text) (closed : 0x3E ∉ body) : SubsetText where
  declarations := [([], body)]
  trailing := []
  spaced := List.forall_mem_singleton.mpr (List.forall_mem_nil _)
  closed := List.forall_mem_singleton.mpr closed
  spaces := List.forall_mem_nil _

/-- A parser whose resolver answers with this text. -/
def resolvingParser (subset : SubsetText) : Parser :=
  ⟨.recording, {
    validation := .dtd
    allowExternalDtd := true
    externalDtdResolver := some fun _ => .ok (utf8 subset.render) }, {}⟩

/-- The state in which an external subset is still to be read. -/
def externalDeclared : ParserState := { rest := [], dtd := { hasExternalSubset := true } }

/-- `<!ELEMENT a ANY>`, with a tab and with a space in front of the name. -/
def tabbedText : SubsetText := oneDeclaration (u32 "\ta ANY") (by decide)

def spacedText : SubsetText := oneDeclaration (u32 " a ANY") (by decide)

theorem not_subsets_readAlike :
    ¬ ReadAlike ((resolvingParser tabbedText).parseInternalSubset.run (inFrontOf (tabbedText.render ++ u32 "]")))
      ((resolvingParser tabbedText).resolveExternalSubsetIfNeeded.run externalDeclared) := by
  rintro (⟨_, _, threw, _⟩ | ⟨_, _, same⟩)
  · cases threw
  · exact absurd (same (ascii "a")) (by decide +kernel)

theorem subsets_readAlike_iff_sample :
    ReadAlike ((resolvingParser spacedText).parseInternalSubset.run (inFrontOf (spacedText.render ++ u32 "]")))
      ((resolvingParser spacedText).resolveExternalSubsetIfNeeded.run externalDeclared) := by
  have valid : ∀ c ∈ spacedText.render, isValidXmlChar c .xml10 = true := by decide
  have named : Name [0x61] := ⟨.inr (.inl (by decide)), nofun⟩
  have small : (utf8 spacedText.render).length ≤ 16 := by decide
  have written : values (inFrontOf (spacedText.render ++ u32 "]")).rest = spacedText.render ++ 0x5D :: [] := by
    decide
  have plain : ∀ body ∈ spacedText.bodies, PlainlySpaced 1048576 body :=
    List.forall_mem_singleton.mpr ⟨[0x20], [0x61], u32 "ANY", rfl, by decide, by decide, named, by simp⟩
  have agree := @subsets_readAlike_iff (resolvingParser spacedText) (resolvingParser spacedText) rfl rfl rfl _ rfl
    spacedText valid (Nat.lt_of_le_of_lt small (by omega)) _ externalDeclared [] written ⟨rfl, rfl⟩ ⟨rfl, rfl⟩ rfl rfl
  exact agree.mpr (.inl ⟨plain, small.trans (by decide +kernel)⟩)

end XmlParser
