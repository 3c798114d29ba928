import XmlParser.TruncatedInput
import XmlParser.Reading

/-! The members that count, call back and keep stacks, on a text and on the
beginning of it. -/

set_option autoImplicit false

namespace XmlParser

open XmlParser.Computation Comp

/-! ## What may be left -/

theorem Stub.misses {text other : List Nat} {rest : List DecodedChar} (stub : Stub text rest)
    (differs : ¬ other <+: text ∨ text.length ≤ other.length) : startsWith other rest = false := by
  cases differs with
  | inl unlike => exact stub.startsWith_eq_false unlike
  | inr long => exact startsWith_eq_false_of_short (Nat.lt_of_lt_of_le stub.short long)

/-- What is left is too short for a start tag: nothing or an exclamation mark
follows an opening bracket. -/
def NoTag (rest : List DecodedChar) : Prop :=
  peek rest = 0x3C → peekAt 1 rest = 0 ∨ peekAt 1 rest = 0x21

theorem Stub.noTag {text : List Nat} {rest : List DecodedChar} (stub : Stub text rest)
    (second : text[1]? = some 0x21 ∨ text.length = 2) : NoTag rest := by
  intro _
  cases second with
  | inl mark =>
      refine (stub.peekAt 1).imp id fun same => ?_
      rw [mark] at same
      exact (Option.some.inj same).symm
  | inr two =>
      have short := stub.short
      have outside : rest[1]? = none := List.getElem?_eq_none (by omega)
      left
      unfold XmlParser.peekAt
      rw [outside]
      rfl

/-- What is left begins nothing that may stand in a prologue, nor an element. -/
structure Dangling (rest : List DecodedChar) : Prop where
  notSpace : isSpace (peek rest) = false
  comment : startsWith (u32 "<!--") rest = false
  instruction : startsWith (u32 "<?") rest = false
  doctype : startsWith (u32 "<!DOCTYPE") rest = false
  noTag : NoTag rest

theorem dangling_end : Dangling [] := by
  refine ⟨rfl, rfl, rfl, rfl, fun bracket => ?_⟩
  cases bracket

theorem Stub.dangling {text : List Nat} {rest : List DecodedChar} (stub : Stub text rest)
    (member : text ∈ [u32 "<!--", u32 "<?", u32 "<!DOCTYPE"]) : Dangling rest := by
  have facts : ∀ text ∈ [u32 "<!--", u32 "<?", u32 "<!DOCTYPE"],
      text[0]? = some 0x3C ∧ (text[1]? = some 0x21 ∨ text.length = 2) ∧
        ∀ other ∈ [u32 "<!--", u32 "<?", u32 "<!DOCTYPE"],
          ¬ other <+: text ∨ text.length ≤ other.length := by decide
  obtain ⟨first, second, differs⟩ := facts text member
  have notSpace : isSpace (peek rest) = false := by
    cases stub.peekAt 0 with
    | inl ended =>
        have same : peek rest = 0 := ended
        rw [same]
        rfl
    | inr bracket =>
        rw [first] at bracket
        have same : peek rest = 0x3C := (Option.some.inj bracket).symm
        rw [same]
        rfl
  exact ⟨notSpace, stub.misses (differs _ (by decide)), stub.misses (differs _ (by decide)),
    stub.misses (differs _ (by decide)), stub.noTag second⟩

/-- The same, or the opening of an XML declaration. -/
def Faltering (rest : List DecodedChar) : Prop := values rest <+: u32 "<?xml" ∨ Dangling rest

/-- What is left begins neither the end of a DOCTYPE nor an internal subset. -/
def Unclosed (rest : List DecodedChar) : Prop := peek rest ≠ 0x3E ∧ peek rest ≠ 0x5B

theorem unclosed_end {rest : List DecodedChar} (ended : rest = []) : Unclosed rest := by
  rw [ended]
  unfold Unclosed
  decide

theorem Stub.unclosed {text : List Nat} {rest : List DecodedChar} (stub : Stub text rest)
    (member : text ∈ [u32 "SYSTEM", u32 "PUBLIC"]) : Unclosed rest := by
  have first : ∀ text ∈ [u32 "SYSTEM", u32 "PUBLIC"], text[0]? ≠ some 0x3E ∧ text[0]? ≠ some 0x5B := by
    decide
  obtain ⟨notClose, notOpen⟩ := first text member
  cases stub.peekAt 0 with
  | inl ended =>
      have same : peek rest = 0 := ended
      unfold Unclosed
      rw [same]
      decide
  | inr begins =>
      constructor
      · intro same
        exact notClose (begins.trans (congrArg some same))
      · intro same
        exact notOpen (begins.trans (congrArg some same))

theorem Stub.peek_emptyTag {rest : List DecodedChar} (stub : Stub (u32 "/>") rest) :
    peek rest = 0 ∨ peek rest = 0x2F :=
  (stub.peekAt 0).imp id fun slash => (Option.some.inj slash).symm

/-- What is left begins no piece of content but text that has come to its end. -/
structure Unopened (rest : List DecodedChar) : Prop where
  comment : startsWith (u32 "<!--") rest = false
  cdata : startsWith (u32 "<![CDATA[") rest = false
  instruction : startsWith (u32 "<?") rest = false
  ended : rest = [] ∨ peek rest = 0x3C
  noTag : NoTag rest

theorem Stub.unopened {text : List Nat} {rest : List DecodedChar} (stub : Stub text rest)
    (member : text ∈ [u32 "</", u32 "<!--", u32 "<![CDATA[", u32 "<?"]) : Unopened rest := by
  have facts : ∀ text ∈ [u32 "</", u32 "<!--", u32 "<![CDATA[", u32 "<?"],
      text[0]? = some 0x3C ∧ (text[1]? = some 0x21 ∨ text.length = 2) ∧
        ∀ other ∈ [u32 "<!--", u32 "<![CDATA[", u32 "<?"],
          ¬ other <+: text ∨ text.length ≤ other.length := by decide
  obtain ⟨first, second, differs⟩ := facts text member
  refine ⟨stub.misses (differs _ (by decide)), stub.misses (differs _ (by decide)),
    stub.misses (differs _ (by decide)), ?_, stub.noTag second⟩
  cases rest with
  | nil => exact .inl rfl
  | cons c rest =>
      obtain ⟨more, same⟩ := stub.begins
      rw [← same] at first
      exact .inr (Option.some.inj first)

/-- Parsing a text, and parsing what is left of it in front of a cut. -/
def cutStates (handler : SaxHandler) (cut : List DecodedChar) : Cutting ParserState Halt where
  Continues whole front := whole = front.withRest (front.rest ++ cut)
  Refuses := CutOff handler

section States

variable {handler : SaxHandler} {cut : List DecodedChar}

theorem states_follow (whole front : ParserState)
    (continues : (cutStates handler cut).Continues whole front) : whole.rest = front.rest ++ cut :=
  congrArg ParserState.rest continues

/-- A condition on what is left of the text. -/
def Facing (condition : List DecodedChar → Prop) (s : ParserState) : Prop := condition s.rest

section Alone

variable {α : Type} {condition : List DecodedChar → Prop} {starved : α → ParserState → Prop}

theorem alone_scan {source : Cursor α} {within : α → List DecodedChar → Prop}
    (alone : Alone (cutText handler cut) condition source within)
    (ends : ∀ value s, within value s.rest → starved value s) :
    Alone (cutStates handler cut) (Facing condition) (scan source) starved :=
  triple_onPart alone (fun _ holds => holds) (fun value _ _ _ holds => ends value _ holds)
    fun _ _ _ _ refuses => refuses

/-- A scanner that fails here. -/
theorem alone_scan_never {source : Cursor α} (alone : Alone (cutText handler cut) condition source Never) :
    Alone (cutStates handler cut) (Facing condition) (scan source) starved :=
  alone_scan alone fun _ _ never => never.elim

/-- A test that fails, as what is left does not begin so. -/
theorem alone_lookElse {text : List Nat} {yes no : ParserM α}
    (misses : ∀ rest, condition rest → startsWith text rest = false)
    (alone : Alone (cutStates handler cut) (Facing condition) no starved) :
    Alone (cutStates handler cut) (Facing condition)
      (look (startsWith text) >>= fun starts => if starts then yes else no) starved := by
  intro s holds
  have differs : startsWith text s.rest = false := misses s.rest holds
  unfold look
  rw [run_read_bind, differs]
  exact alone s holds

/-- At the end the look at the next character is known. -/
theorem alone_lookPeek {rest : Nat → ParserM α}
    (alone : Alone (cutStates handler cut) (Facing (· = [])) (rest 0) starved) :
    Alone (cutStates handler cut) (Facing (· = [])) (look peek >>= rest) starved := by
  intro s ended
  have known : peek s.rest = 0 := by
    have empty : s.rest = [] := ended
    rw [empty]
    rfl
  unfold look
  rw [run_read_bind, known]
  exact alone s ended

theorem alone_lookStarts {text : List Nat} (nonempty : text ≠ []) {rest : Bool → ParserM α}
    (alone : Alone (cutStates handler cut) (Facing (· = [])) (rest false) starved) :
    Alone (cutStates handler cut) (Facing (· = [])) (look (startsWith text) >>= rest) starved := by
  intro s ended
  have known : startsWith text s.rest = false := by
    have empty : s.rest = [] := ended
    rw [empty]
    exact startsWith_eq_false_of_short (List.length_pos_of_ne_nil nonempty)
  unfold look
  rw [run_read_bind, known]
  exact alone s ended

theorem alone_failHere (p : Parser) {pre : ParserState → Prop} (message : String) :
    Alone (cutStates handler cut) pre (p.failHere .wellFormedness message) starved :=
  triple_read_bind fun _ => triple_throw fun _ _ => .failed (.inl rfl)

end Alone

namespace Parser

variable (p : Parser) (cut : List DecodedChar)

abbrev CutsRun {α : Type} (starved : α → ParserState → Prop) (source target : ParserM α) : Prop :=
  Cuts (cutStates p.handler cut) starved source target

variable {p cut}

theorem cuts_scan {α : Type} {condition : List DecodedChar → Prop} {source target : Cursor α}
    (cuts : p.CutsText cut (fun _ => condition) source target) :
    p.CutsRun cut (fun _ => Facing condition) (scan source) (scan target) := by
  refine cuts_onPart cuts states_follow ?_ (fun _ refuses => refuses) fun _ _ _ holds => holds
  intro whole front left right continues continued
  have same : whole = front.withRest (front.rest ++ cut) := continues
  have rest : left = right ++ cut := continued
  rw [same, rest]
  rfl

theorem cuts_scan_never {α : Type} {starved : α → ParserState → Prop} {source target : Cursor α}
    (cuts : p.CutsText cut Never source target) : p.CutsRun cut starved (scan source) (scan target) := by
  have scanned : p.CutsRun cut Never (scan source) (scan target) := cuts_scan cuts
  exact scanned.of_never

section Rules

variable {α : Type} {starved : α → ParserState → Prop}

theorem cuts_lookLocation {left right : SourceLocation → ParserM α}
    (rest : ∀ location, p.CutsRun cut starved (left location) (right location)) :
    p.CutsRun cut starved (look p.location >>= left) (look (p.upTo cut).location >>= right) := by
  refine cuts_read_bind_eq (fun whole front continues => ?_) rest
  rw [states_follow whole front continues, location_append]

theorem cuts_lookPeek {left right : Nat → ParserM α}
    (kept : ∀ value, p.CutsRun cut starved (left value) (right value))
    (alone : Alone (cutStates p.handler cut) (Facing (· = [])) (right 0) starved) :
    p.CutsRun cut starved (look peek >>= left) (look peek >>= right) :=
  cuts_peek states_follow kept alone

theorem cuts_lookEof {left right : Bool → ParserM α}
    (kept : ∀ value, p.CutsRun cut starved (left value) (right value))
    (alone : Alone (cutStates p.handler cut) (Facing (· = [])) (right true) starved) :
    p.CutsRun cut starved (look eof >>= left) (look eof >>= right) :=
  cuts_eof states_follow kept alone

theorem cuts_lookStarts (text : List Nat) {left right : Bool → ParserM α}
    (kept : ∀ value, p.CutsRun cut starved (left value) (right value))
    (alone : Alone (cutStates p.handler cut) (Facing (Stub text)) (right false) starved) :
    p.CutsRun cut starved (look (startsWith text) >>= left) (look (startsWith text) >>= right) :=
  cuts_startsWith states_follow text kept alone

/-- What does not touch the text sees the same in both runs. -/
theorem cuts_readRest {β : Type} {view : ParserState → β} {left right : β → ParserM α}
    (views : ∀ s rest, view (s.withRest rest) = view s)
    (rest : ∀ value, p.CutsRun cut starved (left value) (right value)) :
    p.CutsRun cut starved (Comp.read view >>= left) (Comp.read view >>= right) := by
  refine cuts_read_bind_eq (fun whole front continues => ?_) rest
  have same : whole = front.withRest (front.rest ++ cut) := continues
  rw [same, views]

/-- The state that has been read differs in the text only. -/
theorem cuts_readState {left right : ParserState → ParserM α}
    (rest : ∀ s chars, p.CutsRun cut starved (left (s.withRest chars)) (right s)) :
    p.CutsRun cut starved (Comp.read id >>= left) (Comp.read id >>= right) := by
  intro whole front value final continues returned
  have same : whole = front.withRest (front.rest ++ cut) := continues
  rw [run_read_bind] at returned ⊢
  refine rest front (front.rest ++ cut) whole front value final continues ?_
  rw [← same]
  exact returned

theorem cuts_update {starved : Unit → ParserState → Prop} {update : ParserState → ParserState}
    (commutes : ∀ s rest, update (s.withRest rest) = (update s).withRest rest)
    (keeps : ∀ s, (update s).rest = s.rest) :
    p.CutsRun cut starved (Comp.modify update) (Comp.modify update) := by
  refine cuts_modify fun whole front continues => ?_
  have same : whole = front.withRest (front.rest ++ cut) := continues
  change update whole = (update front).withRest ((update front).rest ++ cut)
  rw [same, commutes, keeps]

theorem cuts_failHere (kind : ErrorKind) (message : String) (target : ParserM α) :
    p.CutsRun cut starved (p.failHere kind message) target := by
  intro whole front value final continues returned
  cases returned

/-- Answer what a callback has said. -/
theorem cuts_answer {starved : Unit → ParserState → Prop} (answer : Option Exception) :
    p.CutsRun cut starved
      (match answer with
        | none => pure ()
        | some exception => Comp.throw (.thrown exception))
      (match answer with
        | none => pure ()
        | some exception => Comp.throw (.thrown exception)) := by
  cases answer with
  | none => exact cuts_pure ()
  | some exception => exact cuts_throw _ _

theorem cuts_emit {starved : Unit → ParserState → Prop} (event : Event) :
    p.CutsRun cut starved (p.emit event) ((p.upTo cut).emit event) := by
  refine cuts_bind_never (cuts_update (fun _ _ => rfl) fun _ => rfl) fun _ => ?_
  exact cuts_readRest (fun _ _ => rfl) cuts_answer

theorem alone_emit (condition : List DecodedChar → Prop) (event : Event) :
    Alone (cutStates p.handler cut) (Facing condition) (p.emit event) (fun _ => Facing condition) := by
  have called : Alone (cutStates p.handler cut) (Facing condition)
      (Comp.modify (ParserState.deliver event)) (fun _ => Facing condition) := triple_modify fun _ holds => holds
  refine triple_bind called fun _ => ?_
  refine triple_read_bind_of_eq fun answer => ?_
  cases answer with
  | none => exact triple_pure fun _ holds => holds.1
  | some exception => exact triple_throw fun s holds => .callback holds.2

theorem cuts_recoverableValidityError {starved : Unit → ParserState → Prop} (location : SourceLocation)
    (message : String) :
    p.CutsRun cut starved (p.recoverableValidityError location message)
      ((p.upTo cut).recoverableValidityError location message) := by
  change p.CutsRun cut starved (p.recoverableValidityError location message)
    (p.recoverableValidityError location message)
  unfold recoverableValidityError
  cases p.options.recoverableErrorHandler with
  | none => exact cuts_throw _ _
  | some handle =>
      refine cuts_bind_never (cuts_update (fun _ _ => rfl) fun _ => rfl) fun _ => ?_
      exact cuts_readRest (fun _ _ => rfl) cuts_answer

/-! ## Items -/

theorem cuts_parseComment : p.CutsRun cut Never p.parseComment (p.upTo cut).parseComment :=
  cuts_bind_never (cuts_scan_never cuts_scanComment) fun _ => cuts_emit _

theorem cuts_parseCdata : p.CutsRun cut Never p.parseCdata (p.upTo cut).parseCdata :=
  cuts_bind_never (cuts_scan_never cuts_scanCdata) fun _ => cuts_emit _

theorem cuts_parseProcessingInstruction :
    p.CutsRun cut Never p.parseProcessingInstruction (p.upTo cut).parseProcessingInstruction :=
  cuts_bind_never (cuts_scan_never cuts_scanProcessingInstruction) fun _ => cuts_emit _

theorem cuts_counting {α : Type} {starved : α → ParserState → Prop} (source : Comp Nat Halt α) :
    p.CutsRun cut starved (counting source) (counting source) := by
  intro whole front value final continues returned
  have same : whole = front.withRest (front.rest ++ cut) := continues
  obtain ⟨count, ran, rfl⟩ := run_onPart_eq_iff.mp returned
  rw [same] at ran ⊢
  have counted : (counting source).run front =
      (.ok value, { front with entityExpansions := count }) := run_onPart_eq_iff.mpr ⟨count, ran, rfl⟩
  rw [counted]
  exact .kept rfl

/-- The expansion of an entity does not ask where the text ends. -/
theorem expandEntityText_upTo (entities : List (Bytes × Bytes)) (start : SourceLocation) (fuel depth : Nat)
    (text : Bytes) :
    (p.upTo cut).expandEntityText entities start fuel depth text =
      p.expandEntityText entities start fuel depth text := by
  induction fuel generalizing depth text with
  | zero => rfl
  | succ fuel ih =>
      have nested : (p.upTo cut).expandEntityText entities start fuel (depth + 1) =
          p.expandEntityText entities start fuel (depth + 1) := funext (ih (depth + 1))
      unfold expandEntityText
      rw [nested]
      rfl

theorem resolveReference_upTo (entities : List (Bytes × Bytes)) (name : Bytes) (start : SourceLocation) :
    (p.upTo cut).resolveReference entities name start = p.resolveReference entities name start := by
  unfold resolveReference
  simp only [expandEntityText_upTo]
  rfl

theorem cuts_parseReference : p.CutsRun cut Never p.parseReference (p.upTo cut).parseReference := by
  refine cuts_lookLocation fun start => cuts_bind_never (cuts_scan_never (cuts_expect _ _)) fun _ => ?_
  refine cuts_bind_never (cuts_counting (p.countExpansion start)) fun _ => ?_
  refine cuts_bind (cuts_scan (cuts_whilePeek _ (cuts_pushPeek start) [])) (fun name => ?_) fun name => ?_
  · refine cuts_bind_never (cuts_scan_never (cuts_expect _ _)) fun _ => ?_
    refine cuts_readRest (fun _ _ => rfl) fun entities => ?_
    rw [resolveReference_upTo]
    exact cuts_counting _
  · exact alone_bind_of_never (alone_scan_never (alone_expect _ _ _))

theorem cuts_takePiece (text : Bytes) :
    p.CutsRun cut Never (p.takePiece text) ((p.upTo cut).takePiece text) := by
  refine cuts_lookPeek (fun next => cuts_ite (fun _ => ?_) fun _ => ?_) ?_
  · exact cuts_bind_never cuts_parseReference fun _ => cuts_pure _
  · exact cuts_scan_never (cuts_takePeek text)
  · exact alone_scan_never (triple_read_bind fun _ => alone_bind_of_never (alone_advance _))

theorem alone_takePiece (q : Parser) (text : Bytes) :
    Alone (cutStates p.handler cut) (Facing (· = [])) (q.takePiece text) Never :=
  alone_lookPeek (alone_scan_never (triple_read_bind fun _ => alone_bind_of_never (alone_advance q)))

/-! ## Misc items -/

theorem skipMiscRound_eq (q : Parser) (current : Unit) : q.skipMiscRound current = (do
    let consumed ← (do
      let before ← look List.length
      scan q.skipWhitespace
      look fun rest => decide (rest.length < before))
    if ← look (startsWith (u32 "<!--")) then
      q.parseComment
      pure (.next ())
    else if ← look (startsWith (u32 "<?")) then
      q.parseProcessingInstruction
      pure (.next ())
    else if consumed then
      pure (.next ())
    else
      pure (.done ())) := by
  unfold skipMiscRound
  simp only [bind_assoc]

/-- Whether white space has been skipped. -/
theorem cuts_skipsSpace :
    p.CutsRun cut (fun _ => Facing (· = []))
      (do
        let before ← look List.length
        scan p.skipWhitespace
        look fun rest => decide (rest.length < before))
      (do
        let before ← look List.length
        scan (p.upTo cut).skipWhitespace
        look fun rest => decide (rest.length < before)) := by
  intro whole front value final continues returned
  obtain ⟨before, _, looked, rest⟩ := bind_eq_ok.mp returned
  cases looked
  obtain ⟨_, next, skipped, last⟩ := bind_eq_ok.mp rest
  cases last
  have lengths := congrArg List.length (states_follow whole front continues)
  have ended := cuts_scan (p.cuts_skipWhitespace) whole front () final continues skipped
  unfold look
  rw [run_read_bind]
  cases ran : (scan (p.upTo cut).skipWhitespace).run front with
  | mk outcome reached =>
      rw [ran] at ended
      cases ended with
      | kept continued =>
          have after := congrArg List.length (states_follow final reached continued)
          rw [run_bind_of_ok ran]
          rw [List.length_append] at lengths after
          have same : decide (final.rest.length < whole.rest.length) =
              decide (reached.rest.length < front.rest.length) := by
            rw [lengths, after, decide_eq_decide]
            omega
          change CutEnds _ _ (decide (final.rest.length < whole.rest.length)) final _
          rw [same]
          exact .kept continued
      | starved ended =>
          rw [run_bind_of_ok ran]
          exact .starved ended
      | refused refuses =>
          rw [run_bind_of_error ran]
          exact .refused refuses

/-- Where no item begins, one round changes nothing. -/
theorem alone_noMisc {q : Parser} (consumed : Bool) {condition : List DecodedChar → Prop}
    (begins : ∀ rest, condition rest → Dangling rest) :
    Alone (cutStates p.handler cut) (Facing condition)
      (look (startsWith (u32 "<?")) >>= fun starts =>
        if starts then q.parseProcessingInstruction >>= fun _ => pure (.next ())
        else if consumed then pure (.next ()) else pure (.done ()))
      (RoundPost (fun _ => Facing Dangling) (fun _ => Facing Dangling)) := by
  refine alone_lookElse (fun rest holds => (begins rest holds).instruction) ?_
  exact triple_ite (fun _ => triple_pure fun _ holds => begins _ holds) fun _ =>
    triple_pure fun _ holds => begins _ holds

theorem cuts_skipMiscRound (current : Unit) :
    p.CutsRun cut (RoundPost (fun _ => Facing Dangling) (fun _ => Facing Dangling)) (p.skipMiscRound current)
      ((p.upTo cut).skipMiscRound current) := by
  rw [skipMiscRound_eq, skipMiscRound_eq]
  refine cuts_bind cuts_skipsSpace (fun consumed => ?_) fun consumed => ?_
  · refine cuts_lookStarts _ (fun comment => cuts_ite (fun _ => ?_) fun _ => ?_) ?_
    · exact cuts_bind_never cuts_parseComment fun _ => cuts_pure _
    · refine cuts_lookStarts _ (fun instruction => cuts_ite (fun _ => ?_) fun _ => ?_) ?_
      · exact cuts_bind_never cuts_parseProcessingInstruction fun _ => cuts_pure _
      · exact cuts_ite (fun _ => cuts_pure _) fun _ => cuts_pure _
      · have begins : ∀ rest, Stub (u32 "<?") rest → Dangling rest := fun _ stub => stub.dangling (by decide)
        refine triple_ite (fun isTrue => absurd isTrue Bool.false_ne_true) fun _ => ?_
        exact triple_ite (fun _ => triple_pure fun _ stub => begins _ stub) fun _ =>
          triple_pure fun _ stub => begins _ stub
    · exact alone_noMisc consumed fun _ stub => stub.dangling (by decide)
  · refine alone_lookElse (fun rest ended => ?_) (alone_noMisc consumed fun rest ended => ?_)
    · rw [ended]
      rfl
    · rw [ended]
      exact dangling_end

theorem alone_skipsSpace (q : Parser) {condition : List DecodedChar → Prop}
    (still : ∀ rest, condition rest → isSpace (peek rest) = false) :
    Alone (cutStates p.handler cut) (Facing condition)
      (do
        let before ← look List.length
        scan q.skipWhitespace
        look fun rest => decide (rest.length < before))
      (fun _ => Facing condition) := by
  have stays : Alone (cutStates p.handler cut) (Facing condition) (scan q.skipWhitespace) fun _ => Facing condition := by
    refine alone_scan ?_ fun _ _ holds => holds
    intro rest holds
    have stops : StopsAt isSpace rest := by
      intro c front
      obtain ⟨more, rfl⟩ := List.head?_eq_some_iff.mp front
      exact still _ holds
    have ran : q.skipWhitespace.run rest = (.ok (), rest) :=
      q.skipWhitespace_eq_ok_iff.mpr ⟨[], rfl, List.forall_mem_nil _, stops⟩
    rw [ran]
    constructor
    · intro value final returned
      cases returned
      exact holds
    · intro error final threw
      cases threw
  exact triple_read_bind fun before => triple_bind stays fun _ => triple_read fun _ holds => holds

theorem Faltering.cases {rest : List DecodedChar} (falters : Faltering rest) :
    startsWith (u32 "<?") rest = true ∧ values rest <+: u32 "<?xml" ∨ Dangling rest := by
  cases falters with
  | inr dangles => exact .inr dangles
  | inl begins =>
      cases starts : startsWith (u32 "<?") rest with
      | true => exact .inl ⟨rfl, begins⟩
      | false =>
          have differs := startsWith_eq_false_iff.mp starts
          have whole : u32 "<?" <+: u32 "<?xml" := by decide
          have isStub : values rest <+: u32 "<?" :=
            (List.prefix_or_prefix_of_prefix whole begins).resolve_left differs
          have short : rest.length < (u32 "<?").length := by
            rw [← values_length]
            refine Nat.lt_of_le_of_ne isStub.length_le fun same => differs ?_
            have all : values rest = u32 "<?" := isStub.eq_of_length same
            exact ⟨[], (List.append_nil _).trans all.symm⟩
          have stub : Stub (u32 "<?") rest := ⟨isStub, short⟩
          exact .inr (stub.dangling (by decide))

theorem Faltering.comment {rest : List DecodedChar} (falters : Faltering rest) :
    startsWith (u32 "<!--") rest = false := by
  cases falters with
  | inr dangles => exact dangles.comment
  | inl begins =>
      refine startsWith_eq_false_iff.mpr fun starts => ?_
      have whole : u32 "<!--" <+: u32 "<?xml" := starts.trans begins
      revert whole
      decide

theorem Faltering.notSpace {rest : List DecodedChar} (falters : Faltering rest) :
    isSpace (peek rest) = false := by
  cases falters with
  | inr dangles => exact dangles.notSpace
  | inl begins =>
      cases rest with
      | nil => rfl
      | cons c rest =>
          obtain ⟨more, same⟩ := begins
          have first : c.value = 0x3C := (List.cons.inj same).1
          change isSpace c.value = false
          rw [first]
          rfl

theorem alone_skipMiscRound (q : Parser) (current : Unit) :
    Alone (cutStates p.handler cut) (Facing Faltering) (q.skipMiscRound current)
      (RoundPost (fun _ => Facing Dangling) (fun _ => Facing Dangling)) := by
  rw [skipMiscRound_eq]
  refine triple_bind (alone_skipsSpace q fun _ => Faltering.notSpace) fun consumed => ?_
  refine alone_lookElse (fun _ => Faltering.comment) ?_
  refine triple_read_bind_of_eq fun starts => triple_ite (fun isTrue => ?_) fun isFalse => ?_
  · have fails : Alone (cutStates p.handler cut) (Facing fun rest => values rest <+: u32 "<?xml")
        (scan q.scanProcessingInstruction) Never := alone_scan_never q.alone_cutDeclaration
    refine alone_bind_of_never (alone_bind_of_never (fails.imp (fun s holds => ?_) (fun _ _ never => never)
      fun _ _ refuses => refuses))
    cases Faltering.cases holds.1 with
    | inl opening => exact opening.2
    | inr dangles =>
        have same : startsWith (u32 "<?") s.rest = starts := holds.2
        rw [dangles.instruction, isTrue] at same
        cases same
  · have dangling : ∀ s, Facing Faltering s ∧ startsWith (u32 "<?") s.rest = starts → Facing Dangling s := by
      intro s holds
      cases Faltering.cases holds.1 with
      | inl opening => exact absurd (holds.2.symm.trans opening.1) isFalse
      | inr dangles => exact dangles
    exact triple_ite (fun _ => triple_pure dangling) fun _ => triple_pure dangling

theorem alone_skipMisc (q : Parser) :
    Alone (cutStates p.handler cut) (Facing Faltering) q.skipMisc (fun _ => Facing Dangling) := by
  refine triple_loop (fun _ => Facing Faltering) (fun current => ?_) (fun _ _ _ => refuses_outOfFuel) ()
  refine (alone_skipMiscRound q current).imp (fun _ holds => holds) (fun step s holds => ?_) fun _ _ refuses =>
    refuses
  cases step with
  | next following => exact .inr holds
  | done result => exact holds

theorem cuts_skipMisc : p.CutsRun cut (fun _ => Facing Dangling) p.skipMisc (p.upTo cut).skipMisc := by
  refine cuts_loop (fun _ => Facing Dangling) cuts_skipMiscRound (fun current => ?_) refuses_outOfFuel ()
  exact (alone_skipMiscRound _ current).imp (fun _ dangles => .inr dangles) (fun _ _ holds => holds)
    fun _ _ refuses => refuses

/-! ## The document type declaration -/

theorem cuts_modifyDtd {starved : Unit → ParserState → Prop} (update : DtdState → DtdState) :
    p.CutsRun cut starved (modifyDtd update) (modifyDtd update) :=
  cuts_update (fun _ _ => rfl) fun _ => rfl

theorem alone_modifyDtd (condition : List DecodedChar → Prop) (update : DtdState → DtdState) :
    Alone (cutStates p.handler cut) (Facing condition) (modifyDtd update) fun _ => Facing condition :=
  triple_modify fun _ holds => holds

theorem cuts_enforceDtdDeclarationLimit {starved : Unit → ParserState → Prop} :
    p.CutsRun cut starved p.enforceDtdDeclarationLimit (p.upTo cut).enforceDtdDeclarationLimit := by
  refine cuts_bind_never (cuts_modifyDtd _) fun _ => cuts_readRest (fun _ _ => rfl) fun count => ?_
  exact cuts_ite (fun _ => cuts_failHere _ _ _) fun _ => cuts_pure _

theorem cuts_parseElementModel {starved : ElementDeclaration → ParserState → Prop} (model : Bytes)
    (location : SourceLocation) :
    p.CutsRun cut starved (parseElementModel model location) (parseElementModel model location) := by
  refine cuts_ite (fun _ => cuts_pure _) fun _ => cuts_ite (fun _ => cuts_pure _) fun _ => ?_
  refine cuts_ite (fun _ => cuts_pure _) fun _ => ?_
  exact cuts_ite (fun _ => cuts_pure _) fun _ => cuts_throw _ _

theorem cuts_declareElement {starved : Unit → ParserState → Prop} (name model : Bytes)
    (location : SourceLocation) :
    p.CutsRun cut starved (declareElement name model location) (declareElement name model location) := by
  refine cuts_readRest (fun _ _ => rfl) fun known => cuts_ite (fun _ => cuts_throw _ _) fun _ => ?_
  exact cuts_bind_never (cuts_parseElementModel model location) fun declaration => cuts_modifyDtd _

theorem cuts_parseElementDeclaration :
    p.CutsRun cut Never p.parseElementDeclaration (p.upTo cut).parseElementDeclaration := by
  refine cuts_lookLocation fun start => cuts_bind_never cuts_enforceDtdDeclarationLimit fun _ => ?_
  refine cuts_bind_never (cuts_scan_never (cuts_expectSequence _ _)) fun _ => ?_
  refine cuts_lookPeek (fun next => cuts_ite (fun _ => cuts_failHere _ _ _) fun _ => ?_) (alone_failHere _ _)
  refine cuts_bind (cuts_scan cuts_skipWhitespace) (fun _ => ?_) fun _ =>
    alone_bind_of_never (alone_scan_never (alone_parseName _))
  have unnamed : Alone (cutStates p.handler cut) (Facing (· = []))
      (scan (whilePeek (· != 0x3E) (p.upTo cut).takePeek [])) fun _ => Facing (· = []) :=
    alone_scan (alone_whilePeek _ _ _) fun _ _ ended => ended
  have unclosed : ∀ model name, Alone (cutStates p.handler cut) (Facing (· = []))
      (scan ((p.upTo cut).expect 0x3E "ELEMENT declaration close") >>= fun _ =>
        declareElement name model start) Never :=
    fun model name => alone_bind_of_never (alone_scan_never (alone_expect _ _ _))
  refine cuts_bind (cuts_scan cuts_parseName) (fun name => ?_) fun name => ?_
  · refine cuts_bind (cuts_scan cuts_skipWhitespace) (fun _ => ?_) fun _ =>
      triple_bind unnamed fun model => unclosed model name
    refine cuts_bind (cuts_scan (cuts_whilePeek _ cuts_takePeek [])) (fun model => ?_) fun model =>
      unclosed model name
    exact cuts_bind_never (cuts_scan_never (cuts_expect _ _)) fun _ => cuts_declareElement name model start
  · have skipped : Alone (cutStates p.handler cut) (Facing (· = [])) (scan (p.upTo cut).skipWhitespace)
        fun _ => Facing (· = []) := alone_scan (alone_skipWhitespace _) fun _ _ ended => ended
    exact triple_bind skipped fun _ => triple_bind unnamed fun model => unclosed model name

theorem cuts_parseEntityDeclaration :
    p.CutsRun cut Never p.parseEntityDeclaration (p.upTo cut).parseEntityDeclaration := by
  have skipped : Alone (cutStates p.handler cut) (Facing (· = [])) (scan (p.upTo cut).skipWhitespace)
      fun _ => Facing (· = []) := alone_scan (alone_skipWhitespace _) fun _ _ ended => ended
  refine cuts_lookLocation fun start => cuts_bind_never cuts_enforceDtdDeclarationLimit fun _ => ?_
  refine cuts_bind_never (cuts_scan_never (cuts_expectSequence _ _)) fun _ => ?_
  refine cuts_lookPeek (fun next => cuts_ite (fun _ => cuts_failHere _ _ _) fun _ => ?_) (alone_failHere _ _)
  refine cuts_bind (cuts_scan cuts_skipWhitespace) (fun _ => ?_) fun _ => ?_
  · refine cuts_lookPeek (fun next => cuts_ite (fun _ => cuts_failHere _ _ _) fun _ => ?_) ?_
    · refine cuts_bind (cuts_scan cuts_parseName) (fun name => ?_) fun name =>
        triple_bind skipped fun _ => alone_bind_of_never (alone_scan_never (alone_parseQuotedLiteral _))
      refine cuts_bind (cuts_scan cuts_skipWhitespace) (fun _ => ?_) fun _ =>
        alone_bind_of_never (alone_scan_never (alone_parseQuotedLiteral _))
      refine cuts_bind_never (cuts_scan_never cuts_parseQuotedLiteral) fun replacement => ?_
      refine cuts_ite (fun _ => cuts_throw _ _) fun _ => ?_
      refine cuts_bind (cuts_scan cuts_skipWhitespace) (fun _ => ?_) fun _ =>
        alone_bind_of_never (alone_scan_never (alone_expect _ _ _))
      refine cuts_bind_never (cuts_scan_never (cuts_expect _ _)) fun _ => ?_
      refine cuts_readRest (fun _ _ => rfl) fun known => cuts_ite (fun _ => cuts_throw _ _) fun _ => ?_
      exact cuts_modifyDtd _
    · exact alone_bind_of_never (alone_scan_never (alone_parseName _))
  · refine triple_read_bind fun next => triple_ite (fun _ => alone_failHere _ _) fun _ => ?_
    exact alone_bind_of_never (alone_scan_never (alone_parseName _))

/-- Where no declaration begins, the subset is refused. -/
theorem cuts_internalSubsetRound (current : Unit) :
    p.CutsRun cut Never (p.internalSubsetRound current) ((p.upTo cut).internalSubsetRound current) := by
  have refused : ∀ condition : List DecodedChar → Prop, Alone (cutStates p.handler cut) (Facing condition)
      ((p.upTo cut).failHere .wellFormedness "unsupported DTD declaration" :
        ParserM (LoopStep Unit Unit)) Never := fun condition => alone_failHere _ _
  have differs : ∀ text ∈ [u32 "<!--", u32 "<!ELEMENT", u32 "<!ENTITY"],
      ∀ other ∈ [u32 "<!ELEMENT", u32 "<!ENTITY"], ¬ other <+: text ∨ text.length ≤ other.length := by
    decide
  have undeclared : ∀ comment element entity : ParserM (LoopStep Unit Unit),
      Alone (cutStates p.handler cut) (Facing (· = []))
        (look (startsWith (u32 "<!--")) >>= fun starts => if starts then comment
          else look (startsWith (u32 "<!ELEMENT")) >>= fun starts => if starts then element
          else look (startsWith (u32 "<!ENTITY")) >>= fun starts => if starts then entity
          else (p.upTo cut).failHere .wellFormedness "unsupported DTD declaration") Never := by
    intro comment element entity
    refine alone_lookElse (fun _ ended => ended ▸ rfl) (alone_lookElse (fun _ ended => ended ▸ rfl) ?_)
    exact alone_lookElse (fun _ ended => ended ▸ rfl) (refused _)
  refine cuts_lookEof (fun atEnd => cuts_ite (fun _ => cuts_failHere _ _ _) fun _ => ?_) (alone_failHere _ _)
  refine cuts_bind (cuts_scan cuts_skipWhitespace) (fun _ => ?_) fun _ => ?_
  · refine cuts_lookPeek (fun next => cuts_ite (fun _ => cuts_pure _) fun _ => ?_) ?_
    · refine cuts_lookStarts _ (fun comment => cuts_ite (fun _ => ?_) fun _ => ?_) ?_
      · exact cuts_bind_never (cuts_scan_never cuts_scanComment) fun _ => cuts_pure _
      · refine cuts_lookStarts _ (fun element => cuts_ite (fun _ => ?_) fun _ => ?_) ?_
        · exact cuts_bind_never cuts_parseElementDeclaration fun _ => cuts_pure _
        · refine cuts_lookStarts _ (fun entity => cuts_ite (fun _ => ?_) fun _ => ?_) (refused _)
          · exact cuts_bind_never cuts_parseEntityDeclaration fun _ => cuts_pure _
          · exact cuts_failHere _ _ _
        · exact alone_lookElse (fun _ stub => stub.misses (differs _ (by decide) _ (by decide))) (refused _)
      · refine alone_lookElse (fun _ stub => stub.misses (differs _ (by decide) _ (by decide))) ?_
        exact alone_lookElse (fun _ stub => stub.misses (differs _ (by decide) _ (by decide))) (refused _)
    · exact undeclared _ _ _
  · exact alone_lookPeek (undeclared _ _ _)

theorem cuts_parseInternalSubset :
    p.CutsRun cut Never p.parseInternalSubset (p.upTo cut).parseInternalSubset :=
  cuts_loop_never cuts_internalSubsetRound refuses_outOfFuel ()

/-- A keyword that is skipped where it is found. -/
theorem cuts_keyword {text : List Nat} {size : Nat} (length : text.length = size)
    {left right other alternative : ParserM α} (after : p.CutsRun cut starved left right)
    (otherwise : p.CutsRun cut starved other alternative)
    (alone : Alone (cutStates p.handler cut) (Facing (Stub text)) alternative starved) :
    p.CutsRun cut starved
      (look (startsWith text) >>= fun starts =>
        if starts then scan (Comp.modify (List.drop size)) >>= fun _ => left else other)
      (look (startsWith text) >>= fun starts =>
        if starts then scan (Comp.modify (List.drop size)) >>= fun _ => right else alternative) := by
  intro whole front value final continues returned
  have same : whole = front.withRest (front.rest ++ cut) := continues
  cases starts : startsWith text front.rest with
  | true =>
      have begins := startsWith_iff.mp starts
      have long := begins.length_le
      rw [values_length, length] at long
      have onWhole : startsWith text whole.rest = true := by
        rw [same]
        refine startsWith_iff.mpr ?_
        change text <+: values (front.rest ++ cut)
        rw [values_append]
        exact begins.trans (List.prefix_append _ _)
      unfold look at returned ⊢
      rw [run_read_bind, onWhole] at returned
      rw [run_read_bind, starts]
      refine after _ _ value final ?_ returned
      change whole.withRest (whole.rest.drop size) = (front.withRest (front.rest.drop size)).withRest _
      rw [same]
      change front.withRest ((front.rest ++ cut).drop size) = front.withRest (front.rest.drop size ++ cut)
      rw [List.drop_append_of_le_length long]
  | false =>
      cases startsWith_or_stub text front.rest cut with
      | inl alike =>
          have onWhole : startsWith text whole.rest = false := by
            rw [same]
            exact alike.trans starts
          unfold look at returned ⊢
          rw [run_read_bind, onWhole] at returned
          rw [run_read_bind, starts]
          exact otherwise whole front value final continues returned
      | inr stub =>
          unfold look
          rw [run_read_bind, starts]
          obtain ⟨returns, throws⟩ := alone front stub
          change CutEnds _ _ _ _ (alternative.run front)
          cases ran : alternative.run front with
          | mk outcome last =>
              cases outcome with
              | ok result => exact .starved (returns result last ran)
              | error error => exact .refused (throws error last ran)

theorem cuts_spaceBehind :
    p.CutsRun cut (fun _ => Facing Unclosed) (scan p.skipWhitespace) (scan (p.upTo cut).skipWhitespace) :=
  (cuts_scan cuts_skipWhitespace).imp fun _ _ ended => unclosed_end ended

theorem cuts_parseExternalId :
    p.CutsRun cut (fun _ => Facing Unclosed) p.parseExternalId (p.upTo cut).parseExternalId := by
  have literal : ∀ {β : Type} (rest : Bytes → ParserM β) (starved : β → ParserState → Prop),
      Alone (cutStates p.handler cut) (Facing (· = []))
        (scan (p.upTo cut).parseQuotedLiteral >>= rest) starved :=
    fun rest starved => alone_bind_of_never (alone_scan_never (alone_parseQuotedLiteral _))
  refine cuts_keyword rfl ?_ (cuts_keyword rfl ?_ (cuts_pure ()) ?_) ?_
  · refine cuts_bind (cuts_scan cuts_skipWhitespace) (fun _ => ?_) fun _ => literal _ _
    refine cuts_bind_never (cuts_scan_never cuts_parseQuotedLiteral) fun systemId => ?_
    exact cuts_bind_never (cuts_modifyDtd _) fun _ => cuts_spaceBehind
  · refine cuts_bind (cuts_scan cuts_skipWhitespace) (fun _ => ?_) fun _ => literal _ _
    refine cuts_bind_never (cuts_scan_never cuts_parseQuotedLiteral) fun _ => ?_
    refine cuts_bind (cuts_scan cuts_skipWhitespace) (fun _ => ?_) fun _ => literal _ _
    refine cuts_bind_never (cuts_scan_never cuts_parseQuotedLiteral) fun systemId => ?_
    exact cuts_bind_never (cuts_modifyDtd _) fun _ => cuts_spaceBehind
  · exact triple_pure fun _ stub => stub.unclosed (by decide)
  · refine alone_lookElse (fun _ stub => stub.misses (.inl (by decide))) ?_
    exact triple_pure fun _ stub => stub.unclosed (by decide)

theorem alone_parseExternalId (q : Parser) :
    Alone (cutStates p.handler cut) (Facing (· = [])) q.parseExternalId fun _ => Facing Unclosed := by
  refine alone_lookElse (fun _ ended => ended ▸ rfl) (alone_lookElse (fun _ ended => ended ▸ rfl) ?_)
  exact triple_pure fun _ ended => unclosed_end ended

theorem cuts_parseBracketedSubset :
    p.CutsRun cut (fun _ => Facing Unclosed) p.parseBracketedSubset (p.upTo cut).parseBracketedSubset := by
  refine cuts_lookPeek (fun next => cuts_ite (fun _ => ?_) fun _ => cuts_pure _) ?_
  · refine cuts_bind_never (cuts_scan_never cuts_advance) fun _ => ?_
    refine cuts_bind_never cuts_parseInternalSubset fun _ => ?_
    exact cuts_bind_never (cuts_scan_never (cuts_expect _ _)) fun _ => cuts_spaceBehind
  · exact triple_pure fun _ ended => unclosed_end ended

theorem alone_parseBracketedSubset (q : Parser) :
    Alone (cutStates p.handler cut) (Facing Unclosed) q.parseBracketedSubset fun _ => Facing Unclosed := by
  refine triple_read_bind_of_eq fun next => triple_ite (fun isOpen => ?_) fun _ => triple_pure fun _ holds => holds.1
  rintro s ⟨unclosed, same⟩
  have bracket : peek s.rest = 0x5B := same.trans (by simpa using isOpen)
  exact absurd bracket unclosed.2

theorem alone_close (q : Parser) {starved : Unit → ParserState → Prop} :
    Alone (cutStates p.handler cut) (Facing Unclosed) (scan (q.expect 0x3E "DOCTYPE close")) starved :=
  alone_scan_never (alone_expectOther q (fun _ unclosed => unclosed.1) _)

theorem cuts_parseExternalElementDeclaration (declaration : Bytes) :
    p.CutsRun cut Never (p.parseExternalElementDeclaration declaration)
      ((p.upTo cut).parseExternalElementDeclaration declaration) := by
  refine cuts_bind_never cuts_enforceDtdDeclarationLimit fun _ => ?_
  refine cuts_ite (fun _ => cuts_failHere _ _ _) fun _ => ?_
  exact cuts_lookLocation fun location => cuts_declareElement _ _ location

theorem cuts_externalSubsetRound (subset : Bytes) :
    p.CutsRun cut Never (p.externalSubsetRound subset) ((p.upTo cut).externalSubsetRound subset) := by
  refine cuts_ite (fun _ => cuts_pure _) fun _ => cuts_ite (fun _ => ?_) fun _ => cuts_failHere _ _ _
  refine cuts_ite (fun _ => cuts_failHere _ _ _) fun _ => ?_
  exact cuts_bind_never (cuts_parseExternalElementDeclaration _) fun _ => cuts_pure _

theorem cuts_resolveExternalSubsetIfNeeded :
    p.CutsRun cut Never p.resolveExternalSubsetIfNeeded (p.upTo cut).resolveExternalSubsetIfNeeded := by
  refine cuts_readRest (fun _ _ => rfl) fun dtd => cuts_ite (fun _ => cuts_pure _) fun _ => ?_
  have options : (p.upTo cut).options = p.options := rfl
  rw [options]
  cases p.options.allowExternalDtd with
  | false => exact cuts_failHere _ _ _
  | true =>
      cases p.options.externalDtdResolver with
      | none => exact cuts_failHere _ _ _
      | some resolve =>
          dsimp only
          cases resolve dtd.externalSystemId with
          | error exception => exact cuts_throw _ _
          | ok subset =>
              refine cuts_ite (fun _ => cuts_failHere _ _ _) fun _ => ?_
              exact cuts_loop_never cuts_externalSubsetRound refuses_outOfFuel subset

theorem cuts_parseDoctypeIfPresent :
    p.CutsRun cut (fun _ => Facing Dangling) p.parseDoctypeIfPresent (p.upTo cut).parseDoctypeIfPresent := by
  have unclosed : Alone (cutStates p.handler cut) (Facing Unclosed)
      ((p.upTo cut).parseBracketedSubset >>= fun _ => scan ((p.upTo cut).expect 0x3E "DOCTYPE close") >>= fun _ =>
        (p.upTo cut).resolveExternalSubsetIfNeeded) fun _ => Facing Dangling :=
    triple_bind (alone_parseBracketedSubset _) fun _ => alone_bind_of_never (alone_close _)
  have named := fun _ : Unit => triple_bind (alone_parseExternalId (p.upTo cut)) fun _ => unclosed
  refine cuts_lookStarts _ (fun starts => cuts_ite (fun _ => cuts_pure _) fun _ => ?_) ?_
  · refine cuts_bind_never (cuts_modifyDtd _) fun _ => ?_
    refine cuts_bind_never (cuts_scan_never (cuts_expectSequence _ _)) fun _ => ?_
    refine cuts_lookPeek (fun next => cuts_ite (fun _ => cuts_failHere _ _ _) fun _ => ?_) (alone_failHere _ _)
    refine cuts_bind (cuts_scan cuts_skipWhitespace) (fun _ => ?_) fun _ =>
      alone_bind_of_never (alone_scan_never (alone_parseName _))
    refine cuts_bind (cuts_scan cuts_parseName) (fun rootName => ?_) fun rootName => ?_
    · refine cuts_bind_never (cuts_modifyDtd _) fun _ => ?_
      refine cuts_bind (cuts_scan cuts_skipWhitespace) (fun _ => ?_) named
      refine cuts_bind cuts_parseExternalId (fun _ => ?_) fun _ => unclosed
      refine cuts_bind cuts_parseBracketedSubset (fun _ => ?_) fun _ => alone_bind_of_never (alone_close _)
      refine cuts_bind_never (cuts_scan_never (cuts_expect _ _)) fun _ => ?_
      exact cuts_resolveExternalSubsetIfNeeded.of_never
    · refine triple_bind (alone_modifyDtd _ _) fun _ => ?_
      exact triple_bind (alone_scan (alone_skipWhitespace _) fun _ _ ended => ended) named
  · exact triple_pure fun _ stub => stub.dangling (by decide)

theorem alone_parseDoctypeIfPresent (q : Parser) :
    Alone (cutStates p.handler cut) (Facing Dangling) q.parseDoctypeIfPresent fun _ => Facing Dangling := by
  intro s dangles
  have misses : startsWith (u32 "<!DOCTYPE") s.rest = false := Dangling.doctype dangles
  unfold parseDoctypeIfPresent look
  rw [run_read_bind, misses]
  exact triple_pure (fun _ holds => holds) s dangles

end Rules

end Parser

end States

end XmlParser
