import XmlParser.CursorProperties
import XmlParser.Progress
import XmlParser.Library.Cutting

/-! Two parsers, one on a text and one on the beginning of it: as long as the text
lasts both do the same, and behind its end the second one fails. -/

set_option autoImplicit false

namespace XmlParser

open XmlParser.Computation Comp

/-- With what a parser may fail where its text has been cut off: the handler may
throw when the text in front of the cut is delivered to it. -/
inductive CutOff (handler : SaxHandler) : Halt → Prop where
  | failed {error : XmlParseException}
      (kind : error.kind = .wellFormedness ∨ error.kind = .resourceLimit) :
      CutOff handler (.thrown (.xmlParse error))
  | callback {history : List Event} {exception : Exception}
      (threw : handler.respond history = some exception) : CutOff handler (.thrown exception)
  | broken {halt : Halt} (notThrown : ¬ halt.IsThrown) : CutOff handler halt

/-- The parser of a text that is cut off in front of these characters. -/
def Parser.upTo (p : Parser) (cut : List DecodedChar) : Parser :=
  { p with endLocation := p.location cut }

theorem Parser.location_append (p : Parser) (front cut : List DecodedChar) :
    p.location (front ++ cut) = (p.upTo cut).location front := by
  cases front with
  | nil => rfl
  | cons c front => rfl

/-! ## Tests at a cut -/

/-- Less than all of a text is left. -/
structure Stub (text : List Nat) (rest : List DecodedChar) : Prop where
  begins : values rest <+: text
  short : rest.length < text.length

theorem startsWith_eq_false_of_short {text : List Nat} {rest : List DecodedChar}
    (short : rest.length < text.length) : startsWith text rest = false := by
  refine startsWith_eq_false_iff.mpr fun begins => ?_
  have long := begins.length_le
  rw [values_length] at long
  exact absurd short (Nat.not_lt.mpr long)

theorem Stub.startsWith_eq_false {text other : List Nat} {rest : List DecodedChar} (stub : Stub text rest)
    (differs : ¬ other <+: text) : startsWith other rest = false :=
  startsWith_eq_false_iff.mpr fun begins => differs (begins.trans stub.begins)

theorem Stub.peekAt {text : List Nat} {rest : List DecodedChar} (stub : Stub text rest) (lookahead : Nat) :
    peekAt lookahead rest = 0 ∨ text[lookahead]? = some (peekAt lookahead rest) := by
  unfold XmlParser.peekAt
  cases here : rest[lookahead]? with
  | none => exact .inl rfl
  | some c =>
      have same : (values rest)[lookahead]? = some c.value := by
        unfold values
        rw [List.getElem?_map, here]
        rfl
      obtain ⟨more, rfl⟩ := stub.begins
      obtain ⟨bound, _⟩ := List.getElem?_eq_some_iff.mp same
      exact .inr ((List.getElem?_append_left bound).trans same)

theorem startsWith_or_stub (text : List Nat) (front cut : List DecodedChar) :
    startsWith text (front ++ cut) = startsWith text front ∨ Stub text front := by
  cases onFront : startsWith text front with
  | true =>
      have begins := startsWith_iff.mp onFront
      refine .inl (startsWith_iff.mpr ?_)
      rw [values_append]
      exact begins.trans (List.prefix_append _ _)
  | false =>
      cases onWhole : startsWith text (front ++ cut) with
      | false => exact .inl rfl
      | true =>
          have begins := startsWith_iff.mp onWhole
          have differs := startsWith_eq_false_iff.mp onFront
          rw [values_append] at begins
          have isStub : values front <+: text :=
            (List.prefix_or_prefix_of_prefix begins (List.prefix_append _ _)).resolve_left differs
          refine .inr ⟨isStub, ?_⟩
          rw [← values_length]
          refine Nat.lt_of_le_of_ne isStub.length_le fun same => differs ?_
          have whole : values front = text := isStub.eq_of_length same
          exact ⟨[], (List.append_nil _).trans whole.symm⟩

theorem peek_or_end (front cut : List DecodedChar) : peek (front ++ cut) = peek front ∨ front = [] := by
  cases front with
  | nil => exact .inr rfl
  | cons c front => exact .inl rfl

theorem eof_or_end (front cut : List DecodedChar) : eof (front ++ cut) = eof front ∨ front = [] := by
  cases front with
  | nil => exact .inr rfl
  | cons c front => exact .inl rfl

section Tests

variable {σ α : Type} {cutting : Cutting σ Halt} {position : σ → List DecodedChar}
  {cut : List DecodedChar} {starved : α → σ → Prop}
  (follows : ∀ whole front, cutting.Continues whole front → position whole = position front ++ cut)

include follows

theorem cuts_peek {left right : Nat → Comp σ Halt α}
    (kept : ∀ value, Cuts cutting starved (left value) (right value))
    (alone : Alone cutting (fun front => position front = []) (right 0) starved) :
    Cuts cutting starved (Comp.read (fun s => peek (position s)) >>= left)
      (Comp.read (fun s => peek (position s)) >>= right) := by
  refine cuts_read_bind (fun front => position front = []) (fun whole front continues => ?_) kept ?_
  · rw [follows whole front continues]
    exact peek_or_end _ cut
  · rintro value front ⟨ended, rfl⟩
    rw [ended]
    exact alone front ended

theorem cuts_eof {left right : Bool → Comp σ Halt α}
    (kept : ∀ value, Cuts cutting starved (left value) (right value))
    (alone : Alone cutting (fun front => position front = []) (right true) starved) :
    Cuts cutting starved (Comp.read (fun s => eof (position s)) >>= left)
      (Comp.read (fun s => eof (position s)) >>= right) := by
  refine cuts_read_bind (fun front => position front = []) (fun whole front continues => ?_) kept ?_
  · rw [follows whole front continues]
    exact eof_or_end _ cut
  · rintro value front ⟨ended, rfl⟩
    rw [ended]
    exact alone front ended

theorem cuts_startsWith (text : List Nat) {left right : Bool → Comp σ Halt α}
    (kept : ∀ value, Cuts cutting starved (left value) (right value))
    (alone : Alone cutting (fun front => Stub text (position front)) (right false) starved) :
    Cuts cutting starved (Comp.read (fun s => startsWith text (position s)) >>= left)
      (Comp.read (fun s => startsWith text (position s)) >>= right) := by
  refine cuts_read_bind (fun front => Stub text (position front)) (fun whole front continues => ?_) kept ?_
  · rw [follows whole front continues]
    exact startsWith_or_stub text _ cut
  · rintro value front ⟨stub, rfl⟩
    rw [startsWith_eq_false_of_short stub.short]
    exact alone front stub

end Tests

/-! ## Scanning -/

/-- Scanning a text, and scanning what is left of it in front of a cut. -/
def cutText (handler : SaxHandler) (cut : List DecodedChar) : Cutting (List DecodedChar) Halt where
  Continues whole front := whole = front ++ cut
  Refuses := CutOff handler

/-- The scanner has come to the end. -/
def AtEnd {α : Type} : α → List DecodedChar → Prop := fun _ rest => rest = []

section Scanning

variable {handler : SaxHandler} {cut : List DecodedChar}

theorem text_follows (whole front : List DecodedChar) (continues : (cutText handler cut).Continues whole front) :
    id whole = id front ++ cut := continues

theorem refuses_outOfFuel : CutOff handler .outOfFuel := by
  refine .broken fun thrown => ?_
  obtain ⟨_, same⟩ := thrown
  cases same

/-! At the end the run of a scanner is known. -/

section Alone

variable {α : Type} {starved : α → List DecodedChar → Prop}

theorem alone_of_run {target : Cursor α} {halt : Halt} {final : List DecodedChar}
    (ran : target.run [] = (.error halt, final)) (refuses : CutOff handler halt) :
    Alone (cutText handler cut) (· = []) target starved := by
  rintro rest rfl
  constructor
  · intro value last returned
    rw [ran] at returned
    cases returned
  · intro error last threw
    rw [ran] at threw
    cases threw
    exact refuses

theorem alone_failAt {pre : List DecodedChar → Prop} {kind : ErrorKind}
    (allowed : kind = .wellFormedness ∨ kind = .resourceLimit) (location : SourceLocation) (message : String) :
    Alone (cutText handler cut) pre (failAt kind location message) starved :=
  triple_throw fun _ _ => .failed allowed

namespace Parser

variable (p : Parser)

theorem alone_fail {pre : List DecodedChar → Prop} (message : String) :
    Alone (cutText handler cut) pre (p.fail .wellFormedness message) starved :=
  triple_read_bind fun _ => alone_failAt (.inl rfl) _ _

theorem alone_advance {starved : Unit → List DecodedChar → Prop} :
    Alone (cutText handler cut) (· = []) p.advance starved :=
  alone_of_run rfl (.failed (.inl rfl))

theorem alone_expect (value : Nat) (description : String) {starved : Unit → List DecodedChar → Prop} :
    Alone (cutText handler cut) (· = []) (p.expect value description) starved :=
  triple_read_bind fun _ => triple_ite (fun _ => p.alone_fail _) fun _ => p.alone_advance

theorem alone_expectSequence {text : List Nat} (nonempty : text ≠ []) (description : String)
    {starved : Unit → List DecodedChar → Prop} :
    Alone (cutText handler cut) (· = []) (p.expectSequence text description) starved := by
  cases text with
  | nil => exact absurd rfl nonempty
  | cons value text => exact alone_of_run rfl (.failed (.inl rfl))

theorem alone_whilePeek {β : Type} (condition : Nat → Bool) (body : β → Cursor β) (start : β) :
    Alone (cutText handler cut) (· = []) (whilePeek condition body start) AtEnd := by
  rintro rest rfl
  have ran : (whilePeek condition body start).run [] = (.ok start, []) := rfl
  rw [ran]
  constructor
  · intro value final returned
    cases returned
    rfl
  · intro error final threw
    cases threw

theorem alone_skipWhitespace : Alone (cutText handler cut) (· = []) p.skipWhitespace AtEnd :=
  alone_whilePeek _ _ _

/-- Where another character is expected than the one that is left. -/
theorem alone_expectOther {condition : List DecodedChar → Prop} {value : Nat}
    (differs : ∀ rest, condition rest → peek rest ≠ value) (description : String)
    {starved : Unit → List DecodedChar → Prop} :
    Alone (cutText handler cut) condition (p.expect value description) starved := by
  refine triple_read_bind_of_eq fun next => triple_ite (fun _ => p.alone_fail _) fun expected => ?_
  rintro rest ⟨holds, rfl⟩
  exact absurd (by simpa using expected) (differs rest holds)

theorem alone_nameless {condition : List DecodedChar → Prop}
    (nameless : ∀ rest, condition rest → isNameStart (peek rest) = false)
    {starved : Bytes → List DecodedChar → Prop} :
    Alone (cutText handler cut) condition p.parseName starved := by
  refine triple_read_bind fun start => triple_read_bind_of_eq fun next => ?_
  refine triple_ite (fun _ => p.alone_fail _) fun named => ?_
  rintro rest ⟨holds, rfl⟩
  rw [nameless rest holds] at named
  exact absurd rfl named

theorem alone_parseName {starved : Bytes → List DecodedChar → Prop} :
    Alone (cutText handler cut) (· = []) p.parseName starved := by
  refine p.alone_nameless fun rest ended => ?_
  have empty : rest = [] := ended
  rw [empty]
  rfl

theorem alone_parseQuotedLiteral {starved : Bytes → List DecodedChar → Prop} :
    Alone (cutText handler cut) (· = []) p.parseQuotedLiteral starved :=
  alone_of_run rfl (.failed (.inl rfl))

theorem alone_enforceTokenSize {σ : Type} {cutting : Cutting σ Halt} {pre : σ → Prop}
    (refuses : ∀ halt, CutOff handler halt → cutting.Refuses halt) (size : Nat) (start : SourceLocation) :
    Alone cutting pre (p.enforceTokenSize size start) fun _ => pre :=
  triple_ite (fun _ => triple_throw fun _ _ => refuses _ (.failed (.inr rfl))) fun _ => triple_pure fun _ => id

/-- What holds of the text also holds behind its first character. -/
def Stable (condition : List DecodedChar → Prop) : Prop := ∀ rest, condition rest → condition rest.tail

theorem stable_short (bound : Nat) : Stable fun rest => rest.length < bound := by
  intro rest short
  rw [List.length_tail]
  omega

section Stable

variable {condition : List DecodedChar → Prop} (stable : Stable condition)

include stable

theorem alone_step : Alone (cutText handler cut) condition p.advance fun _ => condition := by
  refine triple_read_bind fun atEnd => triple_ite (fun _ => p.alone_fail _) fun _ => ?_
  exact triple_modify stable

theorem alone_appendPeek (start : SourceLocation) (text : Bytes) :
    Alone (cutText handler cut) condition (p.appendPeek start text) fun _ => condition := by
  refine triple_read_bind fun next => ?_
  refine triple_bind (p.alone_enforceTokenSize (fun _ => id) _ start) fun _ => ?_
  exact triple_bind (p.alone_step stable) fun _ => triple_pure fun _ holds => holds

theorem alone_pushPeek (start : SourceLocation) (buffer : List Nat) :
    Alone (cutText handler cut) condition (p.pushPeek start buffer) fun _ => condition := by
  refine triple_read_bind fun next => ?_
  refine triple_bind (p.alone_enforceTokenSize (fun _ => id) _ start) fun _ => ?_
  exact triple_bind (p.alone_step stable) fun _ => triple_pure fun _ holds => holds

end Stable

end Parser

end Alone

namespace Parser

variable (p : Parser) (cut : List DecodedChar)

/-- The parser on the whole text, and the one on the text in front of the cut. -/
abbrev CutsText {α : Type} (starved : α → List DecodedChar → Prop) (source target : Cursor α) : Prop :=
  Cuts (cutText p.handler cut) starved source target

variable {p cut}

theorem cuts_location {α : Type} {starved : α → List DecodedChar → Prop}
    {left right : SourceLocation → Cursor α}
    (rest : ∀ location, p.CutsText cut starved (left location) (right location)) :
    p.CutsText cut starved (Comp.read p.location >>= left) (Comp.read (p.upTo cut).location >>= right) := by
  refine cuts_read_bind_eq (fun whole front continues => ?_) rest
  have same : whole = front ++ cut := continues
  rw [same, location_append]

theorem cuts_fail {α : Type} {starved : α → List DecodedChar → Prop} (kind : ErrorKind) (message : String) :
    p.CutsText cut starved (p.fail kind message) ((p.upTo cut).fail kind message) :=
  cuts_location fun _ => cuts_throw _ _

theorem cuts_advance : p.CutsText cut Never p.advance (p.upTo cut).advance := by
  rintro whole front value final rfl returned
  cases front with
  | nil => exact .refused (.failed (.inl rfl))
  | cons c front =>
      cases returned
      exact .kept rfl

theorem cuts_expect (value : Nat) (description : String) :
    p.CutsText cut Never (p.expect value description) ((p.upTo cut).expect value description) := by
  refine cuts_peek text_follows (fun next => ?_) ?_
  · exact cuts_ite (fun _ => cuts_fail _ _) fun _ => cuts_advance
  · exact triple_ite (fun _ => alone_fail _ _) fun _ => alone_advance _

theorem cuts_expectSequence (text : List Nat) (description : String) :
    p.CutsText cut Never (p.expectSequence text description)
      ((p.upTo cut).expectSequence text description) := by
  rintro whole front value final rfl returned
  cases starts : startsWith text front with
  | false =>
      have threw : ((p.upTo cut).expectSequence text description).run front =
          ((p.upTo cut).fail .wellFormedness ("expected " ++ description) : Cursor Unit).run front := by
        unfold expectSequence
        rw [run_read_bind, starts]
        rfl
      rw [threw, run_fail]
      exact .refused (.failed (.inl rfl))
  | true =>
      obtain ⟨consumed, after, rfl, rfl⟩ := startsWith_split starts
      have ran : ((p.upTo cut).expectSequence (values consumed) description).run (consumed ++ after) =
          (.ok (), after) := by
        unfold expectSequence
        rw [run_read_bind, starts]
        simp
      rw [List.append_assoc] at returned
      have split : final = after ++ cut := by
        unfold expectSequence at returned
        rw [run_read_bind, startsWith_append] at returned
        simpa using returned.symm
      rw [ran]
      exact .kept split

theorem cuts_whilePeek {β : Type} (condition : Nat → Bool) {body other : β → Cursor β}
    (round : ∀ current, p.CutsText cut Never (body current) (other current)) (start : β) :
    p.CutsText cut AtEnd (whilePeek condition body start) (whilePeek condition other start) := by
  refine cuts_whileLoop (· = []) (fun whole front continues => ?_) round (fun current => ?_)
    (fun _ _ ended _ => ended) refuses_outOfFuel start
  · have same : whole = front ++ cut := continues
    rw [same]
    cases front with
    | nil => exact .inr rfl
    | cons c front => exact .inl rfl
  · rintro front ⟨rfl, more⟩
    cases more

theorem cuts_skipWhitespace : p.CutsText cut AtEnd p.skipWhitespace (p.upTo cut).skipWhitespace :=
  cuts_whilePeek _ (fun _ => cuts_advance) ()

theorem cuts_enforceTokenSize {σ : Type} {cutting : Cutting σ Halt} {starved : Unit → σ → Prop} (size : Nat)
    (start : SourceLocation) :
    Cuts cutting starved (p.enforceTokenSize size start) ((p.upTo cut).enforceTokenSize size start) :=
  cuts_ite (fun _ => cuts_throw _ _) fun _ => cuts_pure _

/-- The body of a loop that takes the current character and may test a size first. -/
theorem cuts_take {α : Type} {tested other : Nat → Cursor Unit} {result : Nat → α}
    (tests : ∀ value, p.CutsText cut Never (tested value) (other value))
    (alone : Alone (cutText p.handler cut) (· = []) (other 0) fun _ => (· = [])) :
    p.CutsText cut Never
      (Comp.read peek >>= fun value => tested value >>= fun _ => p.advance >>= fun _ => pure (result value))
      (Comp.read peek >>= fun value => other value >>= fun _ =>
        (p.upTo cut).advance >>= fun _ => pure (result value)) := by
  refine cuts_peek text_follows (fun value => ?_) ?_
  · refine cuts_bind_never (tests value) fun _ => ?_
    exact cuts_bind_never cuts_advance fun _ => cuts_pure _
  · exact triple_bind alone fun _ => alone_bind_of_never (alone_advance _)

theorem cuts_appendPeek (start : SourceLocation) (text : Bytes) :
    p.CutsText cut Never (p.appendPeek start text) ((p.upTo cut).appendPeek start text) :=
  cuts_take (fun _ => cuts_enforceTokenSize _ _) (alone_enforceTokenSize _ (fun _ => id) _ _)

theorem cuts_pushPeek (start : SourceLocation) (buffer : List Nat) :
    p.CutsText cut Never (p.pushPeek start buffer) ((p.upTo cut).pushPeek start buffer) :=
  cuts_take (fun _ => cuts_enforceTokenSize _ _) (alone_enforceTokenSize _ (fun _ => id) _ _)

theorem cuts_takePeek (text : Bytes) : p.CutsText cut Never (p.takePeek text) ((p.upTo cut).takePeek text) := by
  refine cuts_peek text_follows (fun value => ?_) ?_
  · exact cuts_bind_never cuts_advance fun _ => cuts_pure _
  · exact alone_bind_of_never (alone_advance _)

theorem cuts_parseName : p.CutsText cut AtEnd p.parseName (p.upTo cut).parseName := by
  refine cuts_location fun start => cuts_peek text_follows (fun next => ?_) ?_
  · refine cuts_ite (fun _ => cuts_fail _ _) fun _ => ?_
    exact cuts_bind (cuts_whilePeek _ (cuts_pushPeek start) []) (fun _ => cuts_pure _) fun _ =>
      triple_pure fun _ ended => ended
  · exact alone_fail _ _

theorem cuts_parseQuotedLiteral :
    p.CutsText cut Never p.parseQuotedLiteral (p.upTo cut).parseQuotedLiteral := by
  refine cuts_peek text_follows (fun quote => cuts_ite (fun _ => cuts_fail _ _) fun _ => ?_) (alone_fail _ _)
  refine cuts_bind_never cuts_advance fun _ => ?_
  refine cuts_bind (cuts_whilePeek _ cuts_takePeek []) (fun value => ?_) fun value => ?_
  · exact cuts_bind_never (cuts_expect _ _) fun _ => cuts_pure _
  · exact alone_bind_of_never (alone_expect _ _ _)

/-- A loop up to a closing text, which may be missing at the end. -/
theorem cuts_takeUntil {stop : List Nat} (nonempty : stop ≠ []) (start : SourceLocation) :
    p.CutsText cut AtEnd (whileNotAt stop (p.appendPeek start) [])
      (whileNotAt stop ((p.upTo cut).appendPeek start) []) := by
  refine cuts_whileLoop (fun rest => rest.length < stop.length) (fun whole front continues => ?_)
    (cuts_appendPeek start) (fun text => ?_) (fun text front short stops => ?_) refuses_outOfFuel []
  · have same : whole = front ++ cut := continues
    rw [same]
    cases startsWith_or_stub stop front cut with
    | inr stub => exact .inr stub.short
    | inl starts =>
        cases front with
        | nil => exact .inr (List.length_pos_of_ne_nil nonempty)
        | cons c front =>
            left
            rw [starts]
            rfl
  · exact ((p.upTo cut).alone_appendPeek (stable_short stop.length) start text).imp (fun _ short => short.1)
      (fun _ _ short => short) fun _ _ refuses => refuses
  · cases front with
    | nil => rfl
    | cons c front =>
        rw [startsWith_eq_false_of_short short] at stops
        cases stops

/-- The front may end in the opening of the declaration, which is no declaration then. -/
theorem cuts_parseXmlDeclarationIfPresent :
    p.CutsText cut (fun _ rest => values rest <+: u32 "<?xml") p.parseXmlDeclarationIfPresent
      (p.upTo cut).parseXmlDeclarationIfPresent := by
  let absent : List DecodedChar → Bool := fun rest =>
    !startsWith (u32 "<?xml") rest || !isSpace (peekAt 5 rest)
  have short : ∀ front : List DecodedChar, front.length ≤ 5 → absent front = true := by
    intro front few
    have outside : front[5]? = none := List.getElem?_eq_none few
    have past : peekAt 5 front = 0 := by
      unfold peekAt
      rw [outside]
      rfl
    change (!startsWith (u32 "<?xml") front || !isSpace (peekAt 5 front)) = true
    rw [past]
    exact Bool.or_true _
  have views : ∀ front, absent (front ++ cut) = absent front ∨ values front <+: u32 "<?xml" := by
    intro front
    by_cases few : front.length ≤ 5
    · rw [short front few]
      cases starts : startsWith (u32 "<?xml") (front ++ cut) with
      | false =>
          left
          change (!startsWith (u32 "<?xml") (front ++ cut) || _) = true
          rw [starts]
          rfl
      | true =>
          have begins := startsWith_iff.mp starts
          rw [values_append] at begins
          refine .inr (List.prefix_of_prefix_length_le (List.prefix_append _ _) begins ?_)
          rw [values_length]
          exact few
    · left
      change (!startsWith (u32 "<?xml") (front ++ cut) || !isSpace (peekAt 5 (front ++ cut))) = _
      have inside : (front ++ cut)[5]? = front[5]? := List.getElem?_append_left (Nat.lt_of_not_le few)
      have same : peekAt 5 (front ++ cut) = peekAt 5 front := by
        unfold peekAt
        rw [inside]
      cases startsWith_or_stub (u32 "<?xml") front cut with
      | inl starts => rw [starts, same]
      | inr stub => exact absurd (Nat.le_of_lt stub.short) few
  change Cuts _ _ (Comp.read absent >>= fun isAbsent => if isAbsent then pure () else _)
    (Comp.read absent >>= fun isAbsent => if isAbsent then pure () else _)
  refine cuts_read_bind (fun front => values front <+: u32 "<?xml") (fun whole front continues => ?_)
    (fun isAbsent => ?_) fun isAbsent => ?_
  · have same : whole = front ++ cut := continues
    rw [same]
    exact views front
  · refine cuts_ite (fun _ => cuts_pure _) fun _ => cuts_location fun start => ?_
    refine cuts_bind_never (cuts_expectSequence _ _) fun _ => cuts_peek text_follows (fun next => ?_) ?_
    · refine cuts_ite (fun _ => cuts_fail _ _) fun _ => ?_
      refine cuts_bind (cuts_takeUntil (by decide) start) (fun declaration => ?_) fun declaration => ?_
      · refine cuts_bind_never (cuts_expectSequence _ _) fun _ => ?_
        refine cuts_ite (fun _ => cuts_throw _ _) fun _ => ?_
        exact cuts_ite (fun _ => cuts_throw _ _) fun _ => cuts_pure _
      · exact alone_bind_of_never (alone_expectSequence _ (by decide) _)
    · exact alone_fail _ _
  · rintro front ⟨stub, rfl⟩
    have few := stub.length_le
    rw [values_length] at few
    rw [short front few]
    have kept : Alone (cutText p.handler cut) (fun rest => values rest <+: u32 "<?xml")
        (pure () : Cursor Unit) (fun _ rest => values rest <+: u32 "<?xml") := triple_pure fun _ begins => begins
    exact kept front stub

/-- What is left is too short for the end of a comment or of a CDATA section. -/
def TooShort (rest : List DecodedChar) : Prop := rest.length < 3

theorem alone_commentRest (start : SourceLocation) (text : Bytes) :
    Alone (cutText handler cut) TooShort
      ((do
        if ← Comp.read (startsWith (u32 "--")) then
          p.fail .wellFormedness "comment text cannot contain '--'"
        else
          let text ← p.appendPeek start text
          pure (.next text)) : Cursor (LoopStep Bytes Bytes))
      (RoundPost (fun _ => TooShort) Never) := by
  refine triple_read_bind fun hyphens => triple_ite (fun _ => alone_fail _ _) fun _ => ?_
  exact triple_bind (p.alone_appendPeek (stable_short 3) start text) fun _ => triple_pure fun _ short => short

theorem cuts_commentRound (start : SourceLocation) (text : Bytes) :
    p.CutsText cut (RoundPost (fun _ => TooShort) Never) (p.commentRound start text)
      ((p.upTo cut).commentRound start text) := by
  refine cuts_eof text_follows (fun atEnd => cuts_ite (fun _ => cuts_throw _ _) fun _ => ?_)
    (alone_failAt (.inl rfl) _ _)
  refine cuts_startsWith text_follows _ (fun closes => cuts_ite (fun _ => ?_) fun _ => ?_) ?_
  · exact cuts_bind_never (cuts_expectSequence _ _) fun _ => cuts_pure _
  · refine cuts_startsWith text_follows _ (fun hyphens => cuts_ite (fun _ => cuts_fail _ _) fun _ => ?_) ?_
    · exact cuts_bind_never (cuts_appendPeek start text) fun _ => cuts_pure _
    · refine Triple.imp (triple_bind ((p.upTo cut).alone_appendPeek (stable_short 3) start text) fun _ =>
        triple_pure fun _ short => short) (fun rest stub => ?_) (fun _ _ short => short) fun _ _ refuses => refuses
      exact Nat.lt_succ_of_lt stub.short
  · exact ((p.upTo cut).alone_commentRest start text).imp (fun _ stub => stub.short) (fun _ _ short => short)
      fun _ _ refuses => refuses

theorem alone_commentRound (start : SourceLocation) (text : Bytes) :
    Alone (cutText handler cut) TooShort (p.commentRound start text)
      (RoundPost (fun _ => TooShort) Never) := by
  refine triple_read_bind fun atEnd => triple_ite (fun _ => alone_failAt (.inl rfl) _ _) fun _ => ?_
  refine triple_read_bind_of_eq fun closes => triple_ite (fun starts => ?_) fun _ => ?_
  · rintro rest ⟨short, same⟩
    have isShort : rest.length < (u32 "-->").length := short
    rw [startsWith_eq_false_of_short isShort, starts] at same
    cases same
  · exact (p.alone_commentRest start text).imp (fun _ short => short.1) (fun _ _ short => short)
      fun _ _ refuses => refuses

theorem cuts_scanComment : p.CutsText cut Never p.scanComment (p.upTo cut).scanComment := by
  refine cuts_location fun start => cuts_bind_never (cuts_expectSequence _ _) fun _ => ?_
  exact cuts_loop (fun _ => TooShort) (cuts_commentRound start) ((p.upTo cut).alone_commentRound start)
    refuses_outOfFuel []

theorem alone_cdataRound (start : SourceLocation) (text : Bytes) :
    Alone (cutText handler cut) TooShort (p.cdataRound start text) (RoundPost (fun _ => TooShort) Never) := by
  refine triple_read_bind fun atEnd => triple_ite (fun _ => alone_failAt (.inl rfl) _ _) fun _ => ?_
  refine triple_read_bind_of_eq fun closes => triple_ite (fun starts => ?_) fun _ => ?_
  · rintro rest ⟨short, same⟩
    have isShort : rest.length < (u32 "]]>").length := short
    rw [startsWith_eq_false_of_short isShort, starts] at same
    cases same
  · refine triple_bind ((p.alone_appendPeek (stable_short 3) start text).imp (fun _ short => short.1)
      (fun _ _ short => short) fun _ _ refuses => refuses) fun _ => triple_pure fun _ short => short

theorem cuts_cdataRound (start : SourceLocation) (text : Bytes) :
    p.CutsText cut (RoundPost (fun _ => TooShort) Never) (p.cdataRound start text)
      ((p.upTo cut).cdataRound start text) := by
  refine cuts_eof text_follows (fun atEnd => cuts_ite (fun _ => cuts_throw _ _) fun _ => ?_)
    (alone_failAt (.inl rfl) _ _)
  refine cuts_startsWith text_follows _ (fun closes => cuts_ite (fun _ => ?_) fun _ => ?_) ?_
  · exact cuts_bind_never (cuts_expectSequence _ _) fun _ => cuts_pure _
  · exact cuts_bind_never (cuts_appendPeek start text) fun _ => cuts_pure _
  · refine triple_bind (((p.upTo cut).alone_appendPeek (stable_short 3) start text).imp (fun _ stub => stub.short)
      (fun _ _ short => short) fun _ _ refuses => refuses) fun _ => triple_pure fun _ short => short

theorem cuts_scanCdata : p.CutsText cut Never p.scanCdata (p.upTo cut).scanCdata := by
  refine cuts_location fun start => cuts_bind_never (cuts_expectSequence _ _) fun _ => ?_
  exact cuts_loop (fun _ => TooShort) (cuts_cdataRound start) ((p.upTo cut).alone_cdataRound start)
    refuses_outOfFuel []

/-- Behind its target a processing instruction needs its closing text. -/
theorem alone_scanProcessingInstruction (start : SourceLocation) (target : Bytes) :
    Alone (cutText handler cut) (· = [])
      ((if lowercaseAscii target == ascii "xml" then
        failAt .wellFormedness start "XML declaration is only allowed at document start"
      else do
        p.skipWhitespace
        let data ← whileNotAt (u32 "?>") (p.appendPeek start) []
        p.expectSequence (u32 "?>") "processing instruction close"
        pure (target, data)) : Cursor (Bytes × Bytes)) Never := by
  refine triple_ite (fun _ => alone_failAt (.inl rfl) _ _) fun _ => ?_
  refine triple_bind p.alone_skipWhitespace fun _ => alone_of_run rfl (.failed (.inl rfl))

/-- The opening of an XML declaration that is cut off is no processing instruction. -/
theorem alone_cutDeclaration :
    Alone (cutText handler cut) (fun rest => values rest <+: u32 "<?xml") p.scanProcessingInstruction
      Never := by
  let named : List DecodedChar → Prop := fun rest => ∀ value ∈ values rest, isNameChar value = true
  have stable : Stable named := by
    intro rest holds value member
    refine holds value ?_
    rw [values, List.map_tail] at member
    exact List.mem_of_mem_tail member
  have opened : Alone (cutText handler cut) (fun rest => values rest <+: u32 "<?xml")
      (p.expectSequence (u32 "<?") "processing instruction start") fun _ => named := by
    refine triple_read_bind fun starts => triple_ite (fun _ => alone_fail _ _) fun _ => ?_
    refine triple_modify fun rest begins value member => ?_
    have behind : values (rest.drop 2) <+: (u32 "<?xml").drop 2 := by
      obtain ⟨more, same⟩ := begins
      rw [values, List.map_drop, ← same]
      exact ⟨_, (List.drop_append ..).symm⟩
    have letters : ∀ value ∈ (u32 "<?xml").drop 2, isNameChar value = true := by decide
    exact letters value (behind.subset member)
  have taken : ∀ start, Alone (cutText handler cut) named (whilePeek isNameChar (p.pushPeek start) [])
      AtEnd := by
    intro start
    unfold whilePeek whileLoop
    refine triple_loop (fun _ => named) (fun buffer => ?_) (fun _ _ _ => refuses_outOfFuel) []
    refine triple_read_bind_of_eq fun more => triple_ite (fun _ => ?_) fun stops => ?_
    · refine triple_bind ((p.alone_pushPeek stable start buffer).imp (fun _ holds => holds.1)
        (fun _ _ holds => holds) fun _ _ refuses => refuses) fun _ => triple_pure fun _ holds => holds
    · refine triple_pure fun rest holds => ?_
      cases rest with
      | nil => rfl
      | cons c rest =>
          obtain ⟨letters, same⟩ := holds
          have isLetter : isNameChar c.value = true := letters c.value List.mem_cons_self
          have goesOn : (!eof (c :: rest) && isNameChar (peek (c :: rest))) = true := isLetter
          exact absurd (same.symm.trans goesOn) stops
  refine triple_read_bind fun start => triple_bind opened fun _ => ?_
  refine triple_bind ?_ (p.alone_scanProcessingInstruction start)
  refine triple_read_bind fun nameStart => triple_read_bind fun next => ?_
  refine triple_ite (fun _ => alone_fail _ _) fun _ => ?_
  exact triple_bind (taken nameStart) fun _ => triple_pure fun _ ended => ended

theorem cuts_scanProcessingInstruction :
    p.CutsText cut Never p.scanProcessingInstruction (p.upTo cut).scanProcessingInstruction := by
  refine cuts_location fun start => cuts_bind_never (cuts_expectSequence _ _) fun _ => ?_
  refine cuts_bind cuts_parseName (fun target => ?_) ((p.upTo cut).alone_scanProcessingInstruction start)
  refine cuts_ite (fun _ => cuts_throw _ _) fun _ => ?_
  refine cuts_bind cuts_skipWhitespace (fun _ => ?_) fun _ => alone_of_run rfl (.failed (.inl rfl))
  refine cuts_bind (cuts_takeUntil (by decide) start) (fun data => ?_) fun data => ?_
  · exact cuts_bind_never (cuts_expectSequence _ _) fun _ => cuts_pure _
  · exact alone_bind_of_never (alone_expectSequence _ (by decide) _)

end Parser

end Scanning

end XmlParser
