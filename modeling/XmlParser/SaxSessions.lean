import XmlParser.EarlyStop

/-! `SaxParser` fed in chunks: what its handler is told over all calls of `feed`
and `finish`. -/

set_option autoImplicit false

namespace XmlParser

open XmlParser.Computation Comp

/-- The handler as it goes on after earlier calls. -/
def SaxHandler.resumed (handler : SaxHandler) (earlier : List Event) : SaxHandler :=
  ⟨fun history => handler.respond (earlier ++ history)⟩

/-- The options with an error handler that goes on after earlier calls. -/
def ParserOptions.resumed (options : ParserOptions) (earlier : List XmlParseException) : ParserOptions :=
  { options with
    recoverableErrorHandler :=
      options.recoverableErrorHandler.map fun handle reported => handle (earlier ++ reported) }

@[simp] theorem SaxHandler.resumed_nil (handler : SaxHandler) : handler.resumed [] = handler := rfl

@[simp] theorem ParserOptions.resumed_nil (options : ParserOptions) : options.resumed [] = options := by
  cases options with
  | mk version validation namespaces allowExternalDtd externalDtdResolver recoverableErrorHandler =>
      cases recoverableErrorHandler <;> rfl

/-- The members of `SaxParser`, with the calls that it has made to its handler and
to the error handler so far. -/
structure SaxParser where
  handler : SaxHandler
  options : ParserOptions
  buffer : Bytes := []
  finished : Bool := false
  delivered : List Event := []
  reported : List XmlParseException := []

abbrev SessionM (α : Type) := Comp SaxParser Halt α

/-- A call of `feed` or of `finish`. -/
inductive SaxCall where
  | feed (chunk : Bytes)
  | finish
  deriving DecidableEq, Repr

namespace SaxParser

def create (handler : SaxHandler) (options : ParserOptions) : SaxParser := { handler, options }

def parse (xml : Bytes) : SessionM Unit := ⟨fun parser =>
  let outcome := parseXmlDocument xml (parser.handler.resumed parser.delivered)
    (parser.options.resumed parser.reported)
  (outcome.1, { parser with
    delivered := parser.delivered ++ outcome.2.events
    reported := parser.reported ++ outcome.2.reported })⟩

def feed (chunk : Bytes) : SessionM Unit := do
  if ← Comp.read finished then
    failAt .unsupported {} "SaxParser cannot be reused after finish"
  else if (← Comp.read buffer).length + chunk.length > (← Comp.read options).maxDocumentBytes then
    failAt .resourceLimit {} "XML input exceeds max_document_bytes"
  else
    Comp.modify fun parser => { parser with buffer := parser.buffer ++ chunk }

def finish : SessionM Unit := do
  Comp.modify fun parser => { parser with finished := true }
  parse (← Comp.read buffer)
  -- Not reached when the parse throws, so the text stays.
  Comp.modify fun parser => { parser with buffer := [] }

def perform : SaxCall → SessionM Unit
  | .feed chunk => feed chunk
  | .finish => finish

/-- The object after these calls, each made whatever the earlier ones threw. -/
def after (parser : SaxParser) (calls : List SaxCall) : SaxParser :=
  calls.foldl (fun reached call => ((perform call).run reached).2) parser

@[simp] theorem after_nil (parser : SaxParser) : parser.after [] = parser := rfl

@[simp] theorem after_cons (parser : SaxParser) (call : SaxCall) (calls : List SaxCall) :
    parser.after (call :: calls) = ((perform call).run parser).2.after calls := rfl

@[simp] theorem after_append (parser : SaxParser) (calls later : List SaxCall) :
    parser.after (calls ++ later) = (parser.after calls).after later :=
  List.foldl_append

/-- The chunk of a `feed` that returned. -/
def acceptedChunk : SaxCall → Except Halt Unit → Bytes
  | .feed chunk, .ok () => chunk
  | _, _ => []

/-- The chunks that these calls add to the buffer. -/
def accepted : List SaxCall → SaxParser → Bytes
  | [], _ => []
  | call :: calls, parser =>
      acceptedChunk call ((perform call).run parser).1 ++ accepted calls ((perform call).run parser).2

/-- What is promised of a sequence of calls on a new object. -/
structure SessionLaw (handler : SaxHandler) (options : ParserOptions) (calls : List SaxCall) : Prop where
  silent : ∀ before rest, calls = before ++ rest → .finish ∉ before →
    ((create handler options).after before).delivered = []
  once : ∀ before rest, calls = before ++ .finish :: rest → .finish ∉ before →
    let outcome := parseXmlDocument (accepted before (create handler options)) handler options
    ((create handler options).after calls).delivered = outcome.2.events ∧
      (finish.run ((create handler options).after before)).1 = outcome.1
  refused : ∀ before call rest, calls = before ++ call :: rest → .finish ∈ before →
    let reached := (create handler options).after before
    ∃ exception, ((perform call).run reached).1 = .error (.thrown exception) ∧
      ((perform call).run reached).2.delivered = reached.delivered

/-- No `finish` finds a text that can be decoded in the buffer of an object that is
finished already. -/
def NeverRepeats (handler : SaxHandler) (options : ParserOptions) (calls : List SaxCall) : Prop :=
  ∀ before rest, calls = before ++ .finish :: rest →
    let reached := (create handler options).after before
    reached.finished = true → ∃ error, decodeDocument reached.buffer options = .error error

/-! ## Before the first `finish` -/

theorem run_feed_of_unfinished {parser : SaxParser} (unfinished : parser.finished = false) (chunk : Bytes) :
    ((feed chunk).run parser).2 =
      { parser with buffer := parser.buffer ++ acceptedChunk (.feed chunk) ((feed chunk).run parser).1 } := by
  unfold feed
  rw [run_read_bind, unfinished, if_neg Bool.false_ne_true, run_read_bind, run_read_bind]
  by_cases long : parser.buffer.length + chunk.length > parser.options.maxDocumentBytes
  · rw [if_pos long]
    simp [acceptedChunk, ← unfinished]
  · rw [if_neg long]
    simp [acceptedChunk, unfinished]

/-- Chunks only make the buffer longer. -/
theorem after_feeds {calls : List SaxCall} {parser : SaxParser} (unfinished : parser.finished = false)
    (feeds : .finish ∉ calls) :
    parser.after calls = { parser with buffer := parser.buffer ++ accepted calls parser } := by
  induction calls generalizing parser with
  | nil => simp [accepted]
  | cons call calls ih =>
      rw [List.mem_cons, not_or] at feeds
      cases call with
      | finish => exact absurd rfl feeds.1
      | feed chunk =>
          have fed : ((perform (.feed chunk)).run parser).2 = _ := run_feed_of_unfinished unfinished chunk
          rw [after_cons, ih (by rw [fed]; exact unfinished) feeds.2, accepted, fed, List.append_assoc]
          rfl

/-- What a new object has become before the first `finish`. -/
theorem after_create {handler : SaxHandler} {options : ParserOptions} {calls : List SaxCall}
    (feeds : .finish ∉ calls) :
    (create handler options).after calls =
      { create handler options with buffer := accepted calls (create handler options) } :=
  after_feeds rfl feeds

/-! ## The first `finish` and what comes later -/

theorem run_finish (parser : SaxParser) :
    let outcome := parseXmlDocument parser.buffer (parser.handler.resumed parser.delivered)
      (parser.options.resumed parser.reported)
    (finish.run parser).1 = outcome.1 ∧ (finish.run parser).2.finished = true ∧
      (finish.run parser).2.delivered = parser.delivered ++ outcome.2.events ∧
      (finish.run parser).2.options = parser.options := by
  unfold finish parse
  rw [run_modify_bind, run_read_bind, run_bind]
  dsimp only
  cases parseXmlDocument parser.buffer (parser.handler.resumed parser.delivered)
      (parser.options.resumed parser.reported) with
  | mk outcome final =>
      cases outcome with
      | ok value => exact ⟨rfl, rfl, rfl, rfl⟩
      | error halt => exact ⟨rfl, rfl, rfl, rfl⟩

theorem decodeDocument_resumed (xml : Bytes) (options : ParserOptions) (earlier : List XmlParseException) :
    decodeDocument xml (options.resumed earlier) = decodeDocument xml options := rfl

/-- A finished object throws from every call, and stays as it is, if it is not made
to parse a text that can be decoded. -/
theorem run_refused {parser : SaxParser} {call : SaxCall} (finished : parser.finished = true)
    (undecodable : call = .finish → ∃ error, decodeDocument parser.buffer parser.options = .error error) :
    ∃ exception, (perform call).run parser = (.error (.thrown exception), parser) := by
  cases call with
  | feed chunk =>
      refine ⟨.xmlParse ⟨.unsupported, {}, "SaxParser cannot be reused after finish"⟩, ?_⟩
      unfold perform feed
      rw [run_read_bind, finished]
      rfl
  | finish =>
      obtain ⟨error, isError⟩ := undecodable rfl
      refine ⟨.xmlParse error, ?_⟩
      unfold perform finish parse parseXmlDocument
      rw [run_modify_bind, run_read_bind, run_bind]
      dsimp only
      rw [decodeDocument_resumed, isError, ← finished]
      simp [ParserState.events]

theorem perform_options (call : SaxCall) (parser : SaxParser) :
    ((perform call).run parser).2.options = parser.options := by
  cases call with
  | finish => exact (run_finish parser).2.2.2
  | feed chunk =>
      cases finished : parser.finished with
      | false =>
          unfold perform
          rw [run_feed_of_unfinished finished]
      | true =>
          obtain ⟨exception, refused⟩ := @run_refused parser (.feed chunk) finished nofun
          rw [refused]

theorem after_options (calls : List SaxCall) (parser : SaxParser) :
    (parser.after calls).options = parser.options := by
  induction calls generalizing parser with
  | nil => rfl
  | cons call calls ih => rw [after_cons, ih, perform_options]

/-- A parse that gets past the decoder calls the handler. -/
theorem delivers_of_decoded {xml : Bytes} {handler : SaxHandler} {options : ParserOptions}
    {document : DecodedDocument} (decoded : decodeDocument xml options = .ok document) :
    (parseXmlDocument xml handler options).2.events ≠ [] := by
  -- A handler that throws in the first call if the other one does not.
  let throwing : SaxHandler :=
    ⟨fun history => some ((handler.respond history).getD (.xmlParse ⟨.unsupported, {}, ""⟩))⟩
  have alike : (stopping fun _ _ => True).Alike ⟨handler, options, document.endLocation⟩
      ⟨throwing, options, document.endLocation⟩ := by
    refine ⟨rfl, rfl, rfl, rfl, fun _ _ _ => trivial, .inl rfl, .inl rfl, .inl rfl, .inl rfl,
      .inl rfl, .inl rfl, .inl rfl, rfl, fun left right same => ?_, Setting.reportsAlike_refl _ _ rfl rfl⟩
    rw [(exact_stopping _).events same]
    cases response : handler.respond right with
    | none => exact .inr ⟨rfl, _, rfl, trivial⟩
    | some exception => exact .inl (by simp [throwing, response])
  have follows := alike.run_follows document.chars
  rw [parseXmlDocument_of_ok decoded]
  intro nothing
  have called : (Parser.mk throwing options document.endLocation).parse.run { rest := document.chars } =
      (.error (.thrown ((handler.respond [.startDocument]).getD (.xmlParse ⟨.unsupported, {}, ""⟩))),
        ({ rest := document.chars } : ParserState).deliver .startDocument) := rfl
  rw [called] at follows
  cases List.prefix_nil.mp (nothing ▸ follows.events_precede)

/-! ## The law -/

theorem finish_mem_of_finished {handler : SaxHandler} {options : ParserOptions} {calls : List SaxCall}
    (finished : ((create handler options).after calls).finished = true) : .finish ∈ calls := by
  by_contra feeds
  rw [after_create feeds] at finished
  cases finished

section Repeats

variable {handler : SaxHandler} {options : ParserOptions} {calls : List SaxCall}

theorem after_first_finish {before : List SaxCall} (feeds : .finish ∉ before) :
    let outcome := parseXmlDocument (accepted before (create handler options)) handler options
    let reached := (create handler options).after before
    (finish.run reached).1 = outcome.1 ∧ (finish.run reached).2.finished = true ∧
      (finish.run reached).2.delivered = outcome.2.events ∧ (finish.run reached).2.options = options := by
  have ended := run_finish ((create handler options).after before)
  rw [after_create feeds] at ended ⊢
  dsimp only [create] at ended ⊢
  rwa [SaxHandler.resumed_nil, ParserOptions.resumed_nil, List.nil_append] at ended

/-- Nothing changes any more after the first `finish`. -/
theorem after_finish (never : NeverRepeats handler options calls) {before middle rest : List SaxCall}
    (feeds : .finish ∉ before) (split : calls = before ++ .finish :: (middle ++ rest)) :
    (create handler options).after (before ++ .finish :: middle) =
      (finish.run ((create handler options).after before)).2 := by
  induction middle using List.reverseRecOn generalizing rest with
  | nil => rw [after_append, after_cons, after_nil]; rfl
  | append_singleton middle call ih =>
      rw [List.append_assoc, List.singleton_append] at split
      have unchanged := ih split
      obtain ⟨_, finished, _, sameOptions⟩ := @after_first_finish handler options _ feeds
      rw [← List.cons_append, ← List.append_assoc, after_append, unchanged, after_cons, after_nil]
      obtain ⟨exception, refused⟩ := @run_refused _ call finished fun isFinish => by
        subst isFinish
        rw [sameOptions, ← unchanged]
        refine never (before ++ .finish :: middle) rest ?_ ?_
        · rw [split, List.append_assoc, List.cons_append]
        · rw [unchanged]
          exact finished
      rw [refused]

/-- The law holds of exactly the sequences of calls in which no `finish` makes a
finished object parse a text that can be decoded. -/
theorem sessionLaw_iff (handler : SaxHandler) (options : ParserOptions) (calls : List SaxCall) :
    SessionLaw handler options calls ↔ NeverRepeats handler options calls := by
  constructor
  · intro law before rest split reached finished
    obtain ⟨exception, threw, silent⟩ :=
      law.refused before .finish rest split (finish_mem_of_finished finished)
    have unchanged : ((create handler options).after before).options = options :=
      after_options before (create handler options)
    obtain ⟨_, _, delivered, _⟩ := run_finish ((create handler options).after before)
    cases decoded : decodeDocument ((create handler options).after before).buffer options with
    | error error => exact ⟨error, rfl⟩
    | ok document =>
        have resumed : decodeDocument reached.buffer (reached.options.resumed reached.reported) =
            .ok document := by
          rw [decodeDocument_resumed, unchanged]
          exact decoded
        exact absurd (List.append_right_eq_self.mp (delivered.symm.trans silent)) (delivers_of_decoded resumed)
  · intro never
    refine ⟨fun before rest split feeds => ?_, fun before rest split feeds => ?_,
      fun before call rest split finishes => ?_⟩
    · rw [after_create feeds]
      rfl
    · obtain ⟨outcome, _, events, _⟩ := @after_first_finish handler options _ feeds
      refine ⟨?_, outcome⟩
      rw [split, after_finish never feeds (by rw [split, List.append_nil]), events]
    · obtain ⟨first, middle, isBefore, feeds⟩ := List.eq_append_cons_of_mem finishes
      obtain ⟨_, finished, _, sameOptions⟩ := @after_first_finish handler options _ feeds
      have unchanged := @after_finish handler options calls never first middle (call :: rest) feeds
        (by rw [split, isBefore, List.append_assoc, List.cons_append])
      rw [← isBefore] at unchanged
      dsimp only
      rw [← unchanged] at finished sameOptions
      obtain ⟨exception, refused⟩ := @run_refused _ call finished fun isFinish => by
        subst isFinish
        rw [sameOptions]
        exact never before rest split finished
      rw [refused]
      exact ⟨exception, rfl, rfl⟩

end Repeats

/-- Calls after which the events of one document have been delivered twice. -/
def repeatedFinish : List SaxCall := [.feed (ascii "<a>"), .finish, .finish]

theorem not_sessionLaw : ¬ SessionLaw .recording {} repeatedFinish := by
  intro law
  obtain ⟨events, _⟩ := law.once [.feed (ascii "<a>")] [.finish] rfl (by decide)
  have differ : ((create .recording {}).after repeatedFinish).delivered ≠
      (parseXmlDocument (ascii "<a>") .recording {}).2.events := by decide +kernel
  exact differ events

end SaxParser

end XmlParser
