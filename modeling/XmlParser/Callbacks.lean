import XmlParser.Library.Calls
import XmlParser.Limits
import XmlParser.SaxSessions

/-! `parse` with a handler or with `SaxCallbacks`: the first exception of the client's
code ends the run, and nothing else that this code does changes it. -/

set_option autoImplicit false

namespace XmlParser

open XmlParser.Computation Comp Calls

/-! ## Handlers -/

/-- The handler's first exception, as the end of a parse. -/
def raise (exception : Exception) : Except Halt Unit := .error (.thrown exception)

namespace SaxHandler

variable (handler : SaxHandler)

/-- How a run ends tells what the handler has answered. -/
theorem ended (xml : Bytes) (options : ParserOptions) :
    let outcome := parseXmlDocument xml handler options
    firstInterrupt handler.respond [] outcome.2.events = none ∨ ∃ exception, outcome.1 = raise exception ∧
      firstInterrupt handler.respond [] outcome.2.events = some (outcome.2.events, exception) := by
  have returns : ∀ {events}, handler.Returned events → firstInterrupt handler.respond [] events = none :=
    fun returned => firstInterrupt_eq_none returned
  have calls := calls_interrupted xml handler options
  cases ran : parseXmlDocument xml handler options with
  | mk outcome final =>
      rw [ran] at calls
      cases outcome with
      | ok value => exact .inl (returns calls)
      | error halt =>
          rcases calls with returned | ⟨before, last, exception, events, returned, answered, rfl⟩
          · exact .inl (returns returned)
          · rw [events] at answered
            refine .inr ⟨exception, rfl, ?_⟩
            rw [events]
            exact firstInterrupt_concat (returns returned) answered

/-- The first exception of a handler ends the run of a handler that never throws. -/
theorem run_interrupted (xml : Bytes) (options : ParserOptions) :
    let full := parseXmlDocument xml .recording options
    let outcome := parseXmlDocument xml handler options
    (outcome.1, outcome.2.events) = interrupted handler.respond raise (full.1, full.2.events) := by
  dsimp only
  have follows := handler.follows_recording xml options
  cases decoded : decodeDocument xml options with
  | error error => simp [parseXmlDocument_of_error decoded, interrupted, ParserState.events]
  | ok document =>
      have delivers := @SaxParser.delivers_of_decoded xml handler options document decoded
      cases ran : parseXmlDocument xml handler options with
      | mk outcome final =>
          rw [ran] at follows delivers
          have ended := handler.ended xml options
          rw [ran] at ended
          obtain ⟨later, events⟩ := follows.events_precede
          rw [← events]
          rcases ended with passed | ⟨exception, rfl, interrupts⟩
          · cases follows with
            | same sameOutcome trace =>
                have all : later = [] := by
                  have same : final.events = (parseXmlDocument xml .recording options).2.events :=
                    congrArg (List.map Delivery.event) trace
                  simpa [← events] using same
                simp only [interrupted, all, List.append_nil, passed]
                exact Prod.ext sameOutcome rfl
            | early _ stopped _ =>
                obtain ⟨exception, answered, _⟩ := stopped
                have silent := answer_of_passed delivers passed
                rw [List.nil_append, answered] at silent
                cases silent
          · simp [interrupted, firstInterrupt_append_some interrupts]

end SaxHandler

/-! ## Callbacks -/

/-- A callback is code of the client that may share its state with the other ones:
what it does is a function of the calls made to all of them so far, the current
one last. -/
abbrev Callback := List Event → Option Exception

structure SaxCallbacks where
  onStartDocument : Option Callback := none
  onEndDocument : Option Callback := none
  onStartElement : Option Callback := none
  onEndElement : Option Callback := none
  onCharacters : Option Callback := none
  onProcessingInstruction : Option Callback := none
  onComment : Option Callback := none
  onCdata : Option Callback := none

namespace SaxCallbacks

variable (callbacks : SaxCallbacks)

/-- The member that an event is meant for, if it is set. -/
def member : Event → Option Callback
  | .startDocument => callbacks.onStartDocument
  | .endDocument => callbacks.onEndDocument
  | .startElement _ _ => callbacks.onStartElement
  | .endElement _ => callbacks.onEndElement
  | .characters _ => callbacks.onCharacters
  | .processingInstruction _ _ => callbacks.onProcessingInstruction
  | .comment _ => callbacks.onComment
  | .cdata _ => callbacks.onCdata

def hears (event : Event) : Bool := (callbacks.member event).isSome

/-- What the member that the last of these calls is made to does. -/
def answer (calls : List Event) : Option Exception :=
  match calls.getLast? with
  | none => none
  | some event =>
      match callbacks.member event with
      | none => none
      | some callback => callback calls

end SaxCallbacks

/-- The members of `CallbackHandler`: each calls the callback of its name if that is set. -/
def callbackHandler (callbacks : SaxCallbacks) : SaxHandler where
  respond history :=
    match history.getLast? with
    | none => none
    | some event =>
        match callbacks.member event with
        | none => none
        | some callback => callback (history.filter callbacks.hears)

/-- `parse(xml, callbacks, options)`. -/
def parseCallbacks (xml : Bytes) (callbacks : SaxCallbacks) (options : ParserOptions) : Outcome :=
  parseXmlDocument xml (callbackHandler callbacks) options

theorem callbackHandler_respond (callbacks : SaxCallbacks) :
    (callbackHandler callbacks).respond = handedOn callbacks.hears callbacks.answer := by
  funext history
  rcases List.eq_nil_or_concat history with rfl | ⟨earlier, event, rfl⟩
  · rfl
  · rw [List.concat_eq_append, handedOn_append]
    cases isSet : callbacks.member event with
    | none => simp [callbackHandler, SaxCallbacks.hears, isSet]
    | some callback => simp [callbackHandler, SaxCallbacks.hears, SaxCallbacks.answer, isSet]

/-- The callbacks that are set hear what a recording handler records of their kinds, in
its order, up to the first call in which one throws; the parse then ends by this
exception, and else as the recording one. -/
theorem parseCallbacks_interrupted (xml : Bytes) (callbacks : SaxCallbacks) (options : ParserOptions) :
    let full := parseXmlDocument xml .recording options
    let outcome := parseCallbacks xml callbacks options
    (outcome.1, outcome.2.events.filter callbacks.hears) =
      interrupted callbacks.answer raise (full.1, full.2.events.filter callbacks.hears) := by
  have handled := (callbackHandler callbacks).run_interrupted xml options
  have handed := interrupted_handedOn callbacks.hears callbacks.answer raise
    ((parseXmlDocument xml .recording options).1, (parseXmlDocument xml .recording options).2.events)
  rw [callbackHandler_respond] at handled
  dsimp only at handled handed ⊢
  rw [← handed, ← handled]
  rfl

end XmlParser
