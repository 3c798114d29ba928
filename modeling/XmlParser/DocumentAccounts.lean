import XmlParser.DecoderProperties
import XmlParser.EventOrder
import XmlParser.Library.Unambiguity
import XmlParser.Limits
import XmlParser.Reading
import XmlParser.ReferenceCounts

/-! A document is accounted for as it is read: its tags, its events and its references, at
every call of the handler and at the end of every run. -/

set_option autoImplicit false

namespace XmlParser

open XmlParser.Computation Comp Macros
open Grammar (Text Name Spaces Piece Tag CommentReadable CdataReadable InstructionReadable ExcludedFromText
  renderAttributes renderPieces pieceValues renderComment renderCdata renderInstruction renderEndTag)

/-- The start tags of the elements that are open, for the namespaces inside them. -/
def startTags (opened : List Tag) : List StartTag := opened.map Tag.startTag

/-- What the events call these elements. -/
def elementNames (mode : NamespaceMode) : List Tag → List QualifiedName
  | [] => []
  | tag :: outer => tag.elementName mode (startTags (tag :: outer)) :: elementNames mode outer

/-- The events of these calls, without locations. -/
def shown (calls : List Delivery) : List Event := calls.map fun call => call.event.withoutLocations

namespace Parser

variable (p : Parser)

/-- What has been read of a document behind its prologue: the text, the elements that are
open behind it, the innermost one first, its events and how many references it has. -/
inductive Accounts (entities : List (Bytes × Bytes)) : Text → List Tag → List Event → Nat → Prop
  | start : Accounts entities [] [] [] 0
  | spaces {text space : Text} {events : List Event} {count : Nat} :
      Accounts entities text [] events count → Spaces space → Accounts entities (text ++ space) [] events count
  | comment {text body : Text} {opened : List Tag} {events : List Event} {count : Nat} :
      Accounts entities text opened events count → CommentReadable (p.dialect entities) body →
        Accounts entities (text ++ renderComment body) opened (events ++ [.comment (utf8 body)]) count
  | cdata {text body : Text} {opened : List Tag} {events : List Event} {count : Nat} :
      Accounts entities text opened events count → CdataReadable (p.dialect entities) body →
        Accounts entities (text ++ renderCdata body) opened (events ++ [.cdata (utf8 body)]) count
  | instruction {text target gap data : Text} {opened : List Tag} {events : List Event} {count : Nat} :
      Accounts entities text opened events count → InstructionReadable (p.dialect entities) target gap data →
        Accounts entities (text ++ renderInstruction target gap data) opened
          (events ++ [.processingInstruction (utf8 target) (utf8 data)]) count
  | characters {text : Text} {pieces : List Piece} {opened : List Tag} {events : List Event} {count more : Nat} :
      Accounts entities text opened events count →
      (∀ item ∈ pieces, item.Readable (p.dialect entities) ExcludedFromText) →
      p.References entities (renderPieces pieces) more →
        Accounts entities (text ++ renderPieces pieces) opened
          (events ++ flushText (utf8 (pieceValues pieces))) (count + more)
  | startTag {text : Text} {tag : Tag} {opened : List Tag} {events : List Event} {count more : Nat} :
      Accounts entities text opened events count → tag.Readable (p.dialect entities) →
      tag.attributes.length ≤ p.options.maxAttributesPerElement → opened.length < p.options.maxDepth →
      p.References entities (0x3C :: tag.render) more →
        Accounts entities (text ++ 0x3C :: tag.render) (tag :: opened)
          (events ++ [.startElement (tag.elementName p.options.namespaces (startTags (tag :: opened)))
            (attributesIn p.options.namespaces (startTags (tag :: opened)) tag.startTag)]) (count + more)
  | content {text : Text} {tag : Tag} {opened : List Tag} {events : List Event} {count : Nat} :
      Accounts entities text (tag :: opened) events count →
        Accounts entities (text ++ [0x3E]) (tag :: opened) events count
  | empty {text : Text} {tag : Tag} {opened : List Tag} {events : List Event} {count : Nat} :
      Accounts entities text (tag :: opened) events count →
        Accounts entities (text ++ [0x2F, 0x3E]) opened
          (events ++ [.endElement (tag.elementName p.options.namespaces (startTags (tag :: opened)))]) count
  | endTag {text space : Text} {tag : Tag} {opened : List Tag} {events : List Event} {count : Nat} :
      Accounts entities text (tag :: opened) events count → Spaces space →
        Accounts entities (text ++ renderEndTag tag.name space) opened
          (events ++ [.endElement (tag.elementName p.options.namespaces (startTags (tag :: opened)))]) count
  | finish {text : Text} {events : List Event} {count : Nat} :
      Accounts entities text [] events count → Accounts entities text [] (events ++ [.endDocument]) count

/-- Behind what is accounted for a comment, a section or an instruction has been begun, or
a text with so many references, the last of which may be cut short. -/
def LeftOff (entities : List (Bytes × Bytes)) (unfinished rest : Text) (begun : Nat) : Prop :=
  begun = 0 ∧ (∃ mark, (mark = 0x21 ∨ mark = 0x3F) ∧ [0x3C, mark] <+: unfinished ++ rest) ∨
    ∃ front cut count more, unfinished = front ++ cut ∧ p.References entities front count ∧
      p.Begins entities cut more ∧ begun = count + more

/-- At each call behind the origin, a front of the text accounts for the events up to the
call and for the references counted in it. -/
def CallsAccounted (origin : ParserState) (calls : List Delivery) : Prop :=
  ∀ before delivery, before ++ [delivery] <+: calls → origin.trace.length ≤ before.length →
    ∃ consumed rest opened events, origin.rest = consumed ++ rest ∧
      p.Accounts origin.dtd.entities (values consumed) opened events delivery.entityExpansions ∧
      opened.length ≤ p.options.maxDepth ∧ shown (before ++ [delivery]) = shown origin.trace ++ events

/-- How a run goes on from the origin: every call is accounted for, and what is behind the
text accounted for in the end is left off. -/
structure GoesOn (origin final : ParserState) : Prop where
  trace : origin.trace <+: final.trace
  calls : p.CallsAccounted origin final.trace
  reads : ∃ consumed unfinished opened events count begun, origin.rest = consumed ++ (unfinished ++ final.rest) ∧
    p.Accounts origin.dtd.entities (values consumed) opened events count ∧
    shown final.trace = shown origin.trace ++ events ∧
    p.LeftOff origin.dtd.entities (values unfinished) (values final.rest) begun ∧
    final.entityExpansions = count + begun

/-- The parser has accounted for what it has read, with events due, and stands inside the
elements of its stacks. -/
structure Stands (origin : ParserState) (stacked opened : List Tag) (due : List Event) (s : ParserState) : Prop where
  sound : Sound p.options.version s
  dtd : s.dtd = origin.dtd
  elementStack : s.elementStack.length = stacked.length
  elementNameStack : s.elementNameStack = elementNames p.options.namespaces stacked
  namespaceScopes : s.namespaceScopes = scopesOf p.options.namespaces (startTags stacked)
  trace : origin.trace <+: s.trace
  calls : p.CallsAccounted origin s.trace
  reads : ∃ consumed events, origin.rest = consumed ++ s.rest ∧
    p.Accounts origin.dtd.entities (values consumed) opened events s.entityExpansions ∧
    shown s.trace ++ due = shown origin.trace ++ events

variable {p} {origin : ParserState} {stacked opened : List Tag} {due : List Event}

theorem Accounts.opened_le {entities : List (Bytes × Bytes)} {text : Text} {events : List Event} {count : Nat}
    (accounts : p.Accounts entities text opened events count) : opened.length ≤ p.options.maxDepth := by
  induction accounts with
  | start => exact Nat.zero_le _
  | spaces _ _ ih | comment _ _ ih | cdata _ _ ih | instruction _ _ ih | characters _ _ _ ih | content _ ih
  | finish _ ih => exact ih
  | startTag _ _ _ deep _ _ => exact deep
  | empty _ ih | endTag _ _ ih => exact Nat.le_of_succ_le ih

/-! ## Steps -/

/-- From a position that is accounted for the parser stops at a reference or before one. -/
theorem Stands.breaksOff {s t : ParserState} (stands : p.Stands origin stacked opened [] s)
    (breaks : p.BreaksOff s t) : p.GoesOn origin t := by
  obtain ⟨consumed, events, split, accounts, delivered⟩ := stands.reads
  obtain ⟨front, cut, count, begun, splitRest, references, begins, counted⟩ := breaks.reads
  rw [stands.dtd] at references begins
  rw [List.append_nil] at delivered
  refine ⟨breaks.trace ▸ stands.trace, breaks.trace ▸ stands.calls, consumed, front ++ cut, opened, events,
    s.entityExpansions, count + begun, ?_, accounts, breaks.trace ▸ delivered, ?_, counted⟩
  · rw [split, splitRest, List.append_assoc]
  · rw [values_append]
    exact .inr ⟨_, _, count, begun, rfl, references, begins, rfl⟩

theorem Stands.goesOn {s : ParserState} (stands : p.Stands origin stacked opened [] s) : p.GoesOn origin s :=
  stands.breaksOff (Refers.refl s).stops

/-- What is read next is accounted for as well. -/
theorem Stands.read {s t : ParserState} {text : Text} {more : Nat} {behind : List Tag}
    (stands : p.Stands origin stacked opened [] s) (reads : Reads s t text []) (trace : t.trace = s.trace)
    (counted : t.entityExpansions = s.entityExpansions + more)
    (accounts : ∀ {read : Text} {events : List Event} {count : Nat},
      p.Accounts origin.dtd.entities read opened events count →
        p.Accounts origin.dtd.entities (read ++ text) behind (events ++ due) (count + more)) :
    p.Stands origin stacked behind due t where
  sound := reads.sound stands.sound
  dtd := reads.dtd.trans stands.dtd
  elementStack := (congrArg List.length reads.elementStack).trans stands.elementStack
  elementNameStack := reads.elementNameStack.trans stands.elementNameStack
  namespaceScopes := reads.namespaceScopes.trans stands.namespaceScopes
  trace := trace ▸ stands.trace
  calls := trace ▸ stands.calls
  reads := by
    obtain ⟨consumed, events, split, accountsHere, delivered⟩ := stands.reads
    obtain ⟨next, splitRest, rfl⟩ := reads.rest
    refine ⟨consumed ++ next, events ++ due, ?_, ?_, ?_⟩
    · rw [split, splitRest, List.append_assoc]
    · rw [values_append, counted]
      exact accounts accountsHere
    · rw [trace, ← List.append_assoc, ← delivered, List.append_nil]

theorem shown_deliver (s : ParserState) (event : Event) :
    shown (s.deliver event).trace = shown s.trace ++ [event.withoutLocations] := List.map_append

/-- The event that is due is delivered. -/
theorem Stands.deliver {s : ParserState} {event : Event}
    (stands : p.Stands origin stacked opened [event.withoutLocations] s) :
    p.Stands origin stacked opened [] (s.deliver event) where
  sound := ⟨stands.sound.rest, stands.sound.entities⟩
  dtd := stands.dtd
  elementStack := stands.elementStack
  elementNameStack := stands.elementNameStack
  namespaceScopes := stands.namespaceScopes
  trace := stands.trace.trans (List.prefix_append _ _)
  calls := by
    obtain ⟨consumed, events, split, accounts, delivered⟩ := stands.reads
    intro before delivery isFront beyond
    rcases List.prefix_concat_iff.mp isFront with last | earlier
    · obtain ⟨rfl, same⟩ := List.append_inj' last rfl
      cases same
      exact ⟨consumed, s.rest, opened, events, split, accounts, accounts.opened_le,
        (shown_deliver s event).trans delivered⟩
    · exact stands.calls before delivery earlier beyond
  reads := by
    obtain ⟨consumed, events, split, accounts, delivered⟩ := stands.reads
    refine ⟨consumed, events, split, accounts, ?_⟩
    rw [shown_deliver, List.append_nil, delivered]

theorem accounts_emitDue (event : Event) :
    Triple (p.Stands origin stacked opened [event.withoutLocations]) (p.emit event) (fun _ => p.Stands origin stacked opened [])
      fun _ => p.GoesOn origin := by
  intro s stands
  have delivered := stands.deliver
  unfold emit
  rw [run_modify_bind, run_read_bind]
  cases p.handler.respond (s.deliver event).events with
  | none =>
      refine ⟨fun value final ran => ?_, fun halt final ran => ?_⟩
      · cases ran
        exact delivered
      · cases ran
  | some exception =>
      refine ⟨fun value final ran => ?_, fun halt final ran => ?_⟩
      · cases ran
      · cases ran
        exact delivered.goesOn

/-! ## Markup -/

/-- Where a comment, a section or an instruction has been begun a throw leaves it off. -/
theorem Stands.leaves {s : ParserState} {mark : Nat} {rest : List DecodedChar}
    (stands : p.Stands origin stacked opened [] s) (isMark : mark = 0x21 ∨ mark = 0x3F)
    (begins : [0x3C, mark] <+: values s.rest) (ahead : Ahead s.rest rest) : p.GoesOn origin (s.withRest rest) := by
  obtain ⟨consumed, events, split, accounts, delivered⟩ := stands.reads
  obtain ⟨unfinished, splitRest⟩ := ahead
  rw [List.append_nil] at delivered
  refine ⟨stands.trace, stands.calls, consumed, unfinished, opened, events, s.entityExpansions, 0, ?_, accounts,
    delivered, .inl ⟨rfl, mark, isMark, ?_⟩, rfl⟩
  · rw [split, ← splitRest]
    rfl
  · rw [← values_append]
    change _ <+: values (unfinished ++ rest)
    rw [splitRest]
    exact begins

/-- What a scanner of markup returns is delivered in an event. -/
theorem accounts_markup {α : Type} {source : Cursor α} {event : α → Event} {mark : Nat} (scans : Scans source)
    (isMark : mark = 0x21 ∨ mark = 0x3F)
    (reads : ∀ {s t : ParserState} {value : α}, Sound p.options.version s → (scan source).run s = (.ok value, t) →
      ∃ text, Reads s t text [] ∧ ∀ {read : Text} {events : List Event} {count : Nat},
        p.Accounts s.dtd.entities read opened events count →
          p.Accounts s.dtd.entities (read ++ text) opened (events ++ [(event value).withoutLocations]) count) :
    Triple (fun s => p.Stands origin stacked opened [] s ∧ [0x3C, mark] <+: values s.rest)
      (scan source >>= fun value => p.emit (event value)) (fun _ => p.Stands origin stacked opened [])
      fun _ => p.GoesOn origin := by
  have scanned : Triple (fun s => p.Stands origin stacked opened [] s ∧ [0x3C, mark] <+: values s.rest) (scan source)
      (fun value => p.Stands origin stacked opened [(event value).withoutLocations]) fun _ => p.GoesOn origin := by
    intro s ⟨stands, begins⟩
    constructor
    · intro value t returned
      obtain ⟨text, readsText, accounts⟩ := reads stands.sound returned
      rw [stands.dtd] at accounts
      obtain ⟨rest, ran, rfl⟩ := run_scan_eq_ok_iff.mp returned
      have counted : (s.withRest rest).entityExpansions = s.entityExpansions + 0 := rfl
      exact stands.read readsText rfl counted accounts
    · intro halt t threw
      obtain ⟨rest, ran, rfl⟩ := run_onPart_eq_iff.mp threw
      exact stands.leaves isMark begins (scans.of_run ran)
  exact triple_bind scanned fun value => accounts_emitDue _

theorem prefix_of_startsWith {word : Text} {rest : List DecodedChar} {mark : Nat}
    (starts : startsWith word rest = true) (begins : [0x3C, mark] <+: word) : [0x3C, mark] <+: values rest :=
  begins.trans (startsWith_iff.mp starts)

theorem accounts_parseComment :
    Triple (fun s => p.Stands origin stacked opened [] s ∧ startsWith (u32 "<!--") s.rest = true) p.parseComment
      (fun _ => p.Stands origin stacked opened []) fun _ => p.GoesOn origin := by
  refine (accounts_markup p.takes_scanComment.obeys (.inl rfl) fun sound scanned => ?_).imp
    (fun _ here => ⟨here.1, prefix_of_startsWith here.2 (by decide)⟩) (fun _ _ here => here) fun _ _ here => here
  obtain ⟨body, readable, reads, rfl⟩ := p.scanComment_reads sound scanned
  exact ⟨_, reads, fun accounts => accounts.comment readable⟩

theorem accounts_parseCdata :
    Triple (fun s => p.Stands origin stacked opened [] s ∧ startsWith (u32 "<![CDATA[") s.rest = true) p.parseCdata
      (fun _ => p.Stands origin stacked opened []) fun _ => p.GoesOn origin := by
  refine (accounts_markup p.takes_scanCdata.obeys (.inl rfl) fun sound scanned => ?_).imp
    (fun _ here => ⟨here.1, prefix_of_startsWith here.2 (by decide)⟩) (fun _ _ here => here) fun _ _ here => here
  obtain ⟨body, readable, reads, rfl⟩ := p.scanCdata_reads sound scanned
  exact ⟨_, reads, fun accounts => accounts.cdata readable⟩

theorem accounts_parseProcessingInstruction :
    Triple (fun s => p.Stands origin stacked opened [] s ∧ startsWith (u32 "<?") s.rest = true)
      p.parseProcessingInstruction (fun _ => p.Stands origin stacked opened []) fun _ => p.GoesOn origin := by
  refine (accounts_markup p.takes_scanProcessingInstruction.obeys (.inr rfl) fun sound scanned => ?_).imp
    (fun _ here => ⟨here.1, prefix_of_startsWith here.2 (by decide)⟩) (fun _ _ here => here) fun _ _ here => here
  obtain ⟨target, gap, data, readable, reads, rfl⟩ := p.scanProcessingInstruction_reads sound scanned
  exact ⟨_, reads, fun accounts => accounts.instruction readable⟩

/-! ## Text and tags -/

variable (p) in
/-- Behind what is accounted for the parser has read a text. -/
def Amid (origin : ParserState) (stacked opened : List Tag) (text : Text) (s : ParserState) : Prop :=
  ∃ front, p.Stands origin stacked opened [] front ∧ Reads front s text [] ∧ p.Refers front s

theorem Stands.amid {s : ParserState} (stands : p.Stands origin stacked opened [] s) :
    p.Amid origin stacked opened [] s := ⟨s, stands, Reads.refl s, Refers.refl s⟩

theorem Amid.goesOn {text : Text} {s : ParserState} (amid : p.Amid origin stacked opened text s) :
    p.GoesOn origin s := by
  obtain ⟨front, stands, _, refers⟩ := amid
  exact stands.breaksOff refers.stops

theorem Amid.dtd {text : Text} {s : ParserState} (amid : p.Amid origin stacked opened text s) :
    s.dtd = origin.dtd := by
  obtain ⟨front, stands, reads, _⟩ := amid
  exact reads.dtd.trans stands.dtd

theorem Amid.namespaceScopes {text : Text} {s : ParserState} (amid : p.Amid origin stacked opened text s) :
    s.namespaceScopes = scopesOf p.options.namespaces (startTags stacked) := by
  obtain ⟨front, stands, reads, _⟩ := amid
  exact reads.namespaceScopes.trans stands.namespaceScopes

/-- The references of the text that has been read are those that have been counted. -/
theorem Refers.references {s t : ParserState} {text : Text} {events : List Event} (refers : p.Refers s t)
    (reads : Reads s t text events) :
    ∃ count, p.References s.dtd.entities text count ∧ t.entityExpansions = s.entityExpansions + count := by
  obtain ⟨consumed, count, split, references, counted⟩ := refers.reads
  obtain ⟨same, spelled, rfl⟩ := reads.rest
  rw [split, List.append_cancel_right_eq] at spelled
  exact ⟨count, spelled ▸ references, counted⟩

/-- The text is accounted for. -/
theorem Amid.stands {text : Text} {s : ParserState} {behind : List Tag}
    (amid : p.Amid origin stacked opened text s)
    (accounts : ∀ {read : Text} {events : List Event} {count more : Nat},
      p.References origin.dtd.entities text more → p.Accounts origin.dtd.entities read opened events count →
        p.Accounts origin.dtd.entities (read ++ text) behind (events ++ due) (count + more)) :
    p.Stands origin stacked behind due s := by
  obtain ⟨front, stands, reads, refers⟩ := amid
  obtain ⟨count, references, counted⟩ := refers.references reads
  rw [stands.dtd] at references
  exact stands.read reads refers.trace counted fun accountsHere => accounts references accountsHere

/-- A member that reads on, and counts what it reads. -/
theorem accounts_amid {α : Type} {source : ParserM α} {fact : α → Text → ParserState → Prop} {text : Text}
    (tallies : p.Tallies source)
    (reads : ∀ {s t : ParserState} {value : α}, Sound p.options.version s → source.run s = (.ok value, t) →
      ∃ next, fact value next t ∧ Reads s t next []) :
    Triple (p.Amid origin stacked opened text) source
      (fun value t => ∃ next, fact value next t ∧ p.Amid origin stacked opened (text ++ next) t)
      fun _ => p.GoesOn origin := by
  intro s amid
  obtain ⟨front, stands, readsFront, refers⟩ := amid
  constructor
  · intro value t returned
    obtain ⟨next, holds, readsNext⟩ := reads (readsFront.sound stands.sound) returned
    exact ⟨next, holds, front, stands, readsFront.trans readsNext, refers.trans (tallies.returns returned)⟩
  · intro halt t threw
    exact stands.breaksOff (refers.breaksOff (tallies.throws threw))

theorem plain_spaces {space : Text} (spaces : Spaces space) : 0x26 ∉ space := by
  intro member
  have isSpace := spaces _ member
  unfold Grammar.IsSpace at isSpace
  omega

theorem plain_name {name : Text} (named : Name name) : 0x26 ∉ name := by
  intro member
  have isChar := named.chars _ member
  unfold Grammar.NameChar Grammar.NameStartChar at isChar
  omega

/-! ## Content -/

theorem accounts_deliverText (text : Bytes) :
    Triple (p.Stands origin stacked opened (flushText text)) (p.deliverText text)
      (fun _ => p.Stands origin stacked opened []) fun _ => p.GoesOn origin := by
  unfold flushText
  refine triple_ite (fun isEmpty => ?_) fun nonempty => ?_
  · rw [if_pos isEmpty]
    exact triple_pure fun _ stands => stands
  · rw [if_neg nonempty]
    refine triple_bind (triple_modify fun s stands => ?_) fun _ => accounts_emitDue (.characters text)
    have marks : ∀ stack : List ValidationFrame,
        p.Stands origin stacked opened [.characters text] { s with validationStack := stack } := fun _ =>
      ⟨⟨stands.sound.rest, stands.sound.entities⟩, stands.dtd, stands.elementStack, stands.elementNameStack,
        stands.namespaceScopes, stands.trace, stands.calls, stands.reads⟩
    split
    · exact marks _
    · exact marks s.validationStack

theorem accounts_parseText :
    Triple (p.Stands origin stacked opened []) p.parseText (fun _ => p.Stands origin stacked opened [])
      fun _ => p.GoesOn origin := by
  let fact (text : Bytes) (next : Text) (t : ParserState) : Prop :=
    ∃ pieces, (∀ item ∈ pieces, item.Readable (p.dialect t.dtd.entities) ExcludedFromText) ∧
      next = renderPieces pieces ∧ text = utf8 (pieceValues pieces)
  refine triple_read_bind fun start => triple_bind ?_ fun text => accounts_deliverText text
  have looped : Triple (p.Amid origin stacked opened [])
      (loop (fun _ s => s.rest.length) .outOfFuel (p.textRound start) [])
      (fun text t => ∃ next, fact text next t ∧ p.Amid origin stacked opened ([] ++ next) t) fun _ => p.GoesOn origin := by
    refine accounts_amid (tallies_textLoop start []) fun sound looped => ?_
    obtain ⟨pieces, readable, reads, rfl, _⟩ := p.textLoop_reads sound looped
    rw [← reads.dtd] at readable
    exact ⟨_, ⟨pieces, readable, rfl, rfl⟩, reads⟩
  refine looped.imp (fun _ stands => stands.amid) (fun text t here => ?_) fun _ _ here => here
  obtain ⟨_, ⟨pieces, readable, rfl, rfl⟩, amid⟩ := here
  rw [amid.dtd] at readable
  exact amid.stands fun references accounts => accounts.characters readable references

/-- A scanner that crosses no ampersand reads on. -/
theorem accounts_amidScan {α : Type} {source : Cursor α} {fact : α → Text → ParserState → Prop} {text : Text}
    (plain : ConsumesOnly Plain source)
    (reads : ∀ {s t : ParserState} {value : α}, (scan source).run s = (.ok value, t) →
      ∃ next, fact value next t ∧ Reads s t next []) :
    Triple (p.Amid origin stacked opened text) (scan source)
      (fun value t => ∃ next, fact value next t ∧ p.Amid origin stacked opened (text ++ next) t)
      fun _ => p.GoesOn origin :=
  accounts_amid (tallies_scan plain) fun _ => reads

theorem accounts_amidWord {word text : Text} (plain : 0x26 ∉ word) (description : String) :
    Triple (p.Amid origin stacked opened text) (scan (p.expectSequence word description))
      (fun _ => p.Amid origin stacked opened (text ++ word)) fun _ => p.GoesOn origin := by
  let fact (_ : Unit) (next : Text) (_ : ParserState) : Prop := next = word
  have scanned : Triple (p.Amid origin stacked opened text) (scan (p.expectSequence word description))
      (fun value t => ∃ next, fact value next t ∧ p.Amid origin stacked opened (text ++ next) t)
      fun _ => p.GoesOn origin :=
    accounts_amidScan (plain_expectSequence plain description) fun returned =>
      ⟨word, rfl, p.expectSequence_reads returned⟩
  refine scanned.imp (fun _ here => here) (fun _ t here => ?_) fun _ _ here => here
  obtain ⟨next, same, amid⟩ := here
  rw [show next = word from same] at amid
  exact amid

theorem accounts_amidSign {value : Nat} {text : Text} (plain : value ≠ 0x26) (description : String) :
    Triple (p.Amid origin stacked opened text) (scan (p.expect value description))
      (fun _ => p.Amid origin stacked opened (text ++ [value])) fun _ => p.GoesOn origin := by
  let fact (_ : Unit) (next : Text) (_ : ParserState) : Prop := next = [value]
  have scanned : Triple (p.Amid origin stacked opened text) (scan (p.expect value description))
      (fun value t => ∃ next, fact value next t ∧ p.Amid origin stacked opened (text ++ next) t)
      fun _ => p.GoesOn origin :=
    accounts_amidScan (plain_expect plain description) fun returned => ⟨[value], rfl, p.expect_reads returned⟩
  refine scanned.imp (fun _ here => here) (fun _ t here => ?_) fun _ _ here => here
  obtain ⟨_, rfl, amid⟩ := here
  exact amid

theorem accounts_amidName {text : Text} :
    Triple (p.Amid origin stacked opened text) (scan p.parseName)
      (fun name t => ∃ next, (Name next ∧ name = utf8 next) ∧ p.Amid origin stacked opened (text ++ next) t)
      fun _ => p.GoesOn origin := by
  let fact (name : Bytes) (next : Text) (_ : ParserState) : Prop := Name next ∧ name = utf8 next
  have scanned : Triple (p.Amid origin stacked opened text) (scan p.parseName)
      (fun name t => ∃ next, fact name next t ∧ p.Amid origin stacked opened (text ++ next) t)
      fun _ => p.GoesOn origin := by
    refine accounts_amidScan p.plain_parseName fun returned => ?_
    obtain ⟨next, named, reads, _, rfl⟩ := p.parseName_reads returned
    exact ⟨next, ⟨named, rfl⟩, reads⟩
  exact scanned

theorem accounts_amidSpaces {text : Text} :
    Triple (p.Amid origin stacked opened text) (scan p.skipWhitespace)
      (fun _ t => ∃ next, Spaces next ∧ p.Amid origin stacked opened (text ++ next) t) fun _ => p.GoesOn origin := by
  let fact (_ : Unit) (next : Text) (_ : ParserState) : Prop := Spaces next
  have scanned : Triple (p.Amid origin stacked opened text) (scan p.skipWhitespace)
      (fun value t => ∃ next, fact value next t ∧ p.Amid origin stacked opened (text ++ next) t)
      fun _ => p.GoesOn origin := by
    refine accounts_amidScan p.plain_skipWhitespace fun returned => ?_
    obtain ⟨next, spaces, reads, _⟩ := p.skipWhitespace_reads returned
    exact ⟨next, spaces, reads⟩
  exact scanned

theorem accounts_parseEndTag {tag : Tag} (named : Name tag.name) :
    Triple (p.Stands origin (tag :: opened) (tag :: opened) []) (p.parseEndTag (utf8 tag.name))
      (fun _ => p.Stands origin (tag :: opened) opened []) fun _ => p.GoesOn origin := by
  have begun : Triple (p.Stands origin (tag :: opened) (tag :: opened) [])
      (scan (p.expectSequence (u32 "</") "end tag"))
      (fun _ => p.Amid origin (tag :: opened) (tag :: opened) (u32 "</")) fun _ => p.GoesOn origin :=
    (accounts_amidWord (by decide) _).imp (fun _ stands => stands.amid) (fun _ _ here => here) fun _ _ here => here
  refine triple_read_bind fun endStart => triple_bind begun fun _ => ?_
  refine triple_bind accounts_amidName fun endName => triple_exists fun nameText => ?_
  refine triple_of_fact fun isName => triple_bind accounts_amidSpaces fun _ => triple_exists fun space => ?_
  refine triple_of_fact fun spaces => triple_bind (accounts_amidSign (by decide) _) fun _ => ?_
  refine triple_ite (fun _ => triple_throw fun _ amid => amid.goesOn) fun matching => ?_
  have same : nameText = tag.name := by
    have bytes : utf8 nameText = utf8 tag.name := by simpa [isName.2] using matching
    exact utf8_injective (isName.1.legal .xml10) (named.legal .xml10) bytes
  subst same
  intro s amid
  have stands : p.Stands origin (tag :: opened) opened
      [.endElement (tag.elementName p.options.namespaces (startTags (tag :: opened)))] s := by
    refine amid.stands fun references accounts => ?_
    have plain : 0x26 ∉ renderEndTag tag.name space := by
      unfold renderEndTag
      simp [plain_name named, plain_spaces spaces]
    have spelled : u32 "</" ++ tag.name ++ space ++ [0x3E] = renderEndTag tag.name space := rfl
    rw [spelled] at references ⊢
    rw [references.eq_zero plain]
    exact accounts.endTag spaces
  rw [run_read_bind, stands.elementNameStack]
  exact accounts_emitDue _ s stands

/-! ## Elements -/

/-- A fact about what is passed on is kept by what comes between. -/
theorem triple_fact {α : Type} {source : ParserM α} {fact : Prop} :
    Triple (fun _ => fact) source (fun _ _ => fact) fun _ _ => True :=
  fun _ holds => ⟨fun _ _ _ => holds, fun _ _ _ => trivial⟩

variable (p) in
theorem few_parseAttributes :
    Triple (fun _ => True) p.parseAttributes
      (fun raws _ => raws.length ≤ p.options.maxAttributesPerElement) fun _ _ => True := by
  have kept : ∀ raws : List RawAttribute, Triple (fun _ => raws.length ≤ p.options.maxAttributesPerElement)
      (p.attributesRound raws) (RoundPost (fun raws _ => raws.length ≤ p.options.maxAttributesPerElement)
        fun raws _ => raws.length ≤ p.options.maxAttributesPerElement) fun _ _ => True := by
    intro raws
    refine triple_bind triple_fact fun _ => triple_read_bind fun _ => triple_read_bind fun _ => ?_
    refine triple_ite (fun _ => triple_pure fun _ few => few) fun _ => triple_read_bind fun location => ?_
    refine triple_bind triple_fact fun name => triple_ite (fun _ => triple_read_bind fun _ => ?_) fun _ => ?_
    · exact triple_throw fun _ _ => trivial
    refine triple_ite (fun _ => triple_read_bind fun _ => triple_throw fun _ _ => trivial) fun fits => ?_
    refine triple_bind triple_fact fun _ => triple_bind triple_fact fun _ => triple_bind triple_fact fun _ => ?_
    refine triple_bind triple_fact fun value => triple_pure fun _ _ => ?_
    rw [RoundPost, List.length_append]
    exact Nat.le_of_not_gt fits
  exact (triple_loop _ kept (fun _ _ _ => trivial) []).imp (fun _ _ => Nat.zero_le _) (fun _ _ few => few)
    fun _ _ _ => trivial

/-- The attributes of a tag are read. -/
theorem accounts_amidAttributes {nameText : Text} (named : Name nameText) :
    Triple (fun s => p.Amid origin opened opened (0x3C :: nameText) s ∧ StopsAt isNameChar s.rest) p.parseAttributes
      (fun raws t => ∃ tag : Tag, (tag.name = nameText ∧ tag.Readable (p.dialect origin.dtd.entities) ∧
          tag.attributes.length ≤ p.options.maxAttributesPerElement ∧
          raws.map RawAttribute.pair = tag.startTag.attributes) ∧
        p.Amid origin opened opened (0x3C :: tag.render) t) fun _ => p.GoesOn origin := by
  intro s ⟨⟨front, stands, readsFront, refers⟩, follows⟩
  constructor
  · intro raws t returned
    obtain ⟨attributes, after, readable, spaces, reads, pairs, distinct, first⟩ :=
      p.parseAttributes_reads (readsFront.sound stands.sound) returned
    rw [readsFront.dtd, stands.dtd] at readable
    have few := (p.few_parseAttributes s trivial).1 raws t returned
    have many := congrArg List.length pairs
    rw [List.length_map, List.length_map] at many
    refine ⟨⟨nameText, attributes, after⟩, ⟨rfl, ⟨named, readable, first follows, distinct, spaces⟩, many ▸ few,
      pairs⟩, front, stands, ?_, refers.trans (tallies_parseAttributes.returns returned)⟩
    have whole := readsFront.trans reads
    simpa [Tag.render] using whole
  · intro halt t threw
    exact stands.breaksOff (refers.breaksOff (tallies_parseAttributes.throws threw))

/-- A change of the stacks alone. -/
theorem GoesOn.of_same {s t : ParserState} (goesOn : p.GoesOn origin s) (rest : t.rest = s.rest)
    (trace : t.trace = s.trace) (counted : t.entityExpansions = s.entityExpansions) : p.GoesOn origin t := by
  refine ⟨trace ▸ goesOn.trace, trace ▸ goesOn.calls, ?_⟩
  rw [rest, trace, counted]
  exact goesOn.reads

/-- Behind the attributes of a tag its event is due once its element is on the stacks. -/
theorem Amid.opens {tag : Tag} {u : ParserState} {raws : List RawAttribute} {validation : List ValidationFrame}
    (amid : p.Amid origin opened opened (0x3C :: tag.render) u) (readable : tag.Readable (p.dialect origin.dtd.entities))
    (few : tag.attributes.length ≤ p.options.maxAttributesPerElement) (deep : opened.length < p.options.maxDepth)
    (pairs : raws.map RawAttribute.pair = tag.startTag.attributes) :
    p.Stands origin (tag :: opened) (tag :: opened)
      [(Event.startElement (nameIn p.options.namespaces (startTags (tag :: opened)) true (utf8 tag.name))
        (viewsOf p.options.namespaces (startTags (tag :: opened)) raws)).withoutLocations]
      { u with
        namespaceScopes := scopesOf p.options.namespaces (startTags (tag :: opened))
        elementStack := utf8 tag.name :: u.elementStack
        elementNameStack := nameIn p.options.namespaces (startTags (tag :: opened)) true (utf8 tag.name) ::
          u.elementNameStack
        validationStack := validation } := by
  have views := viewsOf_withoutLocation p.options.namespaces (startTags (tag :: opened)) raws (utf8 tag.name)
  rw [pairs] at views
  rw [Event.withoutLocations, views]
  have stands : p.Stands origin opened (tag :: opened)
      [.startElement (tag.elementName p.options.namespaces (startTags (tag :: opened)))
        (attributesIn p.options.namespaces (startTags (tag :: opened)) tag.startTag)] u :=
    amid.stands fun references accounts => accounts.startTag readable few deep references
  exact ⟨⟨stands.sound.rest, stands.sound.entities⟩, stands.dtd, congrArg (· + 1) stands.elementStack,
    congrArg (_ :: ·) stands.elementNameStack, rfl, stands.trace, stands.calls, stands.reads⟩

theorem accounts_openTag {nameText : Text} (named : Name nameText) (deep : opened.length < p.options.maxDepth)
    (start : SourceLocation) :
    Triple (fun s => p.Amid origin opened opened (0x3C :: nameText) s ∧ StopsAt isNameChar s.rest)
      (p.openElement (utf8 nameText) start)
      (fun elementName t => ∃ tag : Tag, (tag.name = nameText ∧
          elementName = tag.elementName p.options.namespaces (startTags (tag :: opened))) ∧
        p.Stands origin (tag :: opened) (tag :: opened) [] t) fun _ => p.GoesOn origin := by
  refine triple_bind (accounts_amidAttributes named) fun raws => triple_exists fun tag => triple_of_fact fun facts => ?_
  obtain ⟨rfl, readable, few, pairs⟩ := facts
  intro u amid
  have goesOn := amid.goesOn
  have scopes : p.collectNamespaceDeclarations raws :: u.namespaceScopes =
      scopesOf p.options.namespaces (startTags (tag :: opened)) := by
    rw [amid.namespaceScopes, collectNamespaceDeclarations_eq p (utf8 tag.name) raws, pairs]
    rfl
  unfold pushScope pushElement
  rw [run_modify_bind, run_read_bind]
  dsimp only
  rw [scopes]
  constructor
  · intro elementName t returned
    obtain ⟨_, _, resolved, rest⟩ := bind_eq_ok.mp returned
    obtain ⟨views, _, viewed, rest⟩ := bind_eq_ok.mp rest
    obtain ⟨_, rfl, rfl, rfl, rfl⟩ := p.resolveTag_ok_iff.mp ⟨resolved, viewed⟩
    rw [run_modify_bind] at rest
    obtain ⟨_, _, emitted, finished⟩ := bind_eq_ok.mp rest
    cases finished
    exact ⟨tag, ⟨rfl, rfl⟩, (accounts_emitDue _ _ (amid.opens readable few deep pairs)).1 _ _ emitted⟩
  · intro halt t threw
    have named : Obeys Eq Halt.IsThrown (p.resolveName (scopesOf p.options.namespaces (startTags (tag :: opened)))
        (utf8 tag.name) true start : ParserM QualifiedName) := p.obeys_resolveName _ _ true start
    have viewing : Obeys Eq Halt.IsThrown (p.attributeViews (scopesOf p.options.namespaces (startTags (tag :: opened)))
        raws [] : ParserM (List AttributeView)) := p.obeys_attributeViews _ raws []
    rcases bind_eq_error.mp threw with unresolved | ⟨_, _, resolved, threw⟩
    · obtain rfl := named.of_run unresolved
      exact goesOn.of_same rfl rfl rfl
    rcases bind_eq_error.mp threw with unviewed | ⟨views, _, viewed, threw⟩
    · obtain rfl := named.of_run resolved
      obtain rfl := viewing.of_run unviewed
      exact goesOn.of_same rfl rfl rfl
    obtain ⟨_, rfl, rfl, rfl, rfl⟩ := p.resolveTag_ok_iff.mp ⟨resolved, viewed⟩
    rw [run_modify_bind] at threw
    rcases bind_eq_error.mp threw with thrown | ⟨_, _, _, impossible⟩
    · exact (accounts_emitDue _ _ (amid.opens readable few deep pairs)).2 _ _ thrown
    · cases impossible

/-- Neither the text left nor the calls nor the count change. -/
structure Settles (s t : ParserState) : Prop where
  rest : t.rest = s.rest
  trace : t.trace = s.trace
  counted : t.entityExpansions = s.entityExpansions

instance : Std.Refl Settles := ⟨fun _ => ⟨rfl, rfl, rfl⟩⟩

instance : IsTrans ParserState Settles :=
  ⟨fun _ _ _ first second => ⟨second.rest.trans first.rest, second.trace.trans first.trace,
    second.counted.trans first.counted⟩⟩

variable (p) in
theorem settles_closeElement (location : SourceLocation) :
    Obeys Settles (fun _ => True) (p.finishValidationFrame location >>= fun _ => popElement) := by
  have change : ∀ update : ParserState → ParserState, (∀ s, Settles s (update s)) →
      Obeys Settles (fun _ => True) (Comp.modify update : ParserM Unit) := fun _ settles => obeys_modify settles
  have validated : ∀ frame, Obeys Settles (fun _ => True) (p.validateElement frame location) := fun frame =>
    (p.obeys_validateElement frame location).mono
      (fun s t only => by rw [only]; exact ⟨rfl, rfl, rfl⟩) fun _ _ => trivial
  refine obeys_bind (obeys_bind (obeys_read _) fun stack => obeys_bind ?_ fun frame => ?_) fun _ => ?_
  · cases stack with
    | nil => exact obeys_throw trivial
    | cons frame outer => exact obeys_pure _
  · refine obeys_bind (change _ fun _ => ⟨rfl, rfl, rfl⟩) fun _ => obeys_bind (validated frame) fun _ => ?_
    exact change _ fun _ => ⟨rfl, rfl, rfl⟩
  · refine obeys_bind (obeys_read _) fun s => obeys_ite (fun _ => obeys_throw trivial) fun _ => ?_
    exact change _ fun _ => ⟨rfl, rfl, rfl⟩

theorem accounts_closeElement {tag : Tag} (location : SourceLocation) :
    Triple (p.Stands origin (tag :: stacked) opened [])
      (p.finishValidationFrame location >>= fun _ => popElement) (fun _ => p.Stands origin stacked opened [])
      fun _ => p.GoesOn origin := by
  intro s stands
  constructor
  · intro result t returned
    have leaves := p.closeElement_leaves returned
    have settles := (p.settles_closeElement location).of_run returned
    refine ⟨stands.sound.ahead (leaves.rest ▸ List.suffix_rfl) (congrArg _ leaves.dtd), leaves.dtd.trans stands.dtd,
      ?_, ?_, ?_, leaves.trace ▸ stands.trace, leaves.trace ▸ stands.calls, ?_⟩
    · rw [leaves.elementStack, List.length_tail, stands.elementStack]
      rfl
    · rw [leaves.elementNameStack, stands.elementNameStack]
      rfl
    · rw [leaves.namespaceScopes, stands.namespaceScopes]
      unfold scopesOf
      cases p.options.namespaces with
      | enabled => rfl
      | disabled => rfl
    · rw [settles.rest, settles.trace, settles.counted]
      exact stands.reads
  · intro halt t threw
    have settles := (p.settles_closeElement location).of_run threw
    exact stands.goesOn.of_same settles.rest settles.trace settles.counted

/-- What parsing a child keeps. -/
abbrev Continues (p : Parser) (origin : ParserState) (element : ParserM Unit) : Prop :=
  ∀ opened, Triple (p.Stands origin opened opened []) element (fun _ => p.Stands origin opened opened [])
    fun _ => p.GoesOn origin

theorem accounts_parseContent {element : ParserM Unit} (continues : p.Continues origin element) {tag : Tag}
    (named : Name tag.name) :
    Triple (p.Stands origin (tag :: opened) (tag :: opened) []) (p.parseContent element (utf8 tag.name))
      (fun _ => p.Stands origin (tag :: opened) opened []) fun _ => p.GoesOn origin := by
  have again : ∀ {before : ParserState → Prop} {source : ParserM Unit},
      Triple before source (fun _ => p.Stands origin (tag :: opened) (tag :: opened) []) (fun _ => p.GoesOn origin) →
        Triple before (source >>= fun _ => pure (.next ()) : ParserM (LoopStep Unit Unit))
          (RoundPost (fun _ => p.Stands origin (tag :: opened) (tag :: opened) [])
            fun _ => p.Stands origin (tag :: opened) opened []) fun _ => p.GoesOn origin :=
    fun keeps => triple_bind keeps fun _ => triple_pure fun _ stands => stands
  have round : ∀ turn, Triple (p.Stands origin (tag :: opened) (tag :: opened) [])
      (p.contentRound element (utf8 tag.name) turn)
      (RoundPost (fun _ => p.Stands origin (tag :: opened) (tag :: opened) [])
        fun _ => p.Stands origin (tag :: opened) opened []) fun _ => p.GoesOn origin := by
    intro turn
    refine triple_read_bind fun _ => triple_ite (fun _ => ?_) fun _ => triple_read_bind fun _ => ?_
    · exact triple_read_bind fun _ => triple_throw fun _ stands => stands.goesOn
    refine triple_ite (fun _ => ?_) fun _ => triple_branch (again accounts_parseComment) ?_
    · exact triple_bind (accounts_parseEndTag named) fun _ => triple_pure fun _ stands => stands
    refine triple_branch (again accounts_parseCdata) (triple_branch (again accounts_parseProcessingInstruction) ?_)
    exact triple_read_bind fun _ => triple_ite (fun _ => again (continues _)) fun _ => again accounts_parseText
  exact triple_loop _ round (fun _ _ stands => stands.goesOn) ()

theorem tallies_parseTagName (start : SourceLocation) : p.Tallies (p.parseTagName start) := by
  intro origin
  refine triple_bind (tallies_scan (plain_expect (by decide) _) origin) fun _ => triple_read_bind fun next => ?_
  refine triple_ite (fun _ => tallies_throw _ origin) fun _ => ?_
  refine triple_bind (tallies_scan p.plain_parseName origin) fun name => triple_read_bind fun depth => ?_
  exact triple_ite (fun _ => tallies_throw _ origin) fun _ => triple_pure fun _ here => here

/-- A name is returned where there is room for one more element. -/
theorem parseTagName_deep {start : SourceLocation} {s t : ParserState} {name : Bytes}
    (returned : (p.parseTagName start).run s = (.ok name, t)) : t.elementStack.length < p.options.maxDepth := by
  obtain ⟨_, _, _, rest⟩ := bind_eq_ok.mp returned
  rw [run_look_bind] at rest
  split at rest
  · cases rest
  obtain ⟨_, _, _, rest⟩ := bind_eq_ok.mp rest
  rw [run_read_bind] at rest
  split at rest
  · cases rest
  · rename_i fits
    cases rest
    exact Nat.le_of_not_gt fits

theorem accounts_parseTagName (start : SourceLocation) :
    Triple (p.Stands origin opened opened []) (p.parseTagName start)
      (fun name t => ∃ nameText, (Name nameText ∧ name = utf8 nameText ∧ opened.length < p.options.maxDepth) ∧
        p.Amid origin opened opened (0x3C :: nameText) t ∧ StopsAt isNameChar t.rest) fun _ => p.GoesOn origin := by
  intro s stands
  constructor
  · intro name t returned
    obtain ⟨nameText, named, rfl, reads, stops⟩ := p.parseTagName_reads returned
    have deep := parseTagName_deep returned
    rw [reads.elementStack, stands.elementStack] at deep
    exact ⟨nameText, ⟨named, rfl, deep⟩, ⟨s, stands, reads, (tallies_parseTagName start).returns returned⟩, stops⟩
  · intro halt t threw
    exact stands.breaksOff ((tallies_parseTagName start).throws threw)

/-- Both exits of an element, in front of its validation. -/
theorem accounts_parseBody {element : ParserM Unit} (continues : p.Continues origin element) {tag : Tag}
    (named : Name tag.name) :
    Triple (p.Stands origin (tag :: opened) (tag :: opened) [])
      (p.parseBody element (utf8 tag.name) (tag.elementName p.options.namespaces (startTags (tag :: opened))))
      (fun _ => p.Stands origin (tag :: opened) opened []) fun _ => p.GoesOn origin := by
  refine triple_read_bind fun _ => triple_ite (fun _ => ?_) fun _ => ?_
  · have closed : Triple (p.Stands origin (tag :: opened) (tag :: opened) [])
        (scan (p.expectSequence (u32 "/>") "empty element close"))
        (fun _ => p.Stands origin (tag :: opened) opened
          [.endElement (tag.elementName p.options.namespaces (startTags (tag :: opened)))])
        fun _ => p.GoesOn origin := by
      refine (accounts_amidWord (by decide) _).imp (fun _ stands => stands.amid) (fun _ _ amid => ?_) fun _ _ here => here
      refine amid.stands fun references accounts => ?_
      rw [references.eq_zero (by decide)]
      exact accounts.empty
    exact triple_bind closed fun _ => accounts_emitDue (.endElement _)
  · have opens : Triple (p.Stands origin (tag :: opened) (tag :: opened) []) (scan (p.expect 0x3E "'>'"))
        (fun _ => p.Stands origin (tag :: opened) (tag :: opened) []) fun _ => p.GoesOn origin := by
      refine (accounts_amidSign (by decide) _).imp (fun _ stands => stands.amid) (fun _ _ amid => ?_) fun _ _ here => here
      refine amid.stands fun references accounts => ?_
      rw [references.eq_zero (by decide), List.append_nil]
      exact accounts.content
    exact triple_bind opens fun _ => accounts_parseContent continues named

theorem continues_parseElement (fuel : Nat) : p.Continues origin (p.parseElement fuel) := by
  induction fuel with
  | zero => exact fun _ => triple_throw fun _ stands => stands.goesOn
  | succ fuel ih =>
      intro opened
      refine triple_read_bind fun start => triple_bind (accounts_parseTagName start) fun name => ?_
      refine triple_exists fun nameText => triple_of_fact fun tagName => ?_
      obtain ⟨named, rfl, deep⟩ := tagName
      refine triple_bind (accounts_openTag named deep start) fun elementName => triple_exists fun tag => ?_
      refine triple_of_fact fun isTag => ?_
      obtain ⟨rfl, rfl⟩ := isTag
      exact triple_bind (accounts_parseBody ih named) fun _ => accounts_closeElement start

/-- Misc items are read outside the elements. -/
theorem accounts_skipMisc :
    Triple (p.Stands origin stacked [] []) p.skipMisc (fun _ => p.Stands origin stacked [] [])
      fun _ => p.GoesOn origin := by
  have spaces : Triple (p.Stands origin stacked [] []) (scan p.skipWhitespace)
      (fun _ => p.Stands origin stacked [] []) fun _ => p.GoesOn origin := by
    refine accounts_amidSpaces.imp (fun _ stands => stands.amid) (fun _ _ here => ?_) fun _ _ here => here
    obtain ⟨space, isSpace, amid⟩ := here
    refine amid.stands fun references accounts => ?_
    rw [references.eq_zero (plain_spaces isSpace), List.append_nil]
    exact accounts.spaces isSpace
  have round : ∀ turn, Triple (p.Stands origin stacked [] []) (p.skipMiscRound turn)
      (RoundPost (fun _ => p.Stands origin stacked [] []) fun _ => p.Stands origin stacked [] [])
      fun _ => p.GoesOn origin := by
    intro turn
    refine triple_read_bind fun before => triple_bind spaces fun _ => triple_read_bind fun consumed => ?_
    refine triple_branch ?_ (triple_branch ?_ ?_)
    · exact triple_bind accounts_parseComment fun _ => triple_pure fun _ stands => stands
    · exact triple_bind accounts_parseProcessingInstruction fun _ => triple_pure fun _ stands => stands
    · exact triple_ite (fun _ => triple_pure fun _ stands => stands) fun _ => triple_pure fun _ stands => stands
  exact triple_loop _ round (fun _ _ stands => stands.goesOn) ()

/-! ## The prologue -/

/-- What neither the text left nor the tables decide. -/
structure Apart (holds : ParserState → Prop) : Prop where
  withRest : ∀ {s : ParserState} (rest : List DecodedChar), holds s → holds (s.withRest rest)
  withDtd : ∀ {s : ParserState} (dtd : DtdState), holds s → holds { s with dtd }

section Prologue

variable {holds : ParserState → Prop} (apart : Apart holds)

include apart

/-- A member in front of the document element, at every exit. -/
abbrev Spares (holds : ParserState → Prop) {α : Type} (source : ParserM α) : Prop :=
  Triple holds source (fun _ => holds) fun _ => holds

theorem Apart.scan {α : Type} (source : Cursor α) : Spares holds (scan source) := by
  intro s here
  constructor
  · intro value t returned
    obtain ⟨rest, _, rfl⟩ := run_onPart_eq_iff.mp returned
    exact apart.withRest rest here
  · intro halt t threw
    obtain ⟨rest, _, rfl⟩ := run_onPart_eq_iff.mp threw
    exact apart.withRest rest here

theorem Apart.modifyDtd (update : DtdState → DtdState) : Spares holds (modifyDtd update) :=
  triple_modify fun _ here => apart.withDtd _ here

omit apart in
theorem spares_failHere {α : Type} (kind : ErrorKind) (message : String) :
    Spares holds (p.failHere kind message : ParserM α) :=
  triple_read_bind fun _ => triple_throw fun _ here => here

omit apart in
theorem spares_loop {β γ : Type} {size : β → ParserState → Nat} {body : β → ParserM (LoopStep β γ)}
    (round : ∀ current, Spares holds (body current)) (start : β) : Spares holds (loop size .outOfFuel body start) := by
  have kept : ∀ current, Triple holds (body current) (RoundPost (fun _ => holds) fun _ => holds) fun _ => holds := by
    intro current
    refine (round current).imp (fun _ here => here) (fun step _ here => ?_) fun _ _ here => here
    cases step with
    | next following => exact here
    | done result => exact here
  exact triple_loop _ kept (fun _ _ here => here) start

variable (p)

theorem Apart.enforceDtdDeclarationLimit : Spares holds p.enforceDtdDeclarationLimit := by
  refine triple_bind (apart.modifyDtd _) fun _ => triple_read_bind fun count => triple_ite (fun _ => ?_) fun _ => ?_
  · exact spares_failHere _ _
  · exact triple_pure fun _ here => here

omit p in
theorem Apart.declareElement (name model : Bytes) (location : SourceLocation) :
    Spares holds (declareElement name model location) := by
  have models : Spares holds (parseElementModel model location) := by
    unfold parseElementModel
    refine triple_ite (fun _ => triple_pure fun _ here => here) fun _ => ?_
    refine triple_ite (fun _ => triple_pure fun _ here => here) fun _ => ?_
    refine triple_ite (fun _ => triple_pure fun _ here => here) fun _ => ?_
    exact triple_ite (fun _ => triple_pure fun _ here => here) fun _ => triple_throw fun _ here => here
  refine triple_read_bind fun _ => triple_ite (fun _ => triple_throw fun _ here => here) fun _ => ?_
  exact triple_bind models fun declaration => apart.modifyDtd _

theorem Apart.parseElementDeclaration : Spares holds p.parseElementDeclaration := by
  refine triple_read_bind fun start => triple_bind (apart.enforceDtdDeclarationLimit p) fun _ => ?_
  refine triple_bind (apart.scan _) fun _ => triple_read_bind fun _ => ?_
  refine triple_ite (fun _ => spares_failHere _ _) fun _ => ?_
  refine triple_bind (apart.scan _) fun _ => triple_bind (apart.scan _) fun name => ?_
  refine triple_bind (apart.scan _) fun _ => triple_bind (apart.scan _) fun model => ?_
  exact triple_bind (apart.scan _) fun _ => apart.declareElement _ _ _

theorem Apart.parseEntityDeclaration : Spares holds p.parseEntityDeclaration := by
  refine triple_read_bind fun start => triple_bind (apart.enforceDtdDeclarationLimit p) fun _ => ?_
  refine triple_bind (apart.scan _) fun _ => triple_read_bind fun _ => ?_
  refine triple_ite (fun _ => spares_failHere _ _) fun _ => ?_
  refine triple_bind (apart.scan _) fun _ => triple_read_bind fun _ => ?_
  refine triple_ite (fun _ => spares_failHere _ _) fun _ => ?_
  refine triple_bind (apart.scan _) fun name => triple_bind (apart.scan _) fun _ => ?_
  refine triple_bind (apart.scan _) fun replacement => triple_ite (fun _ => triple_throw fun _ here => here) fun _ => ?_
  refine triple_bind (apart.scan _) fun _ => triple_bind (apart.scan _) fun _ => triple_read_bind fun _ => ?_
  exact triple_ite (fun _ => triple_throw fun _ here => here) fun _ => apart.modifyDtd _

theorem Apart.parseBracketedSubset : Spares holds p.parseBracketedSubset := by
  have again : ∀ {α : Type} {source : ParserM α}, Spares holds source →
      Spares holds (source >>= fun _ => pure (.next ()) : ParserM (LoopStep Unit Unit)) :=
    fun spares => triple_bind spares fun _ => triple_pure fun _ here => here
  refine triple_read_bind fun _ => triple_ite (fun _ => ?_) fun _ => triple_pure fun _ here => here
  refine triple_bind (apart.scan _) fun _ => triple_bind (spares_loop (fun turn => ?_) ()) fun _ => ?_
  · refine triple_read_bind fun _ => triple_ite (fun _ => spares_failHere _ _) fun _ => ?_
    refine triple_bind (apart.scan _) fun _ => triple_read_bind fun _ => ?_
    refine triple_ite (fun _ => triple_pure fun _ here => here) fun _ => triple_read_bind fun _ => ?_
    refine triple_ite (fun _ => again (apart.scan _)) fun _ => triple_read_bind fun _ => ?_
    refine triple_ite (fun _ => again (apart.parseElementDeclaration p)) fun _ => triple_read_bind fun _ => ?_
    exact triple_ite (fun _ => again (apart.parseEntityDeclaration p)) fun _ => spares_failHere _ _
  · exact triple_bind (apart.scan _) fun _ => apart.scan _

theorem Apart.resolveExternalSubsetIfNeeded : Spares holds p.resolveExternalSubsetIfNeeded := by
  refine triple_read_bind fun dtd => triple_ite (fun _ => triple_pure fun _ here => here) fun _ => ?_
  split
  · split
    · exact triple_throw fun _ here => here
    refine triple_ite (fun _ => spares_failHere _ _) fun _ => spares_loop (fun subset => ?_) _
    refine triple_ite (fun _ => triple_pure fun _ here => here) fun _ => triple_ite (fun _ => ?_) fun _ => ?_
    · refine triple_ite (fun _ => spares_failHere _ _) fun _ => triple_bind ?_ fun _ => triple_pure fun _ here => here
      refine triple_bind (apart.enforceDtdDeclarationLimit p) fun _ => ?_
      exact triple_ite (fun _ => spares_failHere _ _) fun _ => triple_read_bind fun _ => apart.declareElement _ _ _
    · exact spares_failHere _ _
  · exact spares_failHere _ _

theorem Apart.parseExternalId : Spares holds p.parseExternalId := by
  refine triple_read_bind fun _ => triple_ite (fun _ => ?_) fun _ => triple_read_bind fun _ => ?_
  · refine triple_bind (apart.scan _) fun _ => triple_bind (apart.scan _) fun _ => ?_
    refine triple_bind (apart.scan _) fun systemId => ?_
    exact triple_bind (apart.modifyDtd _) fun _ => apart.scan _
  refine triple_ite (fun _ => ?_) fun _ => triple_pure fun _ here => here
  refine triple_bind (apart.scan _) fun _ => triple_bind (apart.scan _) fun _ => ?_
  refine triple_bind (apart.scan _) fun _ => triple_bind (apart.scan _) fun _ => ?_
  refine triple_bind (apart.scan _) fun systemId => ?_
  exact triple_bind (apart.modifyDtd _) fun _ => apart.scan _

theorem Apart.parseDoctypeIfPresent : Spares holds p.parseDoctypeIfPresent := by
  refine triple_read_bind fun _ => triple_ite (fun _ => triple_pure fun _ here => here) fun _ => ?_
  refine triple_bind (apart.modifyDtd _) fun _ => triple_bind (apart.scan _) fun _ => ?_
  refine triple_read_bind fun _ => triple_ite (fun _ => spares_failHere _ _) fun _ => ?_
  refine triple_bind (apart.scan _) fun _ => triple_bind (apart.scan _) fun rootName => ?_
  refine triple_bind (apart.modifyDtd _) fun _ => triple_bind (apart.scan _) fun _ => ?_
  refine triple_bind (apart.parseExternalId p) fun _ => triple_bind (apart.parseBracketedSubset p) fun _ => ?_
  exact triple_bind (apart.scan _) fun _ => apart.resolveExternalSubsetIfNeeded p

end Prologue

/-- No start tag has been read and no reference has been counted. -/
structure Opening (s : ParserState) : Prop where
  counted : s.entityExpansions = 0
  outside : s.elementStack = [] ∧ s.elementNameStack = [] ∧ s.namespaceScopes = []
  calls : ∀ call ∈ s.trace, call.entityExpansions = 0 ∧ call.event.isOpening = false

theorem apart_opening : Apart Opening where
  withRest _ here := ⟨here.counted, here.outside, here.calls⟩
  withDtd _ here := ⟨here.counted, here.outside, here.calls⟩

variable (p) in
theorem spares_emit {event : Event} (other : event.isOpening = false) : Spares Opening (p.emit event) := by
  have delivers : Spares Opening (Comp.modify (ParserState.deliver event) : ParserM Unit) := by
    refine triple_modify fun s here => ⟨here.counted, here.outside, fun call member => ?_⟩
    rcases List.mem_append.mp member with earlier | last
    · exact here.calls call earlier
    · rw [List.mem_singleton.mp last]
      exact ⟨here.counted, other⟩
  refine triple_bind delivers fun _ => triple_read_bind fun answer => ?_
  cases answer with
  | none => exact triple_pure fun _ here => here
  | some exception => exact triple_throw fun _ here => here

variable (p) in
theorem spares_skipMisc : Spares Opening p.skipMisc := by
  refine spares_loop (fun turn => ?_) ()
  refine triple_read_bind fun before => triple_bind (apart_opening.scan _) fun _ => triple_read_bind fun consumed => ?_
  refine triple_read_bind fun _ => triple_ite (fun _ => triple_bind ?_ fun _ => triple_pure fun _ here => here) fun _ => ?_
  · exact triple_bind (apart_opening.scan _) fun _ => p.spares_emit rfl
  refine triple_read_bind fun _ => triple_ite (fun _ => triple_bind ?_ fun _ => triple_pure fun _ here => here) fun _ => ?_
  · exact triple_bind (apart_opening.scan _) fun _ => p.spares_emit rfl
  · exact triple_ite (fun _ => triple_pure fun _ here => here) fun _ => triple_pure fun _ here => here

variable (p) in
theorem spares_parseProlog : Spares Opening p.parseProlog := by
  refine triple_bind (p.spares_emit rfl) fun _ => triple_bind (apart_opening.scan _) fun _ => ?_
  refine triple_bind p.spares_skipMisc fun _ => triple_bind (apart_opening.parseDoctypeIfPresent p) fun _ => ?_
  exact p.spares_skipMisc

/-! ## Whole runs -/

variable (p) in
/-- The whole text behind the prologue is accounted for. -/
def Completes (origin final : ParserState) : Prop :=
  ∃ events, p.Accounts origin.dtd.entities (values origin.rest) [] events final.entityExpansions ∧
    shown final.trace = shown origin.trace ++ events

variable (p) in
/-- What a run has read is accounted for: it ends in the prologue, where there are neither
start tags nor references, or goes on behind it. -/
def RunAccounted (chars : List DecodedChar) (outcome : Outcome) : Prop :=
  (∃ halt, p.parseProlog.run { rest := chars } = (.error halt, outcome.2) ∧ outcome.1 = .error halt ∧
    Opening outcome.2) ∨
  ∃ origin, p.parseProlog.run { rest := chars } = (.ok (), origin) ∧ Opening origin ∧ p.GoesOn origin outcome.2 ∧
    (outcome.1 = .ok () → p.Completes origin outcome.2)

theorem stands_origin {chars : List DecodedChar} (legal : Legal p.options.version (values chars))
    (returned : p.parseProlog.run { rest := chars } = (.ok (), origin)) (opening : Opening origin) :
    p.Stands origin [] [] [] origin := by
  obtain ⟨_, sound, _, _⟩ := p.parseProlog_precedes legal returned
  obtain ⟨elements, names, scopes⟩ := opening.outside
  refine ⟨sound, rfl, congrArg List.length elements, names, ?_, List.prefix_rfl, ?_, [], [], rfl, ?_, rfl⟩
  · rw [scopes]
    unfold scopesOf
    cases p.options.namespaces with
    | enabled => rfl
    | disabled => rfl
  · intro before delivery isFront beyond
    have short := isFront.length_le
    rw [List.length_append, List.length_singleton] at short
    omega
  · rw [opening.counted]
    exact .start

variable (p) in
/-- What `parse` does behind the prologue. -/
def parseBehindProlog : ParserM Unit := do
  p.parseElement ((← look List.length) + 1)
  p.skipMisc
  if !(← look eof) then
    p.failHere .wellFormedness "extra content after document element"
  else
    p.emit .endDocument

theorem accounts_parseBehindProlog :
    Triple (p.Stands origin [] [] []) p.parseBehindProlog
      (fun _ t => p.GoesOn origin t ∧ p.Completes origin t) fun _ => p.GoesOn origin := by
  refine triple_read_bind fun size => triple_bind (continues_parseElement (size + 1) []) fun _ => ?_
  refine triple_bind accounts_skipMisc fun _ => triple_read_bind_of_eq fun atEnd => ?_
  refine triple_ite (fun _ => triple_read_bind fun _ => triple_throw fun _ here => here.1.goesOn) fun ended => ?_
  intro s ⟨stands, isEnd⟩
  have empty : s.rest = [] := by
    rw [← isEnd] at ended
    simpa [eof] using ended
  have due : p.Stands origin [] [] [Event.endDocument] s :=
    stands.read (Reads.refl s) rfl (Nat.add_zero _).symm fun accounts => by
      simpa using accounts.finish
  refine ⟨fun value t returned => ?_, (accounts_emitDue .endDocument s due).2⟩
  have delivered := (accounts_emitDue .endDocument s due).1 value t returned
  obtain ⟨rfl, _⟩ := p.emit_eq_ok_iff.mp returned
  refine ⟨delivered.goesOn, ?_⟩
  obtain ⟨consumed, events, split, accounts, shown⟩ := delivered.reads
  have all : origin.rest = consumed := by
    rw [split, show (s.deliver .endDocument).rest = [] from empty, List.append_nil]
  rw [List.append_nil] at shown
  exact ⟨events, all ▸ accounts, shown⟩

/-- Every run is accounted for. -/
theorem runAccounted_parse {chars : List DecodedChar} (legal : Legal p.options.version (values chars)) :
    p.RunAccounted chars (p.parse.run { rest := chars }) := by
  have begins : Opening { rest := chars } := ⟨rfl, ⟨rfl, rfl, rfl⟩, by simp⟩
  obtain ⟨returns, throws⟩ := p.spares_parseProlog _ begins
  have behind : p.parse = p.parseProlog >>= fun _ => p.parseBehindProlog := p.parse_eq_prolog
  rw [behind, run_bind]
  cases prolog : p.parseProlog.run { rest := chars } with
  | mk outcome origin =>
      cases outcome with
      | error halt => exact .inl ⟨halt, prolog, rfl, throws halt origin prolog⟩
      | ok value =>
          have opening := returns value origin prolog
          refine .inr ⟨origin, prolog, opening, ?_⟩
          obtain ⟨finishes, stops⟩ := accounts_parseBehindProlog origin (stands_origin legal prolog opening)
          dsimp only
          cases ran : p.parseBehindProlog.run origin with
          | mk outcome final =>
              cases outcome with
              | ok value =>
                  obtain ⟨goesOn, completes⟩ := finishes value final ran
                  exact ⟨goesOn, fun _ => completes⟩
              | error halt => exact ⟨stops halt final ran, fun returned => by cases returned⟩

end Parser

/-- Whatever the document and the handler, the limits hold throughout the run, with the
tags and the references of the text itself. -/
theorem limits_hold (xml : Bytes) (handler : SaxHandler) (options : ParserOptions) :
    ∃ endLocation, let p : Parser := ⟨handler, options, endLocation⟩
      HoldsLimits p xml (parseXmlDocument xml handler options) ∧
        ∀ document, decodeDocument xml options = .ok document →
          endLocation = document.endLocation ∧ p.RunAccounted document.chars (parseXmlDocument xml handler options) := by
  cases decoded : decodeDocument xml options with
  | error error =>
      rw [parseXmlDocument_of_error decoded]
      refine ⟨{}, ⟨?_, by simp, Nat.zero_le _, .inl (Nat.zero_le _), Nat.zero_le _⟩, by simp⟩
      by_cases fits : xml.length ≤ options.maxDocumentBytes
      · exact .inl fits
      · have nonempty : xml.isEmpty = false := by
          cases xml with
          | nil => exact absurd (Nat.zero_le _) fits
          | cons byte rest => rfl
        have tooLong : decodeDocument xml options = .error
            ⟨.resourceLimit, {}, "XML input exceeds max_document_bytes"⟩ := by
          unfold decodeDocument
          rw [nonempty, if_neg Bool.false_ne_true, if_pos (Nat.lt_of_not_le fits)]
          rfl
        rw [tooLong] at decoded
        cases decoded
        exact .inr rfl
  | ok document =>
      refine ⟨document.endLocation, holdsLimits_of_decoded decoded handler, fun other same => ?_⟩
      cases same
      refine ⟨rfl, ?_⟩
      rw [parseXmlDocument_of_ok decoded]
      exact Parser.runAccounted_parse (decodeDocument_legal decoded)

end XmlParser
