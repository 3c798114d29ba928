import XmlParser.DeclaredTables
import XmlParser.LexicalScoping

/-! Entities with a `<` in their replacement text, and the attribute values that refer
to them. -/

set_option autoImplicit false

namespace XmlParser

open XmlParser.Computation Comp Macros
open Grammar (Text Piece Content Attribute Tag Misc Spaces renderPieces renderMiscs elementContent
  ExcludedFromValue)

namespace Parser

variable (p : Parser)

/-! ## Markup behind references -/

/-- A reference in the text leads to an entity with a literal `<`, directly or through
other entities. -/
def ReachesMarkup (entities : List (Bytes × Bytes)) (text : Bytes) : Prop :=
  (p.entitySystem entities).Brings 0x3C text

/-- The references of the text can be expanded so that every `<` comes from a character
reference or a predefined name: none is copied from a replacement text, and no
declaration of a name that is put as a constant leads to one. -/
def OnlyEscapes (entities : List (Bytes × Bytes)) (text : Bytes) : Prop :=
  ∃ expansion, (p.entitySystem entities).Valid expansion ∧ (p.entitySystem entities).text expansion = text ∧
    0x3C ∉ expansion.copied ∧
    ∀ name ∈ expansion.constants, ¬ p.ReachesMarkup entities ((p.entitySystem entities).reference name)

variable {p} {entities : List (Bytes × Bytes)}

theorem unmarked_predefined {name value : Bytes} (known : predefined name = some value) : 0x3C ∉ name := by
  have spelled : ∀ escape ∈ ["lt", "gt", "amp", "apos", "quot"], 0x3C ∉ ascii escape := by decide
  intro member
  have other : ∀ escape ∈ ["lt", "gt", "amp", "apos", "quot"], name ≠ ascii escape := by
    rintro escape listed rfl
    exact spelled escape listed member
  simp only [List.forall_mem_cons] at other
  simp [predefined, other] at known

theorem unmarked_characterReference {version : XmlVersion} {name value : Bytes}
    (read : characterReference? version name = some value) : 0x3C ∉ name := by
  obtain ⟨c, isReference, _⟩ := characterReference?_eq_some_iff.mp read
  intro member
  have listed := looseCharRef?_chars isReference 0x3C (List.mem_map.mpr ⟨0x3C, member, rfl⟩)
  simp [Grammar.digit?] at listed

theorem unmarked_declared (declared : p.Declared entities) {name body : Bytes}
    (found : lookupKey name entities = some body) : 0x3C ∉ name := by
  obtain ⟨⟨text, isName, same⟩, _⟩ := declared.entries _ (lookupKey_entry found)
  intro member
  rw [show name = utf8 text from same, ← isName.toAscii, toAscii_eq_map] at member
  obtain ⟨c, inText, isMarkup⟩ := List.mem_map.mp member
  have named := (name_iff.mp isName).1 c inText
  rw [(asciiByte_eq_iff (by decide) (by decide)).mp isMarkup] at named
  exact absurd named (by decide)

/-- No reference that stands for something is spelled with a `<`. -/
theorem unmarked_reference (declared : p.Declared entities) (name : Bytes)
    (stands : (p.entitySystem entities).constant name ≠ none ∨ (p.entitySystem entities).body name ≠ none) :
    0x3C ∉ (p.entitySystem entities).reference name := by
  have unmarked : 0x3C ∉ name := by
    rcases stands with known | found
    · obtain ⟨value, isConstant⟩ := Option.ne_none_iff_exists'.mp known
      unfold entitySystem at isConstant
      dsimp only at isConstant
      split at isConstant
      · rename_i escape isPredefined
        exact unmarked_predefined isPredefined
      · exact unmarked_characterReference isConstant
    · obtain ⟨body, isBody⟩ := Option.ne_none_iff_exists'.mp found
      unfold entitySystem at isBody
      dsimp only at isBody
      split at isBody
      · cases isBody
      · exact unmarked_declared declared isBody
  have framed : ∀ byte ∈ (p.entitySystem entities).reference name, byte = 0x26 ∨ byte ∈ name ∨ byte = 0x3B := by
    intro byte member
    rcases List.mem_cons.mp member with first | rest
    · exact .inl first
    · rcases List.mem_append.mp rest with inside | last
      · exact .inr (.inl inside)
      · exact .inr (.inr (List.mem_singleton.mp last))
  intro member
  rcases framed _ member with first | inside | last
  · cases first
  · exact unmarked inside
  · cases last

/-- With the count used up only texts without references are expanded. -/
theorem literal_of_expandLoop {start : SourceLocation} {nested : Bytes → Comp Nat Halt Bytes}
    {text value : Bytes} {before after : Nat} (beyond : p.options.maxEntityExpansions < before)
    (returned : (loop (fun current _ => current.1.length) Halt.outOfFuel
      (p.expandRound entities start nested) (text, [])).run before = (.ok value, after)) :
    0x26 ∉ text := by
  intro member
  obtain ⟨front, rest, rfl, literal⟩ := List.eq_append_cons_of_mem member
  rw [p.expandLoop_copy entities start nested literal] at returned
  have shrinks := p.expandRound_shrinks entities start nested
  cases ran : (p.expandRound entities start nested (0x26 :: rest, [] ++ front)).run before with
  | mk outcome between =>
      cases outcome with
      | error error =>
          rw [run_loop_of_error shrinks ran] at returned
          cases returned
      | ok step =>
          obtain ⟨_, _, _, _, _, room, _⟩ := (p.expandRound_reference_eq_ok_iff).mp ran
          omega

theorem exists_expansion_of_expandEntityText {start : SourceLocation} {text value : Bytes}
    {before after : Nat}
    (returned : (p.expandEntityText entities start (p.options.maxEntityExpansions + 2) 0 text).run
      before = (.ok value, after)) :
    ∃ inner, (p.entitySystem entities).text inner = text ∧ (p.entitySystem entities).Valid inner := by
  by_cases room : before ≤ p.options.maxEntityExpansions
  · obtain ⟨_, expands, _⟩ := (expandEntityText_eq_ok_iff (by omega) (Nat.zero_le _) room).mp returned
    obtain ⟨inner, valid, spelled, _⟩ := expands.exists_expansion
    exact ⟨inner, spelled, valid⟩
  · unfold expandEntityText at returned
    rw [if_neg (Nat.not_lt.mpr (Nat.zero_le _))] at returned
    have literal := literal_of_expandLoop (Nat.not_le.mp room) returned
    exact ⟨text.foldr Expansion.symbol .nil, System.text_foldr_symbol text,
      System.valid_foldr_symbol literal⟩

/-- What resolves is a constant, or the body of the name has been expanded. -/
theorem stands_of_resolveReference {start : SourceLocation} {name value : Bytes} {before after : Nat}
    (resolved : (p.resolveReference entities name start).run before = (.ok value, after)) :
    (∃ constant, (p.entitySystem entities).constant name = some constant) ∨
      ((p.entitySystem entities).constant name = none ∧ ∃ inner,
        (p.entitySystem entities).body name = some ((p.entitySystem entities).text inner) ∧
          (p.entitySystem entities).Valid inner) := by
  cases known : (p.entitySystem entities).constant name with
  | some constant => exact .inl ⟨constant, rfl⟩
  | none =>
      refine .inr ⟨rfl, ?_⟩
      unfold resolveReference at resolved
      cases isPredefined : predefined name with
      | some constant =>
          unfold entitySystem at known
          dsimp only at known
          rw [isPredefined] at known
          cases known
      | none =>
          rw [isPredefined] at resolved
          dsimp only at resolved
          by_cases marked : name.head? = some 0x23
          · rw [if_pos (beq_iff_eq.mpr marked)] at resolved
            have read := ((p.parseCharacterReference_bytes_eq_ok_iff marked).mp resolved).1
            unfold entitySystem at known
            dsimp only at known
            rw [isPredefined, read] at known
            cases known
          · rw [if_neg (mt beq_iff_eq.mp marked)] at resolved
            cases found : lookupKey name entities with
            | none =>
                rw [found] at resolved
                dsimp only at resolved
                split at resolved
                · cases resolved
                · cases resolved
            | some replacement =>
                rw [found] at resolved
                obtain ⟨inner, spelled, valid⟩ := exists_expansion_of_expandEntityText resolved
                refine ⟨inner, ?_, valid⟩
                rw [spelled]
                exact (if_neg marked).trans found

/-- The text of an attribute value that can be read has an expansion, and no `<` of its
own. -/
theorem exists_expansion_of_pieces {pieces : List Piece} {quote : Nat}
    (readable : ∀ item ∈ pieces, item.Readable (p.dialect entities) (ExcludedFromValue quote)) :
    ∃ expansion, (p.entitySystem entities).Valid expansion ∧
      (p.entitySystem entities).text expansion = toAscii (renderPieces pieces) ∧ 0x3C ∉ expansion.symbols := by
  induction pieces with
  | nil => exact ⟨.nil, trivial, rfl, List.not_mem_nil⟩
  | cons item pieces ih =>
      obtain ⟨first, others⟩ := List.forall_mem_cons.mp readable
      obtain ⟨rest, valid, spelled, unmarked⟩ := ih others
      have front : renderPieces (item :: pieces) = item.render ++ renderPieces pieces := List.flatMap_cons
      rw [front, toAscii_append, ← spelled]
      cases item with
      | literal c =>
          obtain ⟨_, allowed⟩ := first
          unfold ExcludedFromValue at allowed
          simp only [not_or] at allowed
          refine ⟨.symbol (asciiByte c) rest, ⟨?_, valid⟩, rfl, ?_⟩
          · intro ampersand
            exact allowed.2.1 ((asciiByte_eq_iff (by decide) (by decide)).mp ampersand)
          · intro member
            rcases List.mem_cons.mp member with markup | later
            · exact allowed.1 ((asciiByte_eq_iff (by decide) (by decide)).mp markup.symm)
            · exact unmarked later
      | reference name value =>
          obtain ⟨closed, _, start, before, after, resolved⟩ := first
          have ended := closed_toAscii closed
          have render : toAscii (Piece.reference name value).render =
              (p.entitySystem entities).reference (toAscii name) := toAscii_reference name
          rw [render]
          rcases stands_of_resolveReference resolved with ⟨constant, known⟩ | ⟨unknown, inner, declared, validInner⟩
          · exact ⟨.constant (toAscii name) constant rest, ⟨ended, known, valid⟩, rfl, unmarked⟩
          · exact ⟨.call (toAscii name) inner rest, ⟨ended, unknown, declared, validInner, valid⟩, rfl, unmarked⟩

/-- An attribute value that can be read reaches no markup exactly if its expansion copies
none. -/
theorem not_reachesMarkup_iff (declared : p.Declared entities) {pieces : List Piece} {quote : Nat}
    (readable : ∀ item ∈ pieces, item.Readable (p.dialect entities) (ExcludedFromValue quote)) :
    ¬ p.ReachesMarkup entities (toAscii (renderPieces pieces)) ↔
      p.OnlyEscapes entities (toAscii (renderPieces pieces)) := by
  constructor
  · intro outside
    obtain ⟨expansion, valid, spelled, absent⟩ := exists_expansion_of_pieces readable
    rw [← spelled] at outside ⊢
    refine ⟨expansion, valid, rfl, fun copied => ?_, fun name put leads => ?_⟩
    · exact outside (valid.brings_of_mem_copied absent (.inl copied))
    · exact outside (valid.brings_of_mem_copied absent (.inr ⟨name, put, leads⟩))
  · intro ⟨expansion, valid, spelled, uncopied, constants⟩ reaches
    rw [← spelled] at reaches
    rcases valid.mem_copied_of_brings (unmarked_reference declared) reaches with copied | ⟨name, put, leads⟩
    · exact uncopied copied
    · exact constants name put leads

end Parser

/-! ## Attribute values of a document -/

/-- The texts of the attribute values of all tags, in document order. -/
def Grammar.Content.attributeTexts : Content → List Text
  | .nil => []
  | .piece _ next | .comment _ next | .cdata _ next | .instruction _ _ _ next => next.attributeTexts
  | .element tag children _ next =>
      tag.attributes.map (fun attr => renderPieces attr.value) ++
        (children.attributeTexts ++ next.attributeTexts)
  | .emptyElement tag next =>
      tag.attributes.map (fun attr => renderPieces attr.value) ++ next.attributeTexts

theorem pieces_of_attributes {d : Grammar.Dialect} {tag : Tag} (readable : tag.Readable d) :
    ∀ text ∈ tag.attributes.map fun attr => renderPieces attr.value, ∃ quote pieces,
      text = renderPieces pieces ∧ ∀ item ∈ pieces, item.Readable d (ExcludedFromValue quote) := by
  intro text member
  obtain ⟨attr, inTag, rfl⟩ := List.mem_map.mp member
  exact ⟨attr.quote, attr.value, rfl, (readable.attributes attr inTag).value⟩

theorem pieces_of_attributeTexts {d : Grammar.Dialect} {content : Content} (readable : content.Readable d) :
    ∀ text ∈ content.attributeTexts, ∃ quote pieces,
      text = renderPieces pieces ∧ ∀ item ∈ pieces, item.Readable d (ExcludedFromValue quote) := by
  induction content with
  | nil => exact List.forall_mem_nil _
  | piece item next ih => exact ih readable.2
  | comment body next ih => exact ih readable.2
  | cdata body next ih => exact ih readable.2
  | instruction target gap data next ih => exact ih readable.2
  | element tag children closeSpace next ihChildren ih =>
      obtain ⟨tagReadable, childrenReadable, _, nextReadable⟩ := readable
      exact List.forall_mem_append.mpr ⟨pieces_of_attributes tagReadable,
        List.forall_mem_append.mpr ⟨ihChildren childrenReadable, ih nextReadable⟩⟩
  | emptyElement tag next ih =>
      exact List.forall_mem_append.mpr ⟨pieces_of_attributes readable.1, ih readable.2⟩

namespace Parser

variable (p : Parser)

/-- No attribute value of the document element in front of the parser refers to markup. -/
def MarkupStaysOut (s : ParserState) : Prop :=
  ∀ (element : Content) epilog, element.Readable (p.dialect s.dtd.entities) →
    values s.rest = element.render ++ renderMiscs epilog →
      ∀ text ∈ element.attributeTexts, ¬ p.ReachesMarkup s.dtd.entities (toAscii text)

/-- In every attribute value of the document element in front of the parser a `<` comes
from escapes only. -/
def EscapesOnly (s : ParserState) : Prop :=
  ∀ (element : Content) epilog, element.Readable (p.dialect s.dtd.entities) →
    values s.rest = element.render ++ renderMiscs epilog →
      ∀ text ∈ element.attributeTexts, p.OnlyEscapes s.dtd.entities (toAscii text)

variable {p}

theorem markupStaysOut_iff {s : ParserState} (declared : p.Declared s.dtd.entities) :
    p.MarkupStaysOut s ↔ p.EscapesOnly s := by
  have each : ∀ element : Content, element.Readable (p.dialect s.dtd.entities) → ∀ text ∈ element.attributeTexts,
      (¬ p.ReachesMarkup s.dtd.entities (toAscii text) ↔ p.OnlyEscapes s.dtd.entities (toAscii text)) := by
    intro element readable text member
    obtain ⟨quote, pieces, rfl, items⟩ := pieces_of_attributeTexts readable text member
    exact not_reachesMarkup_iff declared items
  constructor
  · intro stays element epilog readable rendered text member
    exact (each element readable text member).mp (stays element epilog readable rendered text member)
  · intro escapes element epilog readable rendered text member
    exact (each element readable text member).mpr (escapes element epilog readable rendered text member)

end Parser

/-! ## Documents -/

/-- The document element follows the prologue, and its attribute values refer to no
markup if and only if every `<` in their expansions comes from escapes. -/
def MarkupDecided (xml : Bytes) (handler : SaxHandler) (options : ParserOptions) : Prop :=
  ∃ decoded s tag body epilog, decodeDocument xml options = .ok decoded ∧
    let p : Parser := ⟨handler, options, decoded.endLocation⟩
    let element := elementContent tag body .nil
    p.parseProlog.run { rest := decoded.chars } = (.ok (), s) ∧
      element.Readable (p.dialect s.dtd.entities) ∧
      values s.rest = element.render ++ renderMiscs epilog ∧
      (p.MarkupStaysOut s ↔ p.EscapesOnly s)

theorem markupDecided_of_accepted (xml : Bytes) (handler : SaxHandler) (options : ParserOptions)
    (accepted : (parseXmlDocument xml handler options).1 = .ok ()) :
    MarkupDecided xml handler options := by
  unfold parseXmlDocument at accepted
  cases ran : decodeDocument xml options with
  | error error =>
      rw [ran] at accepted
      cases accepted
  | ok decoded =>
      rw [ran] at accepted
      let p : Parser := ⟨handler, options, decoded.endLocation⟩
      obtain ⟨s, _, tag, body, epilog, prolog, _, readable, _, _, rendered, _⟩ :=
        p.parse_reads_element (decodeDocument_legal ran) (Prod.ext accepted rfl)
      exact ⟨decoded, s, tag, body, epilog, ran, prolog, readable, rendered,
        Parser.markupStaysOut_iff (Parser.declared_of_parseProlog prolog)⟩

theorem markupDecided_of_accepted_sample :
    MarkupDecided (ascii "<!DOCTYPE a [<!ENTITY e 'x&lt;'>]><a b='&e;'/>") .recording {} :=
  markupDecided_of_accepted _ _ _ (by decide +kernel)

/-- The element `<a b='&e;'/>`, where the entity stands for `<`. -/
def referringElement : Content :=
  .emptyElement
    { name := u32 "a"
      attributes := [{
        before := [0x20], name := u32 "b", beforeEquals := [], afterEquals := [], quote := 0x27
        value := [.reference (u32 "e") [0x3C]] }]
      after := [] }
    .nil

theorem referringElement_readable {p : Parser} {entities : List (Bytes × Bytes)}
    (denotes : (p.dialect entities).denotes (u32 "e") [0x3C]) :
    referringElement.Readable (p.dialect entities) := by
  refine ⟨?_, trivial⟩
  exact {
    name := name_iff.mpr (by decide)
    attributes := by
      refine List.forall_mem_singleton.mpr ?_
      exact {
        before := List.forall_mem_singleton.mpr (.inl rfl)
        name := name_iff.mpr (by decide)
        beforeEquals := List.forall_mem_nil _
        afterEquals := List.forall_mem_nil _
        quote := .inl rfl
        value := List.forall_mem_singleton.mpr ⟨by decide, denotes⟩ }
    first := by
      intro attr isFirst
      cases isFirst
      exact List.cons_ne_nil _ _
    distinct := List.nodup_singleton _
    after := List.forall_mem_nil _ }

def referringDocument : Bytes := ascii "<!DOCTYPE a [<!ENTITY e '<'>]><a b='&e;'/>"

def referringChars : DecodedDocument :=
  match decodeDocument referringDocument {} with
  | .ok decoded => decoded
  | .error _ => ⟨[], {}⟩

def referringParser : Parser := ⟨.recording, {}, referringChars.endLocation⟩

/-- The state behind the prologue. -/
def referringState : ParserState :=
  (referringParser.parseProlog.run { rest := referringChars.chars }).2

theorem referringParser_denotes :
    (referringParser.dialect [(ascii "e", ascii "<")]).denotes (u32 "e") [0x3C] := by
  have resolved : (referringParser.resolveReference [(ascii "e", ascii "<")] (toAscii (u32 "e")) {}).run 1 =
      (.ok (utf8 [0x3C]), 1) := by decide
  exact ⟨List.forall_mem_singleton.mpr (by decide), {}, 1, 1, resolved⟩

theorem referringParser_reaches :
    referringParser.ReachesMarkup [(ascii "e", ascii "<")] (toAscii (u32 "&e;")) := by
  refine ⟨ascii "e", ascii "<", ⟨ascii "e", ?_, .refl⟩, by decide, by decide⟩
  exact System.mentions_reference (by decide)

/-- An entity with the text `<` in an attribute value is accepted. -/
theorem not_markupStaysOut :
    (parseXmlDocument referringDocument .recording {}).1 = .ok () ∧
      decodeDocument referringDocument {} = .ok referringChars ∧
      referringParser.parseProlog.run { rest := referringChars.chars } = (.ok (), referringState) ∧
      ¬ referringParser.MarkupStaysOut referringState := by
  have prolog : (referringParser.parseProlog.run { rest := referringChars.chars }).1 = .ok () := by
    decide +kernel
  have table : referringState.dtd.entities = [(ascii "e", ascii "<")] := by decide +kernel
  have rendered : values referringState.rest = referringElement.render ++ renderMiscs [] := by
    decide +kernel
  have accepted : (parseXmlDocument referringDocument .recording {}).1 = .ok () := by decide +kernel
  have decodes : decodeDocument referringDocument {} = .ok referringChars := by decide +kernel
  have isState : referringParser.parseProlog.run { rest := referringChars.chars } = (.ok (), referringState) := by
    unfold referringState
    rw [← prolog]
  have readable : referringElement.Readable (referringParser.dialect referringState.dtd.entities) := by
    rw [table]
    exact referringElement_readable referringParser_denotes
  have member : u32 "&e;" ∈ referringElement.attributeTexts := by decide
  refine ⟨accepted, decodes, isState, fun stays => ?_⟩
  have outside := stays referringElement [] readable rendered (u32 "&e;") member
  rw [table] at outside
  exact outside referringParser_reaches

end XmlParser
