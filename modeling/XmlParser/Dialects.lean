import XmlParser.Accepting
import XmlParser.DecoderProperties

/-! The dialect that the parser reads without declarations, beside those of the
recommendations. -/

set_option autoImplicit false

namespace XmlParser

open Grammar

theorem isValidXml10Char_iff {c : Nat} : isValidXml10Char c = true ↔ Char10 c := by
  simp only [isValidXml10Char, Char10, Bool.or_eq_true, Bool.and_eq_true, beq_iff_eq,
    decide_eq_true_iff]
  omega

theorem isValidXml11Char_iff {c : Nat} : isValidXml11Char c = true ↔ Char11 c := by
  simp only [isValidXml11Char, Char11, Bool.or_eq_true, Bool.and_eq_true, decide_eq_true_iff]
  omega

/-- `Char` of a version. -/
def CharOf (version : XmlVersion) (c : Nat) : Prop := isValidXmlChar c version = true

/-- What the parser reads: every `Char` literally, and references with either
spelling of the hexadecimal mark. -/
def looseDialect (version : XmlVersion) : Dialect := ⟨CharOf version, LooseDenotes (CharOf version)⟩

/-- What the recommendation of a version allows. -/
def recommendedDialect : XmlVersion → Dialect
  | .xml10 => Dialect.xml10
  | .xml11 => Dialect.xml11

theorem looseCharRef?_of_charRef? {name : Text} {c : Nat} (read : charRef? name = some c) :
    looseCharRef? name = some c := by
  unfold looseCharRef?
  split
  · rename_i digits
    unfold charRef? at read
    split at read
    · rename_i same
      cases same
    · rename_i same
      cases same
      cases read
    · cases read
  · exact read

theorem LooseDenotes.of_denotes {legal : Nat → Prop} {name value : Text}
    (denotes : Denotes legal name value) : LooseDenotes legal name value := by
  obtain ⟨c, rfl, read⟩ := denotes
  refine ⟨c, rfl, ?_⟩
  cases read with
  | inl known => exact .inl known
  | inr numeric => exact .inr ⟨looseCharRef?_of_charRef? numeric.1, numeric.2⟩

theorem recommended_within_loose (version : XmlVersion) :
    (recommendedDialect version).Within (looseDialect version) := by
  cases version with
  | xml10 =>
      refine ⟨fun c => isValidXml10Char_iff.mpr, fun name value denotes => LooseDenotes.of_denotes ?_⟩
      obtain ⟨c, rfl, read⟩ := denotes
      exact ⟨c, rfl, read.imp_right fun numeric => ⟨numeric.1, isValidXml10Char_iff.mpr numeric.2⟩⟩
  | xml11 =>
      refine ⟨fun c allowed => isValidXml11Char_iff.mpr allowed.1,
        fun name value denotes => LooseDenotes.of_denotes ?_⟩
      obtain ⟨c, rfl, read⟩ := denotes
      exact ⟨c, rfl, read.imp_right fun numeric => ⟨numeric.1, isValidXml11Char_iff.mpr numeric.2⟩⟩

/-! ## The dialect of the parser -/

/-- The predefined names and what they stand for are legal. -/
theorem legal_of_predefined? {version : XmlVersion} {name : Text} {c : Nat}
    (known : predefined? name = some c) : Legal version name ∧ CharOf version c := by
  have legal : ∀ entry ∈ [([0x6C, 0x74], 0x3C), ([0x67, 0x74], 0x3E), ([0x61, 0x6D, 0x70], 0x26),
      ([0x61, 0x70, 0x6F, 0x73], 0x27), ([0x71, 0x75, 0x6F, 0x74], 0x22)],
      (∀ c ∈ entry.1, isValidXmlChar c version = true) ∧ isValidXmlChar entry.2 version = true := by
    cases version with
    | xml10 => decide
    | xml11 => decide
  exact legal _ (predefined?_mem known)

theorem legal_of_digits {version : XmlVersion} {digits : Text}
    (all : ∀ c ∈ digits, (digit? c).isSome = true) : Legal version digits := by
  intro c member
  have found := all c member
  have small : ∀ c < 0x80, (digit? c).isSome = true → isValidXmlChar c version = true := by
    cases version with
    | xml10 => decide +kernel
    | xml11 => decide +kernel
  refine small c ?_ found
  unfold digit? at found
  split at found
  · omega
  split at found
  · omega
  split at found
  · omega
  · cases found

theorem legal_of_charRef {version : XmlVersion} {name : Text} {c : Nat}
    (read : looseCharRef? name = some c) : Legal version name := by
  have marks : ∀ mark ∈ [0x23, 0x58, 0x78], isValidXmlChar mark version = true := by
    cases version with
    | xml10 => decide
    | xml11 => decide
  intro x member
  rcases looseCharRef?_chars read x member with rfl | rfl | rfl | isDigit
  · exact marks _ (by decide)
  · exact marks _ (by decide)
  · exact marks _ (by decide)
  · exact legal_of_digits (List.forall_mem_singleton.mpr isDigit) x List.mem_cons_self

theorem LooseDenotes.legal {version : XmlVersion} {name value : Text}
    (denotes : LooseDenotes (CharOf version) name value) :
    Legal version name ∧ Legal version value := by
  obtain ⟨c, rfl, read⟩ := denotes
  cases read with
  | inl known =>
      obtain ⟨legalName, legal⟩ : Legal version name ∧ CharOf version c := legal_of_predefined? known
      exact ⟨legalName, legal_cons.mpr ⟨legal, Legal.nil version⟩⟩
  | inr numeric =>
      exact ⟨legal_of_charRef numeric.1, legal_cons.mpr ⟨numeric.2, Legal.nil version⟩⟩

/-- Without declarations the parser reads the loose dialect of its version. -/
theorem Parser.dialect_denotes_iff (p : Parser) {name value : Text} :
    (p.dialect []).denotes name value ↔ LooseDenotes (CharOf p.options.version) name value := by
  constructor
  · intro denotes
    obtain ⟨legal, start, before, after, resolved⟩ := denotes
    obtain ⟨rfl, other, same, loose⟩ := p.resolveReference_eq_ok_iff.mp resolved
    rw [utf8_injective legal (LooseDenotes.legal loose).2 same]
    exact loose
  · intro loose
    exact ⟨(LooseDenotes.legal loose).2, {}, 0, 0,
      p.resolveReference_eq_ok_iff.mpr ⟨rfl, value, rfl, loose⟩⟩

theorem Parser.loose_within_dialect (p : Parser) :
    (looseDialect p.options.version).Within (p.dialect []) :=
  ⟨fun _ legal => legal, fun _ _ => p.dialect_denotes_iff.mpr⟩

theorem Parser.dialect_within_loose (p : Parser) :
    (p.dialect []).Within (looseDialect p.options.version) :=
  ⟨fun _ legal => legal, fun _ _ => p.dialect_denotes_iff.mp⟩

/-! ## The spelling of a readable tree is legal -/

section Spelling

variable {version : XmlVersion}

theorem legal_of_spaces {space : Text} (spaces : Spaces space) : Legal version space := by
  intro c member
  have legal : ∀ c ∈ [0x20, 0x09, 0x0A, 0x0D], isValidXmlChar c version = true := by
    cases version with
    | xml10 => decide
    | xml11 => decide
  rcases spaces c member with rfl | rfl | rfl | rfl
  · exact legal _ (by decide)
  · exact legal _ (by decide)
  · exact legal _ (by decide)
  · exact legal _ (by decide)

/-- The marks of the productions. -/
theorem valid_mark : ∀ c ∈ [0x21, 0x22, 0x26, 0x27, 0x2D, 0x2F, 0x3B, 0x3C, 0x3D, 0x3E, 0x3F, 0x41,
    0x43, 0x44, 0x54, 0x5B, 0x5D], isValidXmlChar c version = true := by
  cases version with
  | xml10 => decide
  | xml11 => decide

theorem legal_of_marks {marks : Text} (known : ∀ c ∈ marks, c ∈ [0x21, 0x22, 0x26, 0x27, 0x2D, 0x2F,
    0x3B, 0x3C, 0x3D, 0x3E, 0x3F, 0x41, 0x43, 0x44, 0x54, 0x5B, 0x5D]) : Legal version marks :=
  fun c member => valid_mark c (known c member)

theorem Grammar.Piece.Readable.legal {excluded : Nat → Prop} {item : Piece}
    (readable : item.Readable (looseDialect version) excluded) : Legal version item.render := by
  cases item with
  | literal c => exact legal_cons.mpr ⟨readable.1, Legal.nil version⟩
  | reference name value =>
      exact legal_cons.mpr ⟨valid_mark _ (by decide), legal_append.mpr
        ⟨(LooseDenotes.legal readable.2).1, legal_of_marks (by decide)⟩⟩

theorem legal_renderPieces {excluded : Nat → Prop} {pieces : List Piece}
    (readable : ∀ item ∈ pieces, item.Readable (looseDialect version) excluded) :
    Legal version (renderPieces pieces) := by
  intro c member
  obtain ⟨item, isItem, inside⟩ := List.mem_flatMap.mp member
  exact (readable item isItem).legal c inside

theorem Grammar.Attribute.Readable.legal {attr : Attribute}
    (readable : attr.Readable (looseDialect version)) : Legal version attr.render := by
  have quote : isValidXmlChar attr.quote version = true := by
    rcases readable.quote with same | same
    · rw [same]
      exact valid_mark _ (by decide)
    · rw [same]
      exact valid_mark _ (by decide)
  unfold Attribute.render
  simp only [legal_append, legal_cons]
  exact ⟨⟨⟨legal_of_spaces readable.before, readable.name.legal version⟩,
    legal_of_spaces readable.beforeEquals⟩, valid_mark _ (by decide),
    legal_of_spaces readable.afterEquals, quote, legal_renderPieces readable.value, quote,
    Legal.nil version⟩

theorem Grammar.Tag.Readable.legal {tag : Tag} (readable : tag.Readable (looseDialect version)) :
    Legal version tag.render := by
  refine legal_append.mpr ⟨legal_append.mpr ⟨readable.name.legal version, ?_⟩,
    legal_of_spaces readable.after⟩
  intro c member
  obtain ⟨attr, isAttribute, inside⟩ := List.mem_flatMap.mp member
  exact (readable.attributes attr isAttribute).legal c inside

theorem Grammar.CommentReadable.legal {body : Text}
    (readable : CommentReadable (looseDialect version) body) : Legal version (renderComment body) :=
  legal_append.mpr ⟨legal_append.mpr ⟨legal_of_marks (by decide), readable.literals⟩,
    legal_of_marks (by decide)⟩

theorem Grammar.CdataReadable.legal {body : Text}
    (readable : CdataReadable (looseDialect version) body) : Legal version (renderCdata body) :=
  legal_append.mpr ⟨legal_append.mpr ⟨legal_of_marks (by decide), readable.literals⟩,
    legal_of_marks (by decide)⟩

theorem Grammar.InstructionReadable.legal {target gap data : Text}
    (readable : InstructionReadable (looseDialect version) target gap data) :
    Legal version (renderInstruction target gap data) := by
  unfold renderInstruction
  simp only [legal_append]
  exact ⟨⟨⟨⟨legal_of_marks (by decide), readable.name.legal version⟩,
    legal_of_spaces readable.spaces⟩, readable.literals⟩, legal_of_marks (by decide)⟩

theorem Grammar.Content.Readable.legal {content : Content}
    (readable : content.Readable (looseDialect version)) : Legal version content.render := by
  induction content with
  | nil => exact Legal.nil version
  | piece item next ih => exact legal_append.mpr ⟨readable.1.legal, ih readable.2⟩
  | comment body next ih => exact legal_append.mpr ⟨readable.1.legal, ih readable.2⟩
  | cdata body next ih => exact legal_append.mpr ⟨readable.1.legal, ih readable.2⟩
  | instruction target gap data next ih => exact legal_append.mpr ⟨readable.1.legal, ih readable.2⟩
  | element tag children closeSpace next ihChildren ihNext =>
      obtain ⟨readableTag, readableChildren, spaces, readableNext⟩ := readable
      unfold Content.render renderEndTag
      simp only [legal_append]
      exact ⟨⟨⟨⟨⟨legal_of_marks (by decide), readableTag.legal⟩, legal_of_marks (by decide)⟩,
        ihChildren readableChildren⟩, ⟨⟨legal_of_marks (by decide), readableTag.name.legal version⟩,
          legal_of_spaces spaces⟩, legal_of_marks (by decide)⟩, ihNext readableNext⟩
  | emptyElement tag next ih =>
      exact legal_append.mpr ⟨legal_append.mpr ⟨legal_append.mpr
        ⟨legal_of_marks (by decide), readable.1.legal⟩, legal_of_marks (by decide)⟩, ih readable.2⟩

theorem legal_renderMiscs {miscs : List Misc}
    (readable : ∀ misc ∈ miscs, misc.Readable (looseDialect version)) :
    Legal version (renderMiscs miscs) := by
  intro c member
  obtain ⟨misc, isMisc, inside⟩ := List.mem_flatMap.mp member
  have readableMisc := readable misc isMisc
  cases misc with
  | space d =>
      have spaces : Spaces [d] := by
        intro e isSpace
        rw [List.mem_singleton.mp isSpace]
        exact readableMisc
      exact legal_of_spaces spaces c inside
  | comment body => exact CommentReadable.legal readableMisc c inside
  | instruction target gap data => exact InstructionReadable.legal readableMisc c inside

theorem Grammar.Document.Readable.legal {document : Document}
    (readable : document.Readable (looseDialect version)) : Legal version document.render :=
  legal_append.mpr ⟨legal_renderMiscs readable.prolog, legal_append.mpr
    ⟨readable.element.legal, legal_renderMiscs readable.epilog⟩⟩

end Spelling

/-- A document begins with a bracket or a space. -/
theorem Grammar.Document.Readable.front {p : Parser} {document : Document}
    (readable : document.Readable (p.dialect [])) :
    ∃ c rest, document.render = c :: rest ∧ c < 0x80 := by
  unfold Document.render
  cases prolog : document.prolog with
  | nil =>
      obtain ⟨first, item, _, front⟩ := p.elementContent_front readable.element
      rw [front]
      exact ⟨0x3C, _, rfl, by decide⟩
  | cons misc miscs =>
      have readableMisc := readable.prolog misc (prolog ▸ List.mem_cons_self)
      cases misc with
      | space c =>
          refine ⟨c, _, rfl, ?_⟩
          rcases readableMisc with rfl | rfl | rfl | rfl
          · decide
          · decide
          · decide
          · decide
      | comment body => exact ⟨0x3C, _, rfl, by decide⟩
      | instruction target gap data => exact ⟨0x3C, _, rfl, by decide⟩

theorem looseDialect_functional (version : XmlVersion) : (looseDialect version).Functional := by
  intro name left right denotesLeft denotesRight
  obtain ⟨c, rfl, readLeft⟩ := denotesLeft
  obtain ⟨e, rfl, readRight⟩ := denotesRight
  cases readLeft with
  | inl known =>
      cases readRight with
      | inl same =>
          rw [known] at same
          cases same
          rfl
      | inr numeric => exact absurd (looseCharRef?_head numeric.1) (predefined?_head known)
  | inr numeric =>
      cases readRight with
      | inl known => exact absurd (looseCharRef?_head numeric.1) (predefined?_head known)
      | inr same =>
          rw [numeric.1] at same
          cases same.1
          rfl

/-! ## What the loose dialect lets pass

A document of the loose dialect conforms to the recommendation unless it runs
attributes together, runs a target and its data together, has `]]>` in its
character data, spells a reference with a capital mark or, in version 1.1, has a
restricted character that is no reference. -/

/-- No literal character is restricted. -/
def StrictText (version : XmlVersion) (text : Text) : Prop :=
  version = .xml11 → ∀ c ∈ text, ¬ RestrictedChar c

def StrictPiece (version : XmlVersion) : Piece → Prop
  | .literal c => StrictText version [c]
  | .reference name _ => ∀ digits, name ≠ 0x23 :: 0x58 :: digits

def StrictTag (version : XmlVersion) (tag : Tag) : Prop :=
  tag.Separated ∧ ∀ attr ∈ tag.attributes, ∀ item ∈ attr.value, StrictPiece version item

def StrictContent (version : XmlVersion) : Content → Prop
  | .nil => True
  | .piece item next =>
      (StrictPiece version item ∧ ¬ [0x5D, 0x5D, 0x3E] <+: (Content.piece item next).leadingText) ∧
        StrictContent version next
  | .comment body next => StrictText version body ∧ StrictContent version next
  | .cdata body next => StrictText version body ∧ StrictContent version next
  | .instruction _ gap data next =>
      (InstructionSeparated gap data ∧ StrictText version data) ∧ StrictContent version next
  | .element tag children _ next =>
      StrictTag version tag ∧ StrictContent version children ∧ StrictContent version next
  | .emptyElement tag next => StrictTag version tag ∧ StrictContent version next

def StrictMisc (version : XmlVersion) : Misc → Prop
  | .space _ => True
  | .comment body => StrictText version body
  | .instruction _ gap data => InstructionSeparated gap data ∧ StrictText version data

structure StrictDocument (version : XmlVersion) (document : Document) : Prop where
  prolog : ∀ misc ∈ document.prolog, StrictMisc version misc
  element : StrictContent version (elementContent document.tag document.body .nil)
  epilog : ∀ misc ∈ document.epilog, StrictMisc version misc

section Strict

variable {version : XmlVersion}

theorem recommended_literal_iff {c : Nat} :
    (recommendedDialect version).literal c ↔ CharOf version c ∧ StrictText version [c] := by
  cases version with
  | xml10 =>
      change Char10 c ↔ _
      rw [CharOf, show isValidXmlChar c .xml10 = isValidXml10Char c from rfl, isValidXml10Char_iff]
      exact ⟨fun legal => ⟨legal, fun other => nomatch other⟩, fun legal => legal.1⟩
  | xml11 =>
      change Char11 c ∧ ¬ RestrictedChar c ↔ _
      rw [CharOf, show isValidXmlChar c .xml11 = isValidXml11Char c from rfl, isValidXml11Char_iff]
      refine and_congr_right fun _ => ⟨fun allowed _ => List.forall_mem_singleton.mpr allowed, ?_⟩
      exact fun strict => strict rfl c (List.mem_singleton_self c)

theorem recommended_literals_iff {text : Text} :
    Literals (recommendedDialect version) text ↔
      Literals (looseDialect version) text ∧ StrictText version text := by
  constructor
  · intro literals
    refine ⟨fun c member => (recommended_literal_iff.mp (literals c member)).1, ?_⟩
    intro isXml11 c member
    exact (recommended_literal_iff.mp (literals c member)).2 isXml11 c (List.mem_singleton_self c)
  · intro both c member
    refine recommended_literal_iff.mpr ⟨both.1 c member, fun isXml11 => ?_⟩
    exact List.forall_mem_singleton.mpr (both.2 isXml11 c member)

theorem recommended_denotes_iff {name value : Text} :
    (recommendedDialect version).denotes name value ↔
      LooseDenotes (CharOf version) name value ∧ ∀ digits, name ≠ 0x23 :: 0x58 :: digits := by
  have capital : ∀ digits, charRef? (0x23 :: 0x58 :: digits) = none := by
    intro digits
    rfl
  have recommended : (recommendedDialect version).denotes name value ↔
      Denotes (CharOf version) name value := by
    cases version with
    | xml10 =>
        refine exists_congr fun c => and_congr_right fun _ => or_congr_right (and_congr_right fun _ => ?_)
        exact isValidXml10Char_iff.symm
    | xml11 =>
        refine exists_congr fun c => and_congr_right fun _ => or_congr_right (and_congr_right fun _ => ?_)
        exact isValidXml11Char_iff.symm
  rw [recommended]
  constructor
  · intro denotes
    refine ⟨LooseDenotes.of_denotes denotes, fun digits same => ?_⟩
    subst same
    obtain ⟨c, _, read⟩ := denotes
    cases read with
    | inl known => exact predefined?_head known rfl
    | inr numeric =>
        rw [capital] at numeric
        cases numeric.1
  · intro both
    obtain ⟨⟨c, rfl, read⟩, notCapital⟩ := both
    refine ⟨c, rfl, read.imp_right fun numeric => ⟨?_, numeric.2⟩⟩
    have found := numeric.1
    unfold looseCharRef? at found
    split at found
    · rename_i digits
      exact absurd rfl (notCapital digits)
    · exact found

theorem recommended_piece_iff {excluded : Nat → Prop} {item : Piece} :
    item.Readable (recommendedDialect version) excluded ↔
      item.Readable (looseDialect version) excluded ∧ StrictPiece version item := by
  cases item with
  | literal c =>
      simp only [Piece.Readable, StrictPiece, recommended_literal_iff]
      exact and_right_comm
  | reference name value =>
      simp only [Piece.Readable, StrictPiece, recommended_denotes_iff]
      exact and_assoc.symm

theorem recommended_tag_iff {tag : Tag} :
    tag.Readable (recommendedDialect version) ∧ tag.Separated ↔
      tag.Readable (looseDialect version) ∧ StrictTag version tag := by
  constructor
  · intro both
    obtain ⟨readable, separated⟩ := both
    refine ⟨readable.mono (recommended_within_loose version), separated, ?_⟩
    intro attr isAttribute item member
    exact (recommended_piece_iff.mp ((readable.attributes attr isAttribute).value item member)).2
  · intro both
    obtain ⟨readable, separated, strict⟩ := both
    refine ⟨{ readable with attributes := fun attr isAttribute => ?_ }, separated⟩
    have readableAttribute := readable.attributes attr isAttribute
    refine { readableAttribute with value := fun item member => ?_ }
    exact recommended_piece_iff.mpr
      ⟨readableAttribute.value item member, strict attr isAttribute item member⟩

theorem recommended_comment_iff {body : Text} :
    CommentReadable (recommendedDialect version) body ↔
      CommentReadable (looseDialect version) body ∧ StrictText version body := by
  constructor
  · intro readable
    obtain ⟨literals, strict⟩ := recommended_literals_iff.mp readable.literals
    exact ⟨⟨literals, readable.hyphens⟩, strict⟩
  · intro both
    exact ⟨recommended_literals_iff.mpr ⟨both.1.literals, both.2⟩, both.1.hyphens⟩

theorem recommended_cdata_iff {body : Text} :
    CdataReadable (recommendedDialect version) body ↔
      CdataReadable (looseDialect version) body ∧ StrictText version body := by
  constructor
  · intro readable
    obtain ⟨literals, strict⟩ := recommended_literals_iff.mp readable.literals
    exact ⟨⟨literals, readable.close⟩, strict⟩
  · intro both
    exact ⟨recommended_literals_iff.mpr ⟨both.1.literals, both.2⟩, both.1.close⟩

theorem recommended_instruction_iff {target gap data : Text} :
    InstructionReadable (recommendedDialect version) target gap data ↔
      InstructionReadable (looseDialect version) target gap data ∧ StrictText version data := by
  constructor
  · intro readable
    obtain ⟨literals, strict⟩ := recommended_literals_iff.mp readable.literals
    exact ⟨{ readable with literals }, strict⟩
  · intro both
    obtain ⟨readable, strict⟩ := both
    exact { readable with literals := recommended_literals_iff.mpr ⟨readable.literals, strict⟩ }

theorem recommended_content_iff {content : Content} :
    content.Readable (recommendedDialect version) ∧ content.Regular ↔
      content.Readable (looseDialect version) ∧ StrictContent version content := by
  induction content with
  | nil => exact Iff.rfl
  | piece item next ih =>
      simp only [Content.Readable, Content.Regular, StrictContent, recommended_piece_iff]
      tauto
  | comment body next ih =>
      simp only [Content.Readable, Content.Regular, StrictContent, recommended_comment_iff]
      tauto
  | cdata body next ih =>
      simp only [Content.Readable, Content.Regular, StrictContent, recommended_cdata_iff]
      tauto
  | instruction target gap data next ih =>
      simp only [Content.Readable, Content.Regular, StrictContent, recommended_instruction_iff]
      tauto
  | element tag children closeSpace next ihChildren ihNext =>
      have tags : tag.Readable (recommendedDialect version) ∧ tag.Separated ↔ _ := recommended_tag_iff
      simp only [Content.Readable, Content.Regular, StrictContent]
      tauto
  | emptyElement tag next ih =>
      have tags : tag.Readable (recommendedDialect version) ∧ tag.Separated ↔ _ := recommended_tag_iff
      simp only [Content.Readable, Content.Regular, StrictContent]
      tauto

theorem recommended_misc_iff {misc : Misc} :
    misc.Readable (recommendedDialect version) ∧ misc.Regular ↔
      misc.Readable (looseDialect version) ∧ StrictMisc version misc := by
  cases misc with
  | space c => exact Iff.rfl
  | comment body =>
      simp only [Misc.Readable, Misc.Regular, StrictMisc, recommended_comment_iff, and_true]
  | instruction target gap data =>
      simp only [Misc.Readable, Misc.Regular, StrictMisc, recommended_instruction_iff]
      tauto

/-- The recommendation asks for the loose dialect without what it lets pass. -/
theorem conforms_iff {document : Document} :
    document.Conforms (recommendedDialect version) ↔
      document.Readable (looseDialect version) ∧ StrictDocument version document := by
  constructor
  · intro conforms
    obtain ⟨readable, regular⟩ := conforms
    refine ⟨readable.mono (recommended_within_loose version), ?_, ?_, ?_⟩
    · intro misc member
      exact (recommended_misc_iff.mp ⟨readable.prolog misc member, regular.prolog misc member⟩).2
    · exact (recommended_content_iff.mp ⟨readable.element, regular.element⟩).2
    · intro misc member
      exact (recommended_misc_iff.mp ⟨readable.epilog misc member, regular.epilog misc member⟩).2
  · intro both
    obtain ⟨readable, strict⟩ := both
    have element := recommended_content_iff.mpr ⟨readable.element, strict.element⟩
    have prolog := fun misc member =>
      recommended_misc_iff.mpr ⟨readable.prolog misc member, strict.prolog misc member⟩
    have epilog := fun misc member =>
      recommended_misc_iff.mpr ⟨readable.epilog misc member, strict.epilog misc member⟩
    exact ⟨⟨fun misc member => (prolog misc member).1, element.1, fun misc member => (epilog misc member).1⟩,
      ⟨fun misc member => (prolog misc member).2, element.2, fun misc member => (epilog misc member).2⟩⟩

end Strict

end XmlParser
