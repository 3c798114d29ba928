import XmlParser.ElementDeclarations
import XmlParser.Library.ContentModels

/-! Which content models `parse_element_model` and `validate_element` understand. -/

set_option autoImplicit false

namespace XmlParser

open XmlParser.Computation Comp
open Grammar (Text FullName FullNameChar FullNameStartChar ModelChar Delimiter Occurrence Particle Particles Spaces)

/-! ## Characters of a model -/

theorem FullNameChar.valid {c : Nat} (nameChar : FullNameChar c) : isValidXmlChar c .xml10 = true := by
  unfold FullNameChar FullNameStartChar at nameChar
  simp only [isValidXmlChar, isValidXml10Char, reduceCtorEq, if_false, Bool.or_eq_true, Bool.and_eq_true,
    decide_eq_true_eq, beq_iff_eq]
  omega

theorem ModelChar.valid {c : Nat} (modelChar : ModelChar c) : isValidXmlChar c .xml10 = true := by
  obtain isSpace | nameChar | delimiter := modelChar
  · unfold Grammar.IsSpace at isSpace
    obtain rfl | rfl | rfl | rfl := isSpace <;> decide
  · exact FullNameChar.valid nameChar
  · unfold Delimiter at delimiter
    obtain rfl | rfl | rfl | rfl | rfl | rfl | rfl := delimiter <;> decide

theorem FullName.legal {name : Text} (named : FullName name) : Legal .xml10 name :=
  fun c member => FullNameChar.valid (named.chars c member)

/-- No ASCII character that is not in names is in the bytes of a name. -/
theorem FullName.lacks {name : Text} (named : FullName name) {c : Nat} (small : c < 0x80)
    (outside : ¬ FullNameChar c) : UInt8.ofNat c ∉ utf8 name := by
  intro member
  exact outside (named.chars c ((ascii_mem_utf8 small (FullName.legal named)).mp member))

theorem squeeze_name {name : Text} (named : FullName name) : squeeze name = utf8 name := by
  refine List.filter_eq_self.mpr fun byte member => ?_
  by_contra space
  have isSpace : isAsciiSpace byte = true := by simpa using space
  unfold isAsciiSpace at isSpace
  simp only [Bool.or_eq_true, beq_iff_eq] at isSpace
  obtain ((rfl | rfl) | rfl) | rfl := isSpace
  · exact FullName.lacks named (c := 0x20) (by decide) (by decide) member
  · exact FullName.lacks named (c := 0x09) (by decide) (by decide) member
  · exact FullName.lacks named (c := 0x0A) (by decide) (by decide) member
  · exact FullName.lacks named (c := 0x0D) (by decide) (by decide) member

/-- What stays is what was there and is no white space. -/
theorem mem_squeeze {c : Nat} {text : Text} (small : c < 0x80) (visible : isAsciiSpace (UInt8.ofNat c) = false)
    (chars : ∀ c ∈ text, ModelChar c) : UInt8.ofNat c ∈ squeeze text ↔ c ∈ text := by
  unfold squeeze stripAsciiSpace
  rw [List.mem_filter, ascii_mem_utf8 small fun c member => ModelChar.valid (chars c member), visible]
  exact and_iff_left rfl

/-! ## The names of a sequence -/

theorem itemName_append (left right : Bytes) : itemName (left ++ right) = itemName left ++ itemName right :=
  List.filter_append ..

/-- Every character that is kept is in one of the names. -/
theorem exists_mem_groupNames {ch : UInt8} (notComma : ch ≠ 0x2C) (kept : ch ∉ [0x3F, 0x2A, 0x2B]) {inner : Bytes}
    (member : ch ∈ inner) : ∃ name ∈ groupNames inner, ch ∈ name := by
  have inItem : ∃ item ∈ inner.splitOn 0x2C, ch ∈ item := by
    induction inner with
    | nil => cases member
    | cons first inner ih =>
        obtain ⟨item, items, parts⟩ := List.exists_cons_of_ne_nil (List.splitOn_ne_nil 0x2C inner)
        rw [List.splitOn_cons_eq_if_modifyHead]
        rw [parts] at ih ⊢
        by_cases comma : first = 0x2C
        · subst comma
          obtain ⟨part, isPart, inPart⟩ := ih ((List.mem_cons.mp member).resolve_left notComma)
          rw [if_pos (by decide)]
          exact ⟨part, List.mem_cons_of_mem _ isPart, inPart⟩
        rw [if_neg (by simpa using comma), List.modifyHead_cons]
        rcases List.mem_cons.mp member with rfl | later
        · exact ⟨_, List.mem_cons_self, List.mem_cons_self⟩
        · obtain ⟨part, isPart, inPart⟩ := ih later
          rcases List.mem_cons.mp isPart with rfl | other
          · exact ⟨_, List.mem_cons_self, List.mem_cons_of_mem _ inPart⟩
          · exact ⟨part, List.mem_cons_of_mem _ other, inPart⟩
  obtain ⟨item, isItem, inside⟩ := inItem
  have inName : ch ∈ itemName item := List.mem_filter.mpr ⟨inside, decide_eq_true kept⟩
  refine ⟨itemName item, List.mem_filter.mpr ⟨List.mem_map_of_mem isItem, ?_⟩, inName⟩
  exact decide_eq_true (List.ne_nil_of_mem inName)

theorem squeeze_item {before after name : Text} {occurs : Occurrence} (spaces : Spaces before)
    (named : FullName name) (gaps : Spaces after) (tail : Text) :
    squeeze (before ++ Particle.render (.name name occurs) ++ after ++ tail) =
      utf8 name ++ (squeeze occurs.mark ++ squeeze tail) := by
  rw [Particle.render]
  simp only [squeeze_append, squeeze_spaces spaces, squeeze_spaces gaps, squeeze_name named, List.nil_append,
    List.append_assoc]

/-- An item is read as its name, whatever its indicator. -/
theorem itemName_item {name : Text} (named : FullName name) (occurs : Occurrence) :
    itemName (utf8 name ++ squeeze occurs.mark) = utf8 name := by
  have letters : itemName (utf8 name) = utf8 name := by
    refine List.filter_eq_self.mpr fun ch member => decide_eq_true fun mark => ?_
    simp only [List.mem_cons, List.not_mem_nil, or_false] at mark
    obtain rfl | rfl | rfl := mark
    · exact FullName.lacks named (c := 0x3F) (by decide) (by decide) member
    · exact FullName.lacks named (c := 0x2A) (by decide) (by decide) member
    · exact FullName.lacks named (c := 0x2B) (by decide) (by decide) member
  have none : itemName (squeeze occurs.mark) = [] := by cases occurs <;> rfl
  rw [itemName_append, letters, none, List.append_nil]

theorem comma_not_mem_item {name : Text} (named : FullName name) (occurs : Occurrence) :
    0x2C ∉ utf8 name ++ squeeze occurs.mark := by
  rw [List.mem_append, not_or]
  refine ⟨FullName.lacks named (c := 0x2C) (by decide) (by decide), ?_⟩
  cases occurs <;> decide

theorem utf8_name_ne_nil {name : Text} (named : FullName name) : utf8 name ≠ [] := by
  cases name with
  | nil => exact absurd named id
  | cons first rest =>
      rw [utf8_cons, utf8Unit]
      split
      · exact List.cons_ne_nil _ _
      split
      · exact List.cons_ne_nil _ _
      split <;> exact List.cons_ne_nil _ _

/-- A sequence of names is read as the list of the names, whatever their indicators. -/
theorem groupNames_flat {items : Particles} (proper : items.Proper) (flat : items.Flat) :
    groupNames (squeeze (items.render 0x2C)) = items.names.map utf8 := by
  cases items with
  | last before item after =>
      obtain ⟨name, occurs, rfl⟩ := Particle.IsName.exists_eq flat
      obtain ⟨spaces, named, gaps⟩ := proper
      have item := @squeeze_item _ _ _ occurs spaces named gaps []
      rw [List.append_nil] at item
      have nothing : squeeze [] = [] := rfl
      rw [Particles.render, item, nothing, List.append_nil, groupNames,
        List.splitOn_eq_singleton (comma_not_mem_item named occurs), List.map_singleton, itemName_item named]
      rw [List.filter_cons, if_pos (by simpa using utf8_name_ne_nil named)]
      rfl
  | more before item after others =>
      obtain ⟨name, occurs, rfl⟩ := Particle.IsName.exists_eq flat.1
      obtain ⟨spaces, named, gaps, properOthers⟩ := proper
      have rest := groupNames_flat properOthers flat.2
      have comma : squeeze [0x2C] = [0x2C] := rfl
      rw [Particles.render, squeeze_item spaces named gaps, squeeze_cons, comma, List.singleton_append,
        ← List.append_assoc, groupNames,
        List.splitOn_append_cons_self_of_not_mem (comma_not_mem_item named occurs), List.map_cons,
        itemName_item named, List.filter_cons, if_pos (by simpa using utf8_name_ne_nil named)]
      exact congrArg (utf8 name :: ·) rest

/-! ## What a group declares -/

/-- No other group looks like `(#PCDATA)`. -/
theorem squeeze_group_ne {inner : Text} (chars : ∀ c ∈ inner, ModelChar c) (after : Bytes) :
    0x28 :: (squeeze inner ++ 0x29 :: after) ∉ [ascii "ANY", ascii "EMPTY", ascii "(#PCDATA)"] := by
  have keywords : ascii "ANY" = [0x41, 0x4E, 0x59] ∧ ascii "EMPTY" = [0x45, 0x4D, 0x50, 0x54, 0x59] ∧
      ascii "(#PCDATA)" = [0x28, 0x23, 0x50, 0x43, 0x44, 0x41, 0x54, 0x41, 0x29] := by decide
  rw [keywords.1, keywords.2.1, keywords.2.2]
  intro member
  simp only [List.mem_cons, List.not_mem_nil, or_false] at member
  obtain same | same | same := member
  · exact absurd (List.cons.inj same).1 (by decide)
  · exact absurd (List.cons.inj same).1 (by decide)
  · obtain ⟨_, rest⟩ := List.cons.inj same
    cases squeezed : squeeze inner with
    | nil =>
        rw [squeezed] at rest
        exact absurd (List.cons.inj rest).1 (by decide)
    | cons first others =>
        rw [squeezed] at rest
        have sharp : UInt8.ofNat 0x23 ∈ squeeze inner := by
          rw [squeezed, (List.cons.inj rest).1]
          exact List.mem_cons_self
        have modelChar := chars _ ((mem_squeeze (by decide) rfl chars).mp sharp)
        unfold ModelChar Grammar.IsSpace Delimiter at modelChar
        revert modelChar
        decide

theorem visible_group {inner gap : Text} (occurs : Occurrence) (spaces : Spaces gap) :
    visible (utf8 (0x28 :: inner ++ 0x29 :: occurs.mark ++ gap)) =
      0x28 :: (squeeze inner ++ 0x29 :: squeeze occurs.mark) := by
  have parts : squeeze (0x28 :: inner ++ 0x29 :: occurs.mark ++ gap) =
      squeeze [0x28] ++ (squeeze inner ++ (squeeze [0x29] ++ squeeze occurs.mark)) := by
    rw [squeeze_append, squeeze_spaces spaces, squeeze_append, List.append_nil, squeeze_cons,
      squeeze_cons 0x29, List.append_assoc]
  rw [← stripAsciiSpace_eq]
  exact parts

/-- A group is supported only without an indicator behind it. -/
theorem elementModel_group {inner gap : Text} {occurs : Occurrence} {declaration : ElementDeclaration}
    (chars : ∀ c ∈ inner, ModelChar c) (spaces : Spaces gap)
    (isModel : elementModel (utf8 (0x28 :: inner ++ 0x29 :: occurs.mark ++ gap)) = some declaration) :
    occurs = .once ∧ declaration = ⟨.children, groupNames (squeeze inner)⟩ := by
  have specifies := elementModel_eq_some_iff.mp isModel
  rw [visible_group occurs spaces] at specifies
  have other := squeeze_group_ne chars (squeeze occurs.mark)
  simp only [List.mem_cons, List.not_mem_nil, or_false, not_or] at other
  generalize written : 0x28 :: (squeeze inner ++ 0x29 :: squeeze occurs.mark) = text at specifies other
  cases specifies with
  | any => exact absurd rfl other.1
  | empty => exact absurd rfl other.2.1
  | pcdata => exact absurd rfl other.2.2
  | @children body others named =>
      have same := (List.cons.inj written).2
      cases occurs with
      | once =>
          have isBody : squeeze inner = body := List.append_cancel_right same
          exact ⟨rfl, by rw [isBody]⟩
      | optional | star | plus =>
          rw [← List.singleton_append, ← List.append_assoc] at same
          cases (List.append_inj' same rfl).2

/-! ## What is checked -/

namespace Parser

variable {p : Parser}

theorem recoverableValidityError_ne (location : SourceLocation) (message : String) (s : ParserState) :
    (p.recoverableValidityError location message).run s ≠ (.ok (), s) := by
  unfold recoverableValidityError
  cases p.options.recoverableErrorHandler with
  | none =>
      intro same
      cases same
  | some handle =>
      intro same
      obtain ⟨_, next, recorded, answered⟩ := bind_eq_ok.mp same
      cases recorded
      rw [run_read_bind] at answered
      split at answered
      · have reports := congrArg (fun run => run.2.reported.length) answered
        simp at reports
      · cases answered

theorem validateElement_children_iff (validates : p.options.validation = .dtd) {frame : ValidationFrame}
    {children : List Bytes} {location : SourceLocation} {u v : ParserState} (has : u.dtd.hasDoctype = true)
    (declared : lookupKey frame.name u.dtd.elements = some ⟨.children, children⟩)
    (blank : frame.hasNonWhitespaceText = false)
    (root : (p.validateRoot frame location).run u = (.ok (), v)) :
    (p.validateElement frame location).run u = (.ok (), v) ↔ frame.childElements = children := by
  have reports : Obeys OnlyReports Halt.IsThrown (p.validateRoot frame location) :=
    obeys_bind (obeys_read _) fun s =>
      obeys_ite (fun _ => p.obeys_recoverableValidityError _ _) fun _ => obeys_pure _
  have sameDtd : v.dtd = u.dtd := by
    rw [show v = _ from reports.of_run root]
  unfold validateElement
  rw [run_read_bind, validates, id_eq, has, if_neg (by decide), run_bind_of_ok root]
  unfold validateContent
  rw [run_read_bind, sameDtd, declared, blank, Bool.or_false]
  dsimp only
  by_cases same : frame.childElements = children
  · rw [if_neg (by simpa using same)]
    exact iff_of_true rfl same
  · rw [if_pos (by simpa using same)]
    exact iff_of_false (recoverableValidityError_ne _ _ v) same

end Parser

/-- After a declaration of this name has been read, elements with child elements
only are checked for membership in the language: whatever comes before, the check
of the content reports nothing just for lists of the language. -/
def DecidesMembership (p : Parser) (declared : ParserState) (name : Text) (language : Language Text) : Prop :=
  ∀ children : List Text, (∀ child ∈ children, FullName child) →
    ∀ (location : SourceLocation) (u v : ParserState), u.dtd.hasDoctype = true →
      lookupKey (utf8 name) u.dtd.elements = lookupKey (utf8 name) declared.dtd.elements →
      (p.validateRoot ⟨utf8 name, children.map utf8, false⟩ location).run u = (.ok (), v) →
      ((p.validateElement ⟨utf8 name, children.map utf8, false⟩ location).run u = (.ok (), v) ↔
        children ∈ language)

theorem map_utf8_inj {left right : List Text} (named : ∀ name ∈ left, FullName name)
    (others : ∀ name ∈ right, FullName name) (same : left.map utf8 = right.map utf8) : left = right := by
  induction left generalizing right with
  | nil => exact (List.map_eq_nil_iff.mp same.symm).symm
  | cons name left ih =>
      cases right with
      | nil => cases same
      | cons other right =>
          obtain ⟨first, rest⟩ := List.cons.inj same
          obtain ⟨isName, names⟩ := List.forall_mem_cons.mp named
          obtain ⟨isOther, otherNames⟩ := List.forall_mem_cons.mp others
          rw [utf8_injective (FullName.legal isName) (FullName.legal isOther) first, ih names otherNames rest]

/-- The names of a plain sequence are the only word of its language. -/
theorem map_names_iff {items : Particles} (plain : items.Plain) (proper : items.Proper)
    {children : List Text} (named : ∀ child ∈ children, FullName child) :
    children.map utf8 = items.names.map utf8 ↔ children ∈ (Particle.seq items .once).language := by
  have language : children ∈ (Particle.seq items .once).language ↔ children = items.names := plain.language children
  rw [language]
  constructor
  · intro same
    exact map_utf8_inj named (Particles.Proper.names proper plain.flat) same
  · intro same
    rw [same]

/-- What is between the parentheses of a group. -/
inductive Encloses : Particle → Occurrence → Text → Prop where
  | seq (items : Particles) (occurs : Occurrence) : Encloses (.seq items occurs) occurs (items.render 0x2C)
  | choice (before : Text) (first : Particle) (after : Text) (others : Particles) (occurs : Occurrence) :
      Encloses (.choice before first after others occurs) occurs
        (before ++ first.render ++ after ++ 0x7C :: others.render 0x7C)

theorem exists_encloses {particle : Particle} (group : particle.IsGroup) :
    ∃ occurs inner, Encloses particle occurs inner := by
  cases particle with
  | name name occurs => exact absurd group id
  | choice before first after others occurs => exact ⟨occurs, _, .choice before first after others occurs⟩
  | seq items occurs => exact ⟨occurs, _, .seq items occurs⟩

theorem Encloses.render {particle : Particle} {occurs : Occurrence} {inner : Text}
    (encloses : Encloses particle occurs inner) :
    particle.render = 0x28 :: inner ++ 0x29 :: occurs.mark := by
  cases encloses <;> rfl

/-- A text whose names are a list of names has only name characters besides what the
list drops. -/
theorem delimiter_not_mem {inner : Text} (chars : ∀ c ∈ inner, ModelChar c) {word : List Text}
    (named : ∀ name ∈ word, FullName name) (read : groupNames (squeeze inner) = word.map utf8) {c : Nat}
    (small : c < 0x80) (visible : isAsciiSpace (UInt8.ofNat c) = false) (notComma : UInt8.ofNat c ≠ 0x2C)
    (kept : UInt8.ofNat c ∉ [0x3F, 0x2A, 0x2B]) (outside : ¬ FullNameChar c) : c ∉ inner := by
  intro member
  have inText := (mem_squeeze small visible chars).mpr member
  obtain ⟨name, isName, inName⟩ := exists_mem_groupNames notComma kept inText
  rw [read] at isName
  obtain ⟨text, isText, rfl⟩ := List.mem_map.mp isName
  exact FullName.lacks (named text isText) small outside inName

/-- The list that is read off a content model is its only word just for a plain
sequence. -/
theorem only_word_iff {particle : Particle} (proper : particle.Proper) {inner : Text}
    (encloses : Encloses particle .once inner) (chars : ∀ c ∈ inner, ModelChar c) :
    (∀ children : List Text, (∀ child ∈ children, FullName child) →
      (children.map utf8 = groupNames (squeeze inner) ↔ children ∈ particle.language)) ↔
      particle.IsPlainSequence := by
  constructor
  · intro only
    obtain ⟨word, isWord, named⟩ := proper.hasWord
    have read : groupNames (squeeze inner) = word.map utf8 := ((only word named).mpr isWord).symm
    cases encloses with
    | choice before first after others =>
        have bar : 0x7C ∈ before ++ first.render ++ after ++ 0x7C :: others.render 0x7C := by simp
        exact absurd bar (delimiter_not_mem chars named read (by decide) rfl (by decide) (by decide) (by decide))
    | seq items =>
        have flat : items.Flat := by
          by_contra nested
          exact delimiter_not_mem chars named read (by decide) rfl (by decide) (by decide) (by decide)
            (Particles.paren_mem_render nested 0x2C)
        refine ⟨items, rfl, ?_⟩
        by_contra indicated
        obtain ⟨other, isOther, differs, others⟩ := flat.exists_other proper indicated
        have same : other.map utf8 = items.names.map utf8 :=
          ((only other others).mpr isOther).trans (groupNames_flat proper flat)
        have lengths := congrArg List.length same
        rw [List.length_map, List.length_map] at lengths
        exact differs lengths
  · rintro ⟨items, rfl, plain⟩ children named
    cases encloses
    rw [groupNames_flat proper plain.flat]
    exact map_names_iff plain proper named

/-- A sequence of names declares the list of its names. -/
theorem elementModel_sequence {items : Particles} (proper : items.Proper) (flat : items.Flat) {gap : Text}
    (spaces : Spaces gap) :
    elementModel (utf8 ((Particle.seq items .once).render ++ gap)) = some ⟨.children, items.names.map utf8⟩ := by
  have chars : ∀ c ∈ items.render 0x2C, ModelChar c := by
    intro c member
    refine @Particle.Proper.chars (.seq items .once) proper c ?_
    simp [Particle.render, member]
  rw [elementModel_eq_some_iff, Particle.render, visible_group .once spaces, ← groupNames_flat proper flat]
  refine .children (fun pcdata => ?_) ?_
  · refine squeeze_group_ne chars [] ?_
    rw [pcdata, ← pcdata_eq]
    simp
  · rw [groupNames_flat proper flat]
    cases items with
    | last before item after =>
        obtain ⟨name, occurs, rfl⟩ := Particle.IsName.exists_eq flat
        exact List.cons_ne_nil _ _
    | more before item after others =>
        obtain ⟨name, occurs, rfl⟩ := Particle.IsName.exists_eq flat.1
        exact List.cons_ne_nil _ _

/-- A plain sequence declares just the lists of its language. -/
theorem elementModel_plain_iff {items : Particles} (proper : items.Proper) (plain : items.Plain) {gap : Text}
    (spaces : Spaces gap) {children : List Text} (named : ∀ child ∈ children, FullName child) :
    elementModel (utf8 ((Particle.seq items .once).render ++ gap)) = some ⟨.children, children.map utf8⟩ ↔
      children ∈ (Particle.seq items .once).language := by
  rw [elementModel_sequence proper plain.flat spaces, ← map_names_iff plain proper named]
  constructor
  · intro declared
    exact (congrArg ElementDeclaration.children (Option.some.inj declared)).symm
  · intro same
    rw [same]

theorem lookupKey_emplaceKey {α : Type} {key : Bytes} (value : α) {entries : List (Bytes × α)}
    (new : lookupKey key entries = none) : lookupKey key (emplaceKey key value entries) = some value := by
  unfold lookupKey at new ⊢
  unfold emplaceKey
  rw [List.find?_append, Option.map_eq_none_iff.mp new]
  simp

theorem Particle.Proper.lacks_mark {particle : Particle} (proper : particle.Proper) :
    0x3E ∉ particle.render := by
  intro member
  have modelChar := Particle.Proper.chars proper _ member
  unfold ModelChar Grammar.IsSpace Delimiter at modelChar
  revert modelChar
  decide

theorem Declares.lacks_mark {body name model : Text} (declares : Declares body name model)
    (lacks : 0x3E ∉ model) : 0x3E ∉ body := by
  obtain ⟨named, space, gap, rfl, _, spaces, gaps, _⟩ := declares
  intro member
  simp only [List.mem_append] at member
  obtain inSpace | inName | inGap | inModel := member
  · exact Parser.spaces_lack (spaces_iff.mpr spaces) inSpace
  · exact Parser.lacks_name named inName
  · exact Parser.spaces_lack (spaces_iff.mpr gaps) inGap
  · exact lacks inModel

/-- The declarations of the production `children` that are accepted mean what they
say just if they are plain sequences of names. -/
theorem decidesMembership_iff (p : Parser) (validates : p.options.validation = .dtd) {particle : Particle}
    (group : particle.IsGroup) (proper : particle.Proper) {body name trailing after : Text}
    (spaces : Spaces trailing) (declares : Declares body name (particle.render ++ trailing))
    {s t : ParserState} (written : values s.rest = u32 "<!ELEMENT" ++ (body ++ 0x3E :: after))
    (accepted : p.parseElementDeclaration.run s = (.ok (), t)) :
    DecidesMembership p t name particle.language ↔ particle.IsPlainSequence := by
  have lacks : 0x3E ∉ particle.render ++ trailing := by
    rw [List.mem_append, not_or]
    exact ⟨Particle.Proper.lacks_mark proper, Parser.spaces_lack (spaces_iff.mpr spaces)⟩
  obtain ⟨_, other, model, declaration, others, _, new, isModel, rfl⟩ :=
    (p.parseElementDeclaration_eq_ok_iff written (declares.lacks_mark lacks)).mp accepted
  obtain ⟨rfl, rfl⟩ := declares.unique others
  obtain ⟨occurs, inner, encloses⟩ := exists_encloses group
  have chars : ∀ c ∈ inner, ModelChar c := by
    intro c member
    refine Particle.Proper.chars proper c ?_
    rw [encloses.render]
    simp [member]
  rw [encloses.render] at isModel
  obtain ⟨rfl, rfl⟩ := elementModel_group chars spaces isModel
  rw [← only_word_iff proper encloses chars]
  have entered := lookupKey_emplaceKey ⟨.children, groupNames (squeeze inner)⟩ new
  constructor
  · intro decides children named
    -- A state in which the element is a child, so that its name is not tested.
    let u : ParserState :=
      { rest := []
        dtd := { (Parser.declared (body.length + 10) (utf8 name) ⟨.children, groupNames (squeeze inner)⟩ s).dtd with
          hasDoctype := true }
        validationStack := [{ name := [] }] }
    have root : (p.validateRoot ⟨utf8 name, children.map utf8, false⟩ {}).run u = (.ok (), u) := rfl
    rw [← decides children named {} u u rfl rfl root]
    exact (Parser.validateElement_children_iff validates rfl entered rfl root).symm
  · intro only children named location u v has same root
    rw [← only children named]
    exact Parser.validateElement_children_iff validates has (same.trans entered) rfl root

/-- A parser that validates. -/
def validatingParser : Parser := ⟨.recording, { validation := .dtd }, {}⟩

/-- The model `(b|c)`. -/
def alternative : Particle :=
  .choice [] (.name (u32 "b") .once) [] (.last [] (.name (u32 "c") .once) []) .once

/-- The model `(b,c)`. -/
def pair : Particle := .seq (.more [] (.name (u32 "b") .once) [] (.last [] (.name (u32 "c") .once) [])) .once

/-- The reading of a declaration of `a`. -/
def readDeclarationOf (particle : Particle) : Except Halt Unit × ParserState :=
  validatingParser.parseElementDeclaration.run
    (inFrontOf (u32 "<!ELEMENT" ++ (u32 " a " ++ particle.render ++ u32 ">")))

theorem not_decidesMembership :
    (readDeclarationOf alternative).1 = .ok () ∧
      ¬ DecidesMembership validatingParser (readDeclarationOf alternative).2 (u32 "a")
        alternative.language := by
  refine ⟨rfl, fun decides => ?_⟩
  let u : ParserState :=
    { (readDeclarationOf alternative).2 with
      dtd := { (readDeclarationOf alternative).2.dtd with hasDoctype := true }
      validationStack := [{ name := [] }] }
  have letter : FullName [0x62] := ⟨by decide, nofun⟩
  have named : ∀ child ∈ [u32 "b"], FullName child := List.forall_mem_singleton.mpr letter
  have returned := (decides [u32 "b"] named {} u u rfl rfl rfl).mpr (.inl rfl)
  cases returned

theorem decidesMembership_iff_sample :
    (readDeclarationOf pair).1 = .ok () ∧
      DecidesMembership validatingParser (readDeclarationOf pair).2 (u32 "a") pair.language := by
  refine ⟨rfl, ?_⟩
  have empty : Spaces [] := List.forall_mem_nil _
  have spaces : Spaces [0x20] := List.forall_mem_singleton.mpr (.inl rfl)
  have named : Grammar.Name [0x61] := ⟨.inr (.inl (by decide)), nofun⟩
  have declares : Declares (u32 " a " ++ pair.render) (u32 "a") (pair.render ++ []) :=
    ⟨named, [0x20], [0x20], rfl, by decide, spaces, spaces, by decide, by decide⟩
  have letters : FullName [0x62] ∧ FullName [0x63] := ⟨⟨by decide, nofun⟩, ⟨by decide, nofun⟩⟩
  have proper : pair.Proper := ⟨empty, letters.1, empty, empty, letters.2, empty⟩
  have group : pair.IsGroup := trivial
  have accepted : validatingParser.parseElementDeclaration.run
      (inFrontOf (u32 "<!ELEMENT" ++ (u32 " a " ++ pair.render ++ u32 ">"))) =
      (.ok (), (readDeclarationOf pair).2) := rfl
  exact (decidesMembership_iff validatingParser rfl group proper empty declares rfl accepted).mpr
    ⟨_, rfl, rfl, rfl⟩

end XmlParser
