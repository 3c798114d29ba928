import XmlParser.Dtd
import XmlParser.Accepting

/-! What `parse_element_declaration` reads when it returns. -/

set_option autoImplicit false

namespace XmlParser

open XmlParser.Computation Comp
open Grammar (Text Name NameStartChar Spaces)

/-! ## Content specifications -/

/-- The bytes of a text that are left of it in a model. -/
def squeeze (text : Text) : Bytes := stripAsciiSpace (utf8 text)

theorem squeeze_append (left right : Text) : squeeze (left ++ right) = squeeze left ++ squeeze right := by
  unfold squeeze stripAsciiSpace
  rw [utf8_append, List.filter_append]

theorem squeeze_cons (c : Nat) (text : Text) : squeeze (c :: text) = squeeze [c] ++ squeeze text :=
  squeeze_append [c] text

theorem squeeze_spaces {space : Text} (spaces : Spaces space) : squeeze space = [] := by
  induction space with
  | nil => rfl
  | cons c space ih =>
      obtain ⟨isSpace, others⟩ := List.forall_mem_cons.mp spaces
      rw [squeeze_cons, ih others]
      obtain rfl | rfl | rfl | rfl := isSpace <;> rfl

/-- The name in an item of a group; how often it may occur is not read. -/
def itemName (item : Bytes) : Bytes := item.filter (· ∉ [0x3F, 0x2A, 0x2B])

/-- The child elements that a group lists, in order: the names between its commas, two of
which may stand side by side. -/
def groupNames (inner : Bytes) : List Bytes := ((inner.splitOn 0x2C).map itemName).filter (· ≠ [])

/-- What the content specifications declare that are supported, without white space. -/
inductive Specifies : Bytes → ElementDeclaration → Prop where
  | any : Specifies (ascii "ANY") ⟨.any, []⟩
  | empty : Specifies (ascii "EMPTY") ⟨.empty, []⟩
  | pcdata : Specifies (ascii "(#PCDATA)") ⟨.pcdata, []⟩
  | children {inner : Bytes} (others : inner ≠ ascii "#PCDATA") (named : groupNames inner ≠ []) :
      Specifies (0x28 :: (inner ++ [0x29])) ⟨.children, groupNames inner⟩

/-- A content specification without its white space. -/
def visible (model : Bytes) : Bytes := model.filter (· ∉ [0x20, 0x09, 0x0A, 0x0D])

/-- What is between parentheses. -/
def inParentheses (text : Bytes) : Option Bytes :=
  if text.head? = some 0x28 ∧ text.tail.getLast? = some 0x29 then some text.tail.dropLast else none

/-- What a content specification declares, if it is supported. -/
def elementModel (model : Bytes) : Option ElementDeclaration :=
  if visible model = ascii "ANY" then some ⟨.any, []⟩
  else if visible model = ascii "EMPTY" then some ⟨.empty, []⟩
  else if visible model = ascii "(#PCDATA)" then some ⟨.pcdata, []⟩
  else
    ((inParentheses (visible model)).map groupNames).bind fun names =>
      if names = [] then none else some ⟨.children, names⟩

theorem inParentheses_eq_some_iff {text inner : Bytes} :
    inParentheses text = some inner ↔ text = 0x28 :: (inner ++ [0x29]) := by
  unfold inParentheses
  constructor
  · intro enclosed
    split at enclosed
    · rename_i marks
      cases enclosed
      cases text with
      | nil => cases marks.1
      | cons first text =>
          cases marks.1
          exact congrArg (0x28 :: ·) (List.dropLast_append_getLast? _ marks.2).symm
    · cases enclosed
  · rintro rfl
    rw [if_pos ⟨rfl, List.getLast?_concat⟩, List.tail_cons, List.dropLast_concat]

/-- The tests that `parse_element_model` makes of a group. -/
theorem isGroup_eq (text : Bytes) :
    (text.length ≥ 2 && text.head? == some 0x28 && text.getLast? == some 0x29) = (inParentheses text).isSome := by
  unfold inParentheses
  cases text with
  | nil => rfl
  | cons first inner =>
      cases inner with
      | nil => simp
      | cons second inner =>
          rw [List.getLast?_cons_cons]
          by_cases opens : first = 0x28
          · by_cases closes : (second :: inner).getLast? = some 0x29
            · simp [opens, closes]
            · simp [opens, closes]
          · simp [opens]

theorem substr_group {text inner : Bytes} (enclosed : text = 0x28 :: (inner ++ [0x29])) :
    substr text 1 (text.length - 2) = inner := by
  rw [enclosed]
  simp [substr]

theorem pcdata_eq : ascii "(#PCDATA)" = 0x28 :: (ascii "#PCDATA" ++ [0x29]) := by decide

/-- A content specification declares what it specifies. -/
theorem elementModel_eq_some_iff {model : Bytes} {declaration : ElementDeclaration} :
    elementModel model = some declaration ↔ Specifies (visible model) declaration := by
  unfold elementModel
  generalize visible model = text
  constructor
  · intro isModel
    split at isModel
    · rename_i any
      cases isModel
      exact any ▸ .any
    split at isModel
    · rename_i empty
      cases isModel
      exact empty ▸ .empty
    split at isModel
    · rename_i pcdata
      cases isModel
      exact pcdata ▸ .pcdata
    · rename_i pcdata
      obtain ⟨names, isGroup, listed⟩ := Option.bind_eq_some_iff.mp isModel
      obtain ⟨inner, enclosed, rfl⟩ := Option.map_eq_some_iff.mp isGroup
      have isText := inParentheses_eq_some_iff.mp enclosed
      subst isText
      split at listed
      · cases listed
      · rename_i named
        cases listed
        refine .children (fun same => pcdata ?_) named
        rw [same, pcdata_eq]
  · intro specifies
    cases specifies with
    | any => rfl
    | empty => rfl
    | pcdata => rfl
    | @children inner others named =>
        have keywords : ascii "ANY" = 0x41 :: ascii "NY" ∧ ascii "EMPTY" = 0x45 :: ascii "MPTY" := by decide
        rw [if_neg, if_neg, if_neg, inParentheses_eq_some_iff.mpr rfl, Option.map_some, Option.bind_some,
          if_neg named]
        · intro same
          rw [pcdata_eq] at same
          exact others (List.append_cancel_right (List.cons.inj same).2)
        · intro same
          rw [keywords.2] at same
          cases (List.cons.inj same).1
        · intro same
          rw [keywords.1] at same
          cases (List.cons.inj same).1

theorem stripAsciiSpace_eq (model : Bytes) : stripAsciiSpace model = visible model := by
  refine List.filter_congr fun byte _ => Bool.eq_iff_iff.mpr ?_
  simp [isAsciiSpace, and_assoc]

theorem itemName_mark {ch : UInt8} (mark : ch ∈ [0x3F, 0x2A, 0x2B]) (item : Bytes) :
    itemName (ch :: item) = itemName item :=
  List.filter_cons_of_neg fun kept => of_decide_eq_true kept mark

theorem itemName_letter {ch : UInt8} (letter : ch ∉ [0x3F, 0x2A, 0x2B]) (item : Bytes) :
    itemName (ch :: item) = ch :: itemName item :=
  List.filter_cons_of_pos (decide_eq_true letter)

/-- The loop of `split_names`, where `current` is in front of the next name. -/
theorem splitNamesLoop_eq (text current : Bytes) :
    splitNamesLoop text current =
      (((text.splitOn 0x2C).map itemName).modifyHead (current ++ ·)).filter (· ≠ []) := by
  induction text generalizing current with
  | nil =>
      rw [List.splitOn_nil]
      cases current <;> simp [splitNamesLoop, itemName]
  | cons ch text ih =>
      obtain ⟨item, items, parts⟩ := List.exists_cons_of_ne_nil (List.splitOn_ne_nil 0x2C text)
      rw [splitNamesLoop, List.splitOn_cons_eq_if_modifyHead]
      have isMark : (ch == 0x3F || ch == 0x2A || ch == 0x2B) = true ↔ ch ∈ [0x3F, 0x2A, 0x2B] := by
        simp [or_assoc]
      by_cases comma : (ch == 0x2C) = true
      · rw [if_pos comma, if_pos comma, ih, ih, parts]
        cases current <;> simp [itemName]
      rw [if_neg comma, if_neg comma]
      by_cases mark : ch ∈ [0x3F, 0x2A, 0x2B]
      · rw [if_pos (isMark.mpr mark), ih, parts]
        simp only [List.map_cons, List.modifyHead_cons, itemName_mark mark]
      · rw [if_neg (mt isMark.mp mark), ih, parts]
        simp only [List.map_cons, List.modifyHead_cons, itemName_letter mark, List.append_assoc,
          List.singleton_append]

theorem splitNames_eq (inner : Bytes) : splitNames inner = groupNames inner := by
  rw [splitNames, splitNamesLoop_eq, groupNames]
  cases inner.splitOn 0x2C <;> rfl

/-- White space in a content specification does not count. -/
theorem elementModel_congr {model other : Bytes} (same : stripAsciiSpace model = stripAsciiSpace other) :
    elementModel model = elementModel other := by
  rw [stripAsciiSpace_eq, stripAsciiSpace_eq] at same
  unfold elementModel
  rw [same]

theorem elementModel_dropWhile {condition : Nat → Bool} (spaces : ∀ c, condition c = true → isSpace c = true)
    (model : Text) : elementModel (utf8 (model.dropWhile condition)) = elementModel (utf8 model) := by
  have front : squeeze (model.takeWhile condition) = [] :=
    squeeze_spaces fun c member => isSpace_iff.mp (spaces c (List.mem_takeWhile_imp member))
  have whole : squeeze model = squeeze (model.dropWhile condition) := by
    have split := squeeze_append (model.takeWhile condition) (model.dropWhile condition)
    rwa [List.takeWhile_append_dropWhile, front, List.nil_append] at split
  exact elementModel_congr whole.symm

/-! ## Declarations -/

namespace Parser

theorem parseElementModel_eq_ok_iff {σ : Type} {model : Bytes} {location : SourceLocation}
    {declaration : ElementDeclaration} {s t : σ} :
    (parseElementModel model location).run s = (.ok declaration, t) ↔
      elementModel model = some declaration ∧ t = s := by
  unfold elementModel parseElementModel
  rw [stripAsciiSpace_eq]
  generalize visible model = text
  dsimp only
  by_cases any : text = ascii "ANY"
  · rw [if_pos (beq_iff_eq.mpr any), if_pos any]
    simp [eq_comm]
  by_cases empty : text = ascii "EMPTY"
  · rw [if_neg (by simpa using any), if_pos (beq_iff_eq.mpr empty), if_neg any, if_pos empty]
    simp [eq_comm]
  by_cases pcdata : text = ascii "(#PCDATA)"
  · rw [if_neg (by simpa using any), if_neg (by simpa using empty), if_pos (beq_iff_eq.mpr pcdata), if_neg any,
      if_neg empty, if_pos pcdata]
    simp [eq_comm]
  rw [if_neg (by simpa using any), if_neg (by simpa using empty), if_neg (by simpa using pcdata), if_neg any,
    if_neg empty, if_neg pcdata]
  cases enclosed : inParentheses text with
  | none =>
      rw [isGroup_eq, enclosed]
      simp
  | some inner =>
      rw [isGroup_eq, enclosed, substr_group (inParentheses_eq_some_iff.mp enclosed), splitNames_eq]
      by_cases named : groupNames inner = []
      · simp [named]
      · have filled : (groupNames inner).isEmpty = false := by simpa using named
        rw [Option.isSome_some, filled, Option.map_some, Option.bind_some, if_neg named]
        simp [eq_comm]

theorem declareElement_eq_ok_iff {name model : Bytes} {location : SourceLocation} {s t : ParserState} :
    (declareElement name model location).run s = (.ok (), t) ↔
      lookupKey name s.dtd.elements = none ∧ ∃ declaration, elementModel model = some declaration ∧
        t = { s with dtd := { s.dtd with elements := emplaceKey name declaration s.dtd.elements } } := by
  unfold declareElement
  rw [run_read_bind]
  cases found : lookupKey name s.dtd.elements with
  | some declared => simp
  | none =>
      simp only [Option.isSome_none, Bool.false_eq_true, if_false, bind_eq_ok,
        parseElementModel_eq_ok_iff, true_and]
      constructor
      · rintro ⟨declaration, _, ⟨isModel, rfl⟩, entered⟩
        cases entered
        exact ⟨declaration, isModel, rfl⟩
      · rintro ⟨declaration, isModel, rfl⟩
        exact ⟨declaration, s, ⟨isModel, rfl⟩, rfl⟩

variable (p : Parser)

/-- The state in which one more declaration has been counted. -/
def counted (s : ParserState) : ParserState :=
  { s with dtd := { s.dtd with declarationCount := s.dtd.declarationCount + 1 } }

theorem enforceDtdDeclarationLimit_eq_ok_iff {s t : ParserState} :
    p.enforceDtdDeclarationLimit.run s = (.ok (), t) ↔
      s.dtd.declarationCount + 1 ≤ p.options.maxDtdDeclarations ∧ t = counted s := by
  unfold enforceDtdDeclarationLimit modifyDtd
  rw [run_modify_bind, run_read_bind]
  by_cases beyond : s.dtd.declarationCount + 1 > p.options.maxDtdDeclarations
  · rw [if_pos beyond]
    constructor
    · intro returned
      cases returned
    · rintro ⟨within, _⟩
      exact absurd within (Nat.not_le_of_gt beyond)
  · rw [if_neg beyond]
    constructor
    · intro returned
      cases returned
      exact ⟨Nat.le_of_not_gt beyond, rfl⟩
    · rintro ⟨_, rfl⟩
      rfl

end Parser

/-- The state in front of a text. -/
def inFrontOf (text : Text) : ParserState := { rest := text.map fun value => ⟨value, {}⟩ }

/-- What stands between `<!ELEMENT` and `>` in a declaration of this name. -/
structure Declares (body name model : Text) : Prop where
  named : Name name
  split : ∃ space gap, body = space ++ (name ++ (gap ++ model)) ∧ space ≠ [] ∧ Spaces space ∧
    Spaces gap ∧ (∀ c ∈ model.head?, isSpace c = false) ∧
    ∀ c ∈ (gap ++ model).head?, isNameChar c = false

theorem takeWhile_of_head {condition : Nat → Bool} {text : Text}
    (stops : ∀ c ∈ text.head?, condition c = false) : text.takeWhile condition = [] := by
  cases text with
  | nil => rfl
  | cons c text => exact List.takeWhile_cons_of_neg (by simp [stops c rfl])

theorem dropWhile_of_head {condition : Nat → Bool} {text : Text}
    (stops : ∀ c ∈ text.head?, condition c = false) : text.dropWhile condition = text := by
  cases text with
  | nil => rfl
  | cons c text => exact List.dropWhile_cons_of_neg (by simp [stops c rfl])

theorem head_takeWhile {condition : Nat → Bool} {text : Text} :
    ∀ c ∈ (text.dropWhile condition).head?, condition c = false := by
  intro c isHead
  have stopped := List.head?_dropWhile_not condition text
  rw [Option.mem_def.mp isHead] at stopped
  simpa using stopped

/-- The way to read a declaration. -/
structure ReadsBody (body name model : Text) : Prop where
  spaced : ∃ c ∈ body.head?, isSpace c = true
  starts : ∃ c ∈ (body.dropWhile isSpace).head?, isNameStart c = true
  name : (body.dropWhile isSpace).takeWhile isNameChar = name
  model : ((body.dropWhile isSpace).dropWhile isNameChar).dropWhile isSpace = model

theorem declares_iff_readsBody {body name model : Text} : Declares body name model ↔ ReadsBody body name model := by
  constructor
  · rintro ⟨named, space, gap, rfl, nonempty, spaces, gaps, ended, stops⟩
    have letters := (name_iff.mp named).1
    obtain ⟨letter, rest, rfl, starts⟩ := named.front
    have first : (space ++ (letter :: rest ++ (gap ++ model))).dropWhile isSpace =
        letter :: rest ++ (gap ++ model) := by
      rw [List.dropWhile_append_of_pos (spaces_iff.mpr spaces)]
      exact List.dropWhile_cons_of_neg (by simp [isSpace_of_nameStart starts])
    refine ⟨?_, ⟨letter, by rw [first]; rfl, isNameStart_iff.mpr starts⟩, ?_, ?_⟩
    · cases space with
      | nil => exact absurd rfl nonempty
      | cons c space => exact ⟨c, rfl, isSpace_iff.mpr (spaces c List.mem_cons_self)⟩
    · rw [first, List.takeWhile_append_of_pos letters, takeWhile_of_head stops, List.append_nil]
    · rw [first, List.dropWhile_append_of_pos letters, dropWhile_of_head stops,
        List.dropWhile_append_of_pos (spaces_iff.mpr gaps), dropWhile_of_head ended]
  · rintro ⟨⟨c, isHead, space⟩, ⟨letter, isLetter, starts⟩, rfl, rfl⟩
    refine ⟨name_iff.mpr ⟨fun c member => List.mem_takeWhile_imp member, ?_⟩, body.takeWhile isSpace,
      ((body.dropWhile isSpace).dropWhile isNameChar).takeWhile isSpace, ?_, ?_,
      spaces_iff.mp fun c member => List.mem_takeWhile_imp member,
      spaces_iff.mp fun c member => List.mem_takeWhile_imp member, head_takeWhile, ?_⟩
    · refine ⟨letter, ?_, starts⟩
      have nameChar : isNameChar letter = true := by simp [isNameChar, starts]
      cases named : body.dropWhile isSpace with
      | nil =>
          rw [named] at isLetter
          cases isLetter
      | cons first rest =>
          rw [named] at isLetter
          cases isLetter
          rw [List.takeWhile_cons_of_pos nameChar]
          rfl
    · simp only [List.takeWhile_append_dropWhile]
    · intro empty
      cases body with
      | nil => cases isHead
      | cons first rest =>
          cases isHead
          rw [List.takeWhile_cons_of_pos space] at empty
          cases empty
    · rw [List.takeWhile_append_dropWhile]
      exact head_takeWhile

/-- There is one way to read a declaration. -/
theorem Declares.unique {body name other model rest : Text} (declares : Declares body name model)
    (others : Declares body other rest) : name = other ∧ model = rest := by
  have first := declares_iff_readsBody.mp declares
  have second := declares_iff_readsBody.mp others
  exact ⟨first.name.symm.trans second.name, first.model.symm.trans second.model⟩

namespace Parser

variable (p : Parser)

/-- The state behind a declaration. -/
def declared (length : Nat) (name : Bytes) (declaration : ElementDeclaration) (s : ParserState) : ParserState :=
  { s with
    rest := s.rest.drop length
    dtd := { s.dtd with
      declarationCount := s.dtd.declarationCount + 1
      elements := emplaceKey name declaration s.dtd.elements } }

/-- Where a text may stop that is followed by a mark at which it stops. -/
theorem stopsAt_mark_iff {condition : Nat → Bool} {chars tail : List DecodedChar} {close : DecodedChar}
    (stops : condition close.value = false) :
    StopsAt condition (chars ++ close :: tail) ↔ ∀ c ∈ (values chars).head?, condition c = false := by
  cases chars <;> simp [StopsAt, stops]

/-- Two texts that end before the same mark. -/
theorem append_mark_inj {a b x y : List DecodedChar} {c d : DecodedChar} {mark : Nat}
    (same : a ++ c :: x = b ++ d :: y) (left : mark ∉ values a) (right : mark ∉ values b)
    (isMark : c.value = mark) (marks : d.value = mark) : a = b ∧ x = y := by
  have whole : ∀ {a x : List DecodedChar} {c : DecodedChar}, mark ∉ values a → c.value = mark →
      (a ++ c :: x).takeWhile (fun c => c.value != mark) = a := by
    intro a x c absent isMark
    rw [List.takeWhile_append_of_pos]
    · simp [isMark]
    · intro e member
      have differs : e.value ≠ mark := fun same => absent (same ▸ List.mem_map_of_mem member)
      exact bne_iff_ne.mpr differs
  have heads : a = b := by rw [← whole left isMark, same, whole right marks]
  subst heads
  cases List.append_cancel_left same
  exact ⟨rfl, rfl⟩

theorem spaces_lack {text : List Nat} (spaces : ∀ value ∈ text, isSpace value = true) : 0x3E ∉ text :=
  fun member => absurd (spaces _ member) (by decide)

theorem lacks_name {text : Text} (named : Name text) : 0x3E ∉ text :=
  fun member => absurd ((name_iff.mp named).1 _ member) (by decide)

theorem stopsAt_name {name after : List DecodedChar} (named : Name (values name)) :
    StopsAt isSpace (name ++ after) := by
  cases name with
  | nil => exact absurd named id
  | cons first name =>
      intro c isFirst
      cases isFirst
      exact isSpace_of_nameStart named.1

/-- The part of the reader behind the keyword. -/
theorem readDeclaration_eq_ok_iff {start : SourceLocation} {s t : ParserState}
    {inside tail : List DecodedChar} {close : DecodedChar} (isRest : s.rest = inside ++ close :: tail)
    (closes : close.value = 0x3E) (closed : 0x3E ∉ values inside) :
    (do
        scan p.skipWhitespace
        let name ← scan p.parseName
        scan p.skipWhitespace
        let model ← scan (whilePeek (· != 0x3E) p.takePeek [])
        scan (p.expect 0x3E "ELEMENT declaration close")
        declareElement name model start : ParserM Unit).run s = (.ok (), t) ↔
      ∃ space name gap model declaration,
        values inside = space ++ (name ++ (gap ++ model)) ∧ Spaces space ∧ Name name ∧ Spaces gap ∧
          (∀ c ∈ model.head?, isSpace c = false) ∧ (∀ c ∈ (gap ++ model).head?, isNameChar c = false) ∧
          name.length ≤ p.options.maxTokenBytes ∧ lookupKey (utf8 name) s.dtd.elements = none ∧
          elementModel (utf8 model) = some declaration ∧
          t = { s with
            rest := tail
            dtd := { s.dtd with elements := emplaceKey (utf8 name) declaration s.dtd.elements } } := by
  constructor
  · intro ran
    obtain ⟨_, _, scanned1, ran1⟩ := bind_eq_ok.mp ran
    obtain ⟨rest1, skipped, rfl⟩ := run_scan_eq_ok_iff.mp scanned1
    obtain ⟨space, split1, spaces, _⟩ := p.skipWhitespace_eq_ok_iff.mp skipped
    obtain ⟨_, _, scanned2, ran2⟩ := bind_eq_ok.mp ran1
    obtain ⟨rest2, read, rfl⟩ := run_scan_eq_ok_iff.mp scanned2
    obtain ⟨name, split2, named, stops, rfl, short⟩ := p.parseName_eq_ok_iff.mp read
    obtain ⟨_, _, scanned3, ran3⟩ := bind_eq_ok.mp ran2
    obtain ⟨rest3, skipped3, rfl⟩ := run_scan_eq_ok_iff.mp scanned3
    obtain ⟨gap, split3, gaps, ended⟩ := p.skipWhitespace_eq_ok_iff.mp skipped3
    obtain ⟨_, _, scanned4, ran4⟩ := bind_eq_ok.mp ran3
    obtain ⟨rest4, taken, rfl⟩ := run_scan_eq_ok_iff.mp scanned4
    obtain ⟨model, split4, ⟨inner, _⟩, rfl, _⟩ := p.takePeek_buffers.whilePeek_eq_ok_iff.mp taken
    obtain ⟨_, _, scanned5, ran5⟩ := bind_eq_ok.mp ran4
    obtain ⟨rest5, expected, rfl⟩ := run_scan_eq_ok_iff.mp scanned5
    obtain ⟨c, isClose, split5⟩ := p.expect_eq_ok_iff.mp expected
    obtain ⟨new, declaration, isModel, rfl⟩ := declareElement_eq_ok_iff.mp ran5
    change rest1 = _ at split2
    change rest2 = _ at split3
    change rest3 = _ at split4
    change rest4 = _ at split5
    subst split5 split4 split3 split2
    have noMark : 0x3E ∉ values model := fun member => absurd (inner _ member) (by decide)
    have whole : inside ++ close :: tail = space ++ (name ++ (gap ++ model)) ++ c :: rest5 := by
      rw [← isRest, split1]
      simp
    obtain ⟨rfl, rfl⟩ := append_mark_inj whole closed
      (by simp [spaces_lack spaces, lacks_name named, spaces_lack gaps, noMark]) closes isClose
    refine ⟨values space, values name, values gap, values model, declaration, by simp, spaces_iff.mp spaces,
      named, spaces_iff.mp gaps, ?_, ?_, by simpa using short, new, ?_, rfl⟩
    · exact (stopsAt_mark_iff (by rw [isClose]; rfl)).mp ended
    · rw [← values_append]
      refine (@stopsAt_mark_iff _ _ tail c (by rw [isClose]; rfl)).mp ?_
      rw [List.append_assoc]
      exact stops
    · rw [foldl_utf8] at isModel
      exact isModel
  · rintro ⟨space, name, gap, model, declaration, split, spaces, named, gaps, ended, stops, short, new, isModel, rfl⟩
    obtain ⟨spaceChars, rest1, rfl, rfl, isRest1⟩ := values_eq_append split
    obtain ⟨nameChars, rest2, rfl, rfl, isRest2⟩ := values_eq_append isRest1
    obtain ⟨gapChars, modelChars, rfl, rfl, rfl⟩ := values_eq_append isRest2
    have noMark : 0x3E ∉ values modelChars := fun member => closed (by simp [member])
    have stop : ∀ {condition : Nat → Bool}, condition 0x3E = false → condition close.value = false := by
      rw [closes]
      exact id
    let rest4 := close :: tail
    let rest3 := modelChars ++ rest4
    let rest2 := gapChars ++ rest3
    let rest1 := nameChars ++ rest2
    have skipped1 : (scan p.skipWhitespace).run s = (.ok (), s.withRest rest1) := by
      refine run_scan_eq_ok_iff.mpr ⟨_, p.skipWhitespace_eq_ok_iff.mpr ⟨spaceChars, ?_, spaces_iff.mpr spaces, ?_⟩, rfl⟩
      · rw [isRest]
        simp [rest1, rest2, rest3, rest4]
      · exact stopsAt_name named
    have read : (scan p.parseName).run (s.withRest rest1) = (.ok (utf8 (values nameChars)), s.withRest rest2) := by
      refine run_scan_eq_ok_iff.mpr ⟨_, p.parseName_eq_ok_iff.mpr
        ⟨nameChars, rfl, named, ?_, rfl, by simpa using short⟩, rfl⟩
      have joined : rest2 = (gapChars ++ modelChars) ++ close :: tail := (List.append_assoc _ _ _).symm
      rw [joined, stopsAt_mark_iff (stop rfl), values_append]
      exact stops
    have skipped2 : (scan p.skipWhitespace).run (s.withRest rest2) = (.ok (), s.withRest rest3) :=
      run_scan_eq_ok_iff.mpr ⟨_, p.skipWhitespace_eq_ok_iff.mpr ⟨gapChars, rfl, spaces_iff.mpr gaps,
        (stopsAt_mark_iff (stop rfl)).mpr ended⟩, rfl⟩
    have taken : (scan (whilePeek (· != 0x3E) p.takePeek [])).run (s.withRest rest3) =
        (.ok (utf8 (values modelChars)), s.withRest rest4) := by
      refine run_scan_eq_ok_iff.mpr ⟨_, p.takePeek_buffers.whilePeek_eq_ok_iff.mpr
        ⟨modelChars, rfl, ⟨?_, ?_⟩, (foldl_utf8 [] _).symm, fun _ _ _ => trivial⟩, rfl⟩
      · intro value member
        exact bne_iff_ne.mpr fun same => noMark (same ▸ member)
      · exact (@stopsAt_mark_iff _ [] _ _ (stop rfl)).mpr nofun
    have expected : (scan (p.expect 0x3E "ELEMENT declaration close")).run (s.withRest rest4) =
        (.ok (), s.withRest tail) :=
      run_scan_eq_ok_iff.mpr ⟨_, p.expect_eq_ok_iff.mpr ⟨close, closes, rfl⟩, rfl⟩
    rw [run_bind_of_ok skipped1, run_bind_of_ok read, run_bind_of_ok skipped2, run_bind_of_ok taken,
      run_bind_of_ok expected]
    exact declareElement_eq_ok_iff.mpr ⟨new, declaration, isModel, rfl⟩

theorem head_of_space {body : Text} {tail : List DecodedChar} {inside : List DecodedChar} {close : DecodedChar}
    (isBody : values inside = body) (closes : close.value = 0x3E) :
    isSpace (peek (inside ++ close :: tail)) = true ↔ ∃ c ∈ body.head?, isSpace c = true := by
  subst isBody
  cases inside with
  | nil => simp [closes, isSpace]
  | cons c inside => simp

theorem parseElementDeclaration_eq_ok_iff {s t : ParserState} {body after : Text}
    (written : values s.rest = u32 "<!ELEMENT" ++ (body ++ 0x3E :: after)) (closed : 0x3E ∉ body) :
    p.parseElementDeclaration.run s = (.ok (), t) ↔
      s.dtd.declarationCount + 1 ≤ p.options.maxDtdDeclarations ∧
        ∃ name model declaration, Declares body name model ∧ name.length ≤ p.options.maxTokenBytes ∧
          lookupKey (utf8 name) s.dtd.elements = none ∧ elementModel (utf8 model) = some declaration ∧
          t = declared (body.length + 10) (utf8 name) declaration s := by
  obtain ⟨keyword, rest, isRest, isKeyword, isAfter⟩ := values_eq_append written
  obtain ⟨inside, closing, rfl, rfl, isClosing⟩ := values_eq_append isAfter
  cases closing with
  | nil => cases isClosing
  | cons close tail =>
  obtain ⟨closes, _⟩ := List.cons.inj isClosing
  have opened : (scan (p.expectSequence (u32 "<!ELEMENT") "ELEMENT declaration")).run (counted s) =
      (.ok (), (counted s).withRest (inside ++ close :: tail)) :=
    run_scan_eq_ok_iff.mpr ⟨_, p.expectSequence_eq_ok_iff.mpr ⟨keyword, isKeyword, isRest⟩, rfl⟩
  have behind : s.rest.drop ((values inside).length + 10) = tail := by
    have size : keyword.length = 9 := by
      rw [← values_length, isKeyword]
      rfl
    rw [isRest, values_length, List.drop_append, List.drop_append, size,
      List.drop_eq_nil_of_le (by omega), List.drop_eq_nil_of_le (by omega),
      show inside.length + 10 - 9 - inside.length = 1 by omega]
    rfl
  have inserted : ∀ name declaration, declared ((values inside).length + 10) name declaration s =
      { (counted s).withRest (inside ++ close :: tail) with
        rest := tail
        dtd := { (counted s).dtd with elements := emplaceKey name declaration s.dtd.elements } } := by
    intro name declaration
    rw [declared, behind]
    rfl
  unfold parseElementDeclaration
  rw [run_look_bind]
  constructor
  · intro ran
    obtain ⟨_, _, isCounted, ran1⟩ := bind_eq_ok.mp ran
    obtain ⟨within, rfl⟩ := p.enforceDtdDeclarationLimit_eq_ok_iff.mp isCounted
    rw [run_bind_of_ok opened, run_look_bind] at ran1
    cases spaced : isSpace (peek ((counted s).withRest (inside ++ close :: tail)).rest) with
    | false =>
        rw [spaced, Bool.not_false, if_pos rfl] at ran1
        cases ran1
    | true =>
        rw [spaced, Bool.not_true, if_neg Bool.false_ne_true] at ran1
        obtain ⟨space, name, gap, model, declaration, split, spaces, named, gaps, ended, stops, short, new,
          isModel, rfl⟩ := (p.readDeclaration_eq_ok_iff rfl closes closed).mp ran1
        refine ⟨within, name, model, declaration, ⟨named, space, gap, split, ?_, spaces, gaps, ended, stops⟩,
          short, new, isModel, (inserted _ _).symm⟩
        rintro rfl
        obtain ⟨first, isFirst, isSpaced⟩ := (head_of_space rfl closes).mp spaced
        obtain ⟨letter, letters, rfl, starts⟩ := named.front
        rw [split] at isFirst
        cases isFirst
        rw [isSpace_of_nameStart starts] at isSpaced
        cases isSpaced
  · rintro ⟨within, name, model, declaration, ⟨named, space, gap, split, nonempty, spaces, gaps, ended, stops⟩,
      short, new, isModel, rfl⟩
    have spaced : isSpace (peek ((counted s).withRest (inside ++ close :: tail)).rest) = true := by
      refine (head_of_space rfl closes).mpr ?_
      cases space with
      | nil => exact absurd rfl nonempty
      | cons first space => exact ⟨first, by rw [split]; rfl, isSpace_iff.mpr (spaces first List.mem_cons_self)⟩
    rw [run_bind_of_ok (p.enforceDtdDeclarationLimit_eq_ok_iff.mpr ⟨within, rfl⟩), run_bind_of_ok opened,
      run_look_bind, spaced, Bool.not_true, if_neg Bool.false_ne_true, inserted]
    exact (p.readDeclaration_eq_ok_iff rfl closes closed).mpr
      ⟨space, name, gap, model, declaration, split, spaces, named, gaps, ended, stops, short, new, isModel, rfl⟩

end Parser

end XmlParser
