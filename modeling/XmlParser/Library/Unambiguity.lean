import XmlParser.Library.Grammar

/-! A text is the spelling of at most one readable tree. Each lemma parts a text
into the spelling of an item and what follows it, in at most one way. -/

set_option autoImplicit false

namespace XmlParser.Grammar

/-! ## Runs of characters and closers -/

/-- A run of characters of one kind ends where the kind does. -/
theorem run_unique {kind : Nat → Prop} {left right leftRest rightRest : Text}
    (same : left ++ leftRest = right ++ rightRest) (leftKind : ∀ c ∈ left, kind c)
    (rightKind : ∀ c ∈ right, kind c) (leftEnds : ∀ c ∈ leftRest.head?, ¬ kind c)
    (rightEnds : ∀ c ∈ rightRest.head?, ¬ kind c) : left = right ∧ leftRest = rightRest := by
  induction left generalizing right with
  | nil =>
      cases right with
      | nil => exact ⟨rfl, same⟩
      | cons c right =>
          have front : leftRest = c :: (right ++ rightRest) := same
          exact absurd (rightKind c List.mem_cons_self) (leftEnds c (by rw [front]; rfl))
  | cons c left ih =>
      cases right with
      | nil =>
          have front : c :: (left ++ leftRest) = rightRest := same
          exact absurd (leftKind c List.mem_cons_self) (rightEnds c (by rw [← front]; rfl))
      | cons d right =>
          rw [List.cons_append, List.cons_append, List.cons.injEq] at same
          obtain ⟨rfl, same⟩ := same
          obtain ⟨rfl, rest⟩ := ih same (List.forall_mem_cons.mp leftKind).2
            (List.forall_mem_cons.mp rightKind).2
          exact ⟨rfl, rest⟩

/-- The text `stop` starts nowhere inside `body`, read with what follows. -/
def Avoids (stop : Text) : Text → Text → Prop
  | [], _ => True
  | value :: body, after => ¬ stop <+: value :: (body ++ after) ∧ Avoids stop body after

/-- A body ends at its first closer. -/
theorem Avoids.unique {stop left right leftRest rightRest : Text}
    (avoidsLeft : Avoids stop left leftRest) (avoidsRight : Avoids stop right rightRest)
    (closesLeft : stop <+: leftRest) (closesRight : stop <+: rightRest)
    (same : left ++ leftRest = right ++ rightRest) : left = right ∧ leftRest = rightRest := by
  induction left generalizing right with
  | nil =>
      cases right with
      | nil => exact ⟨rfl, same⟩
      | cons c right =>
          have front : leftRest = c :: (right ++ rightRest) := same
          exact absurd (front ▸ closesLeft) avoidsRight.1
  | cons c left ih =>
      cases right with
      | nil =>
          have front : c :: (left ++ leftRest) = rightRest := same
          exact absurd (front ▸ closesRight) avoidsLeft.1
      | cons d right =>
          rw [List.cons_append, List.cons_append, List.cons.injEq] at same
          obtain ⟨rfl, same⟩ := same
          obtain ⟨rfl, rest⟩ := ih avoidsLeft.2 avoidsRight.2 same
          exact ⟨rfl, rest⟩

theorem avoids_pair_iff {a b : Nat} (different : a ≠ b) (body tail : Text) :
    Avoids [a, b] body (a :: b :: tail) ↔ ¬ [a, b] <:+: body := by
  induction body with
  | nil => simp [Avoids]
  | cons value body ih =>
      rw [Avoids, ih, List.infix_cons_iff, not_or]
      refine and_congr_left fun _ => not_congr ?_
      cases body with
      | nil =>
          simp only [List.nil_append, List.cons_prefix_cons, List.nil_prefix, and_true,
            List.prefix_nil, reduceCtorEq, and_false, iff_false, not_and]
          exact fun _ same => different same.symm
      | cons second body => simp [List.cons_prefix_cons]

theorem avoids_cdataClose_iff (body tail : Text) :
    Avoids [0x5D, 0x5D, 0x3E] body (0x5D :: 0x5D :: 0x3E :: tail) ↔ ¬ [0x5D, 0x5D, 0x3E] <:+: body := by
  induction body with
  | nil => simp [Avoids]
  | cons value body ih =>
      rw [Avoids, ih, List.infix_cons_iff, not_or]
      refine and_congr_left fun _ => not_congr ?_
      rcases body with _ | ⟨second, _ | ⟨third, body⟩⟩ <;> simp [List.cons_prefix_cons]

theorem avoids_hyphens_iff (body tail : Text) :
    Avoids [0x2D, 0x2D] body (0x2D :: 0x2D :: tail) ↔ ¬ [0x2D, 0x2D] <:+: body ++ [0x2D] := by
  induction body with
  | nil => simp [Avoids, List.infix_cons_iff]
  | cons value body ih =>
      have head : value :: body ++ [0x2D] = value :: (body ++ [0x2D]) := rfl
      rw [Avoids, ih, head, List.infix_cons_iff, not_or]
      refine and_congr_left fun _ => not_congr ?_
      cases body <;> simp [List.cons_prefix_cons]

/-! ## Comments, CDATA sections and processing instructions -/

section Unique

variable {d : Dialect}

theorem comment_unique {left right leftRest rightRest : Text} (readableLeft : CommentReadable d left)
    (readableRight : CommentReadable d right)
    (same : renderComment left ++ leftRest = renderComment right ++ rightRest) :
    left = right ∧ leftRest = rightRest := by
  simp only [renderComment, List.append_assoc, List.append_cancel_left_eq] at same
  obtain ⟨rfl, rest⟩ := Avoids.unique ((avoids_hyphens_iff left (0x3E :: leftRest)).mpr readableLeft.hyphens)
    ((avoids_hyphens_iff right (0x3E :: rightRest)).mpr readableRight.hyphens) ⟨_, rfl⟩ ⟨_, rfl⟩ same
  exact ⟨rfl, by simpa using rest⟩

theorem cdata_unique {left right leftRest rightRest : Text} (readableLeft : CdataReadable d left)
    (readableRight : CdataReadable d right)
    (same : renderCdata left ++ leftRest = renderCdata right ++ rightRest) :
    left = right ∧ leftRest = rightRest := by
  simp only [renderCdata, List.append_assoc, List.append_cancel_left_eq] at same
  obtain ⟨rfl, rest⟩ := Avoids.unique ((avoids_cdataClose_iff left leftRest).mpr readableLeft.close)
    ((avoids_cdataClose_iff right rightRest).mpr readableRight.close) ⟨_, rfl⟩ ⟨_, rfl⟩ same
  exact ⟨rfl, by simpa using rest⟩

theorem Name.chars {name : Text} (named : Name name) : ∀ c ∈ name, NameChar c := by
  cases name with
  | nil => exact fun _ member => nomatch member
  | cons first rest => exact List.forall_mem_cons.mpr ⟨.inl named.1, named.2⟩

theorem IsSpace.not_nameChar {c : Nat} (space : IsSpace c) : ¬ NameChar c := by
  unfold IsSpace at space
  unfold NameChar NameStartChar
  omega

/-- White space, or what follows it, begins with no character of a name. -/
theorem spaces_end_name {space rest : Text} (spaces : Spaces space)
    (ends : space = [] → ∀ c ∈ rest.head?, ¬ NameChar c) :
    ∀ c ∈ (space ++ rest).head?, ¬ NameChar c := by
  cases space with
  | nil => exact ends rfl
  | cons first space =>
      intro c front
      cases front
      exact (spaces _ List.mem_cons_self).not_nameChar

theorem instruction_unique {left leftGap leftData right rightGap rightData leftRest rightRest : Text}
    (readableLeft : InstructionReadable d left leftGap leftData)
    (readableRight : InstructionReadable d right rightGap rightData)
    (same : renderInstruction left leftGap leftData ++ leftRest =
      renderInstruction right rightGap rightData ++ rightRest) :
    left = right ∧ leftGap = rightGap ∧ leftData = rightData ∧ leftRest = rightRest := by
  have question : ¬ NameChar 0x3F ∧ ¬ IsSpace 0x3F := by
    unfold NameChar NameStartChar IsSpace
    omega
  have dataEnds : ∀ {gap data rest : Text}, (gap = [] → ∀ c ∈ data.head?, ¬ NameChar c) → gap = [] →
      ∀ c ∈ (data ++ 0x3F :: rest).head?, ¬ NameChar c := by
    intro gap data rest joined none c front
    cases data with
    | nil =>
        cases front
        exact question.1
    | cons first data => exact joined none c front
  have dataStarts : ∀ {data rest : Text}, (∀ c ∈ data.head?, ¬ IsSpace c) →
      ∀ c ∈ (data ++ 0x3F :: rest).head?, ¬ IsSpace c := by
    intro data rest start c front
    cases data with
    | nil =>
        cases front
        exact question.2
    | cons first data => exact start c front
  simp only [renderInstruction, List.append_assoc, List.append_cancel_left_eq] at same
  obtain ⟨rfl, afterName⟩ := run_unique same readableLeft.name.chars readableRight.name.chars
    (spaces_end_name readableLeft.spaces (dataEnds readableLeft.joined))
    (spaces_end_name readableRight.spaces (dataEnds readableRight.joined))
  obtain ⟨rfl, afterGap⟩ := run_unique afterName readableLeft.spaces readableRight.spaces
    (dataStarts readableLeft.start) (dataStarts readableRight.start)
  obtain ⟨rfl, rest⟩ := Avoids.unique
    ((avoids_pair_iff (by decide) leftData leftRest).mpr readableLeft.close)
    ((avoids_pair_iff (by decide) rightData rightRest).mpr readableRight.close) ⟨_, rfl⟩ ⟨_, rfl⟩ afterGap
  exact ⟨rfl, rfl, rfl, by simpa using rest⟩

/-! ## Pieces and attributes -/

/-- No two values for one name. -/
def Dialect.Functional (d : Dialect) : Prop :=
  ∀ name left right, d.denotes name left → d.denotes name right → left = right

theorem piece_unique (functional : d.Functional) {excluded : Nat → Prop} (ampersand : excluded 0x26)
    {left right : Piece} {leftRest rightRest : Text} (readableLeft : left.Readable d excluded)
    (readableRight : right.Readable d excluded)
    (same : left.render ++ leftRest = right.render ++ rightRest) :
    left = right ∧ leftRest = rightRest := by
  cases left with
  | literal c =>
      cases right with
      | literal e =>
          injection same with front rest
          exact ⟨congrArg _ front, rest⟩
      | reference name value =>
          injection same with front _
          exact absurd ampersand (front ▸ readableLeft.2)
  | reference name value =>
      cases right with
      | literal e =>
          injection same with front _
          exact absurd ampersand (front ▸ readableRight.2)
      | reference other otherValue =>
          simp only [Piece.render, List.cons_append, List.cons.injEq, true_and, List.append_assoc] at same
          have ends : ∀ rest : Text, ∀ c ∈ ([0x3B] ++ rest).head?, ¬ c ≠ 0x3B := by
            intro rest c front
            cases front
            exact fun differs => differs rfl
          have others : ∀ {text : Text}, 0x3B ∉ text → ∀ c ∈ text, c ≠ 0x3B := by
            intro text absent c member isEnd
            exact absent (isEnd ▸ member)
          obtain ⟨rfl, rest⟩ := run_unique same (others readableLeft.1) (others readableRight.1)
            (ends leftRest) (ends rightRest)
          obtain rfl := functional name value otherValue readableLeft.2 readableRight.2
          exact ⟨rfl, by simpa using rest⟩

/-- A piece does not begin with a mark that is excluded, other than an ampersand. -/
theorem piece_front {excluded : Nat → Prop} {item : Piece} (readable : item.Readable d excluded)
    (rest : Text) :
    ∃ c more, item.render ++ rest = c :: more ∧ (c = 0x26 ∨ ¬ excluded c) := by
  cases item with
  | literal c => exact ⟨c, rest, rfl, .inr readable.2⟩
  | reference name value => exact ⟨0x26, _, rfl, .inl rfl⟩

theorem pieces_unique (functional : d.Functional) {excluded : Nat → Prop} (ampersand : excluded 0x26)
    {mark : Nat} (closes : excluded mark) (other : mark ≠ 0x26) {left right : List Piece}
    {leftRest rightRest : Text} (readableLeft : ∀ item ∈ left, item.Readable d excluded)
    (readableRight : ∀ item ∈ right, item.Readable d excluded)
    (same : renderPieces left ++ mark :: leftRest = renderPieces right ++ mark :: rightRest) :
    left = right ∧ leftRest = rightRest := by
  have inside : ∀ {item : Piece} {before after : Text}, item.Readable d excluded →
      mark :: before ≠ item.render ++ after := by
    intro item before after readable equal
    obtain ⟨c, more, front, kind⟩ := piece_front readable after
    rw [front] at equal
    injection equal with sameMark _
    subst sameMark
    cases kind with
    | inl isAmpersand => exact other isAmpersand
    | inr included => exact included closes
  induction left generalizing right with
  | nil =>
      cases right with
      | nil =>
          injection same with _ rest
          exact ⟨rfl, rest⟩
      | cons item right =>
          have front : mark :: leftRest = item.render ++ (renderPieces right ++ mark :: rightRest) := by
            rw [← List.append_assoc]
            exact same
          exact absurd front (inside (readableRight item List.mem_cons_self))
  | cons item left ih =>
      cases right with
      | nil =>
          have front : mark :: rightRest = item.render ++ (renderPieces left ++ mark :: leftRest) := by
            rw [← List.append_assoc]
            exact same.symm
          exact absurd front (inside (readableLeft item List.mem_cons_self))
      | cons next right =>
          have front : item.render ++ (renderPieces left ++ mark :: leftRest) =
              next.render ++ (renderPieces right ++ mark :: rightRest) := by
            rw [← List.append_assoc, ← List.append_assoc]
            exact same
          obtain ⟨rfl, rest⟩ := piece_unique functional ampersand
            (readableLeft item List.mem_cons_self) (readableRight next List.mem_cons_self) front
          obtain ⟨rfl, last⟩ := ih (List.forall_mem_cons.mp readableLeft).2
            (List.forall_mem_cons.mp readableRight).2 rest
          exact ⟨rfl, last⟩

theorem NameStartChar.not_space {c : Nat} (starter : NameStartChar c) : ¬ IsSpace c := by
  unfold NameStartChar at starter
  unfold IsSpace
  omega

theorem name_not_space {name rest : Text} (named : Name name) :
    ∀ c ∈ (name ++ rest).head?, ¬ IsSpace c := by
  obtain ⟨first, others, rfl, starter⟩ := named.front
  intro c same
  cases same
  exact starter.not_space

theorem attribute_unique (functional : d.Functional) {left right : Attribute}
    {leftRest rightRest : Text} (readableLeft : left.Readable d) (readableRight : right.Readable d)
    (same : left.render ++ leftRest = right.render ++ rightRest) :
    left = right ∧ leftRest = rightRest := by
  obtain ⟨before, name, beforeEquals, afterEquals, quote, value⟩ := left
  obtain ⟨before', name', beforeEquals', afterEquals', quote', value'⟩ := right
  have equals : ¬ NameChar 0x3D ∧ ¬ IsSpace 0x3D := by
    unfold NameChar NameStartChar IsSpace
    omega
  have quoteSpace : ∀ {attr : Attribute} {rest : Text}, attr.Readable d →
      ∀ c ∈ (attr.quote :: rest).head?, ¬ IsSpace c := by
    intro attr rest readable c front
    cases front
    rcases readable.quote with isQuote | isQuote
    · rw [isQuote]
      unfold IsSpace
      omega
    · rw [isQuote]
      unfold IsSpace
      omega
  have equalsEnds : ∀ {rest : Text}, ∀ c ∈ (0x3D :: rest).head?, ¬ NameChar c := by
    intro rest c front
    cases front
    exact equals.1
  have equalsSpace : ∀ {rest : Text}, ∀ c ∈ (0x3D :: rest).head?, ¬ IsSpace c := by
    intro rest c front
    cases front
    exact equals.2
  simp only [Attribute.render, List.append_assoc, List.cons_append] at same
  obtain ⟨rfl, rest1⟩ := run_unique same readableLeft.before readableRight.before
    (name_not_space readableLeft.name) (name_not_space readableRight.name)
  obtain ⟨rfl, rest2⟩ := run_unique rest1 readableLeft.name.chars readableRight.name.chars
    (spaces_end_name readableLeft.beforeEquals fun _ => equalsEnds)
    (spaces_end_name readableRight.beforeEquals fun _ => equalsEnds)
  obtain ⟨rfl, rest3⟩ := run_unique rest2 readableLeft.beforeEquals readableRight.beforeEquals
    equalsSpace equalsSpace
  injection rest3 with _ rest4
  obtain ⟨rfl, rest5⟩ := run_unique rest4 readableLeft.afterEquals readableRight.afterEquals
    (quoteSpace readableLeft) (quoteSpace readableRight)
  injection rest5 with sameQuote rest6
  subst sameQuote
  have notAmpersand : quote ≠ 0x26 := by
    rcases readableLeft.quote with isQuote | isQuote
    · rw [show quote = 0x27 from isQuote]
      decide
    · rw [show quote = 0x22 from isQuote]
      decide
  obtain ⟨rfl, rest7⟩ := pieces_unique functional (.inr (.inl rfl)) (.inr (.inr rfl)) notAmpersand
    readableLeft.value readableRight.value (by simpa using rest6)
  exact ⟨rfl, rest7⟩

/-! ## Tags -/

/-- The bracket that ends a tag, or the stroke in front of it. -/
def ClosesTag (text : Text) : Prop := ∃ c rest, text = c :: rest ∧ (c = 0x3E ∨ c = 0x2F)

theorem ClosesTag.front {text : Text} (closes : ClosesTag text) :
    ∀ c ∈ text.head?, ¬ NameChar c ∧ ¬ IsSpace c := by
  obtain ⟨c, rest, rfl, mark⟩ := closes
  intro e front
  cases front
  unfold NameChar NameStartChar IsSpace
  omega

/-- The end of a tag is no attribute. -/
theorem attribute_not_end {attr : Attribute} (readable : attr.Readable d) {space close rest : Text}
    (spaces : Spaces space) (closes : ClosesTag close) : space ++ close ≠ attr.render ++ rest := by
  intro same
  simp only [Attribute.render, List.append_assoc, List.cons_append] at same
  obtain ⟨_, afterSpace⟩ := run_unique same spaces readable.before
    (fun c front => (closes.front c front).2) (name_not_space readable.name)
  obtain ⟨first, others, name, starter⟩ := readable.name.front
  rw [name] at afterSpace
  have notName := (closes.front first (by rw [afterSpace]; rfl)).1
  exact notName (.inl starter)

theorem renderAttributes_cons (attr : Attribute) (attributes : List Attribute) :
    renderAttributes (attr :: attributes) = attr.render ++ renderAttributes attributes := rfl

theorem attributes_unique (functional : d.Functional) {left right : List Attribute}
    {leftAfter rightAfter leftClose rightClose : Text}
    (readableLeft : ∀ attr ∈ left, attr.Readable d) (readableRight : ∀ attr ∈ right, attr.Readable d)
    (spacesLeft : Spaces leftAfter) (spacesRight : Spaces rightAfter)
    (closesLeft : ClosesTag leftClose) (closesRight : ClosesTag rightClose)
    (same : renderAttributes left ++ (leftAfter ++ leftClose) =
      renderAttributes right ++ (rightAfter ++ rightClose)) :
    left = right ∧ leftAfter = rightAfter ∧ leftClose = rightClose := by
  induction left generalizing right with
  | nil =>
      cases right with
      | nil =>
          have ends : leftAfter ++ leftClose = rightAfter ++ rightClose := same
          obtain ⟨rfl, rest⟩ := run_unique ends spacesLeft spacesRight
            (fun c front => (closesLeft.front c front).2) (fun c front => (closesRight.front c front).2)
          exact ⟨rfl, rfl, rest⟩
      | cons attr right =>
          have front : leftAfter ++ leftClose =
              attr.render ++ (renderAttributes right ++ (rightAfter ++ rightClose)) := by
            rw [← List.append_assoc]
            exact same
          exact absurd front
            (attribute_not_end (readableRight attr List.mem_cons_self) spacesLeft closesLeft)
  | cons attr left ih =>
      cases right with
      | nil =>
          have front : rightAfter ++ rightClose =
              attr.render ++ (renderAttributes left ++ (leftAfter ++ leftClose)) := by
            rw [← List.append_assoc]
            exact same.symm
          exact absurd front
            (attribute_not_end (readableLeft attr List.mem_cons_self) spacesRight closesRight)
      | cons other right =>
          rw [renderAttributes_cons, renderAttributes_cons, List.append_assoc, List.append_assoc] at same
          obtain ⟨rfl, rest⟩ := attribute_unique functional (readableLeft attr List.mem_cons_self)
            (readableRight other List.mem_cons_self) same
          obtain ⟨rfl, sameAfter, sameClose⟩ := ih (List.forall_mem_cons.mp readableLeft).2
            (List.forall_mem_cons.mp readableRight).2 rest
          exact ⟨rfl, sameAfter, sameClose⟩

/-- No character of a name follows the name of a tag. -/
theorem Tag.Readable.name_ends {tag : Tag} (readable : tag.Readable d) {close : Text}
    (closes : ClosesTag close) :
    ∀ c ∈ (renderAttributes tag.attributes ++ (tag.after ++ close)).head?, ¬ NameChar c := by
  cases attributes : tag.attributes with
  | nil =>
      change ∀ c ∈ (tag.after ++ close).head?, ¬ NameChar c
      exact spaces_end_name readable.after fun _ c front => (closes.front c front).1
  | cons attr others =>
      have separated := readable.first attr (by rw [attributes]; rfl)
      obtain ⟨first, rest, before⟩ := List.exists_cons_of_ne_nil separated
      have space := (readable.attributes attr (attributes ▸ List.mem_cons_self)).before first
        (before ▸ List.mem_cons_self)
      intro c front
      simp only [renderAttributes, List.flatMap_cons, Attribute.render, before, List.cons_append,
        List.head?_cons, Option.mem_def, Option.some.injEq] at front
      exact front ▸ space.not_nameChar

theorem tag_unique (functional : d.Functional) {left right : Tag} {leftClose rightClose : Text}
    (readableLeft : left.Readable d) (readableRight : right.Readable d)
    (closesLeft : ClosesTag leftClose) (closesRight : ClosesTag rightClose)
    (same : left.render ++ leftClose = right.render ++ rightClose) :
    left = right ∧ leftClose = rightClose := by
  have nameLeft := readableLeft.name_ends closesLeft
  have nameRight := readableRight.name_ends closesRight
  obtain ⟨name, attributes, after⟩ := left
  obtain ⟨name', attributes', after'⟩ := right
  simp only [Tag.render, List.append_assoc] at same
  obtain ⟨rfl, rest⟩ := run_unique same readableLeft.name.chars readableRight.name.chars nameLeft nameRight
  obtain ⟨rfl, rfl, sameClose⟩ := attributes_unique functional readableLeft.attributes
    readableRight.attributes readableLeft.after readableRight.after closesLeft closesRight rest
  exact ⟨rfl, sameClose⟩

/-! ## Content -/

/-- What a text begins with. -/
inductive Mark where
  | closing
  | comment
  | cdata
  | instruction
  | element
  | other
  deriving DecidableEq

def markOf : Text → Mark
  | 0x3C :: 0x2F :: _ => .closing
  | 0x3C :: 0x21 :: 0x2D :: _ => .comment
  | 0x3C :: 0x21 :: _ => .cdata
  | 0x3C :: 0x3F :: _ => .instruction
  | 0x3C :: _ => .element
  | _ => .other

def Content.mark : Content → Mark
  | .nil => .closing
  | .piece _ _ => .other
  | .comment _ _ => .comment
  | .cdata _ _ => .cdata
  | .instruction _ _ _ _ => .instruction
  | .element _ _ _ _ => .element
  | .emptyElement _ _ => .element

theorem markOf_other {c : Nat} {rest : Text} (notTag : c ≠ 0x3C) : markOf (c :: rest) = .other := by
  unfold markOf
  split
  · rename_i same
    cases same
    exact absurd rfl notTag
  · rename_i same
    cases same
    exact absurd rfl notTag
  · rename_i same
    cases same
    exact absurd rfl notTag
  · rename_i same
    cases same
    exact absurd rfl notTag
  · rename_i same
    cases same
    exact absurd rfl notTag
  · rfl

theorem markOf_element {c : Nat} {rest : Text} (starter : NameStartChar c) :
    markOf (0x3C :: c :: rest) = .element := by
  unfold NameStartChar at starter
  unfold markOf
  split
  · rename_i same
    cases same
    omega
  · rename_i same
    cases same
    omega
  · rename_i same
    cases same
    omega
  · rename_i same
    cases same
    omega
  · rfl
  · rename_i different
    exact absurd rfl (different _)

theorem markOf_tag {tag : Tag} (readable : tag.Readable d) (rest : Text) :
    markOf (0x3C :: (tag.render ++ rest)) = .element := by
  obtain ⟨first, others, name, starter⟩ := readable.name.front
  have spelled : tag.render ++ rest =
      first :: (others ++ (renderAttributes tag.attributes ++ (tag.after ++ rest))) := by
    simp [Tag.render, name]
  rw [spelled]
  exact markOf_element starter

/-- Content and its end tag show what comes first. -/
theorem markOf_content {content : Content} (readable : content.Readable d) (name space rest : Text) :
    markOf (content.render ++ (renderEndTag name space ++ rest)) = content.mark := by
  cases content with
  | nil => rfl
  | piece item next =>
      obtain ⟨c, more, front, kind⟩ := piece_front readable.1
        (next.render ++ (renderEndTag name space ++ rest))
      have notTag : c ≠ 0x3C := by
        intro same
        subst same
        cases kind with
        | inl isAmpersand => cases isAmpersand
        | inr included => exact included (.inl rfl)
      rw [Content.render, List.append_assoc, front]
      exact markOf_other notTag
  | comment body next => rfl
  | cdata body next => rfl
  | instruction target gap data next => rfl
  | element tag children closeSpace next =>
      rw [Content.render]
      simp only [List.append_assoc]
      exact markOf_tag readable.1 _
  | emptyElement tag next =>
      rw [Content.render]
      simp only [List.append_assoc]
      exact markOf_tag readable.1 _

theorem endTag_unique {leftName rightName leftSpace rightSpace leftRest rightRest : Text}
    (namedLeft : Name leftName) (namedRight : Name rightName) (spacesLeft : Spaces leftSpace)
    (spacesRight : Spaces rightSpace)
    (same : renderEndTag leftName leftSpace ++ leftRest = renderEndTag rightName rightSpace ++ rightRest) :
    leftName = rightName ∧ leftSpace = rightSpace ∧ leftRest = rightRest := by
  have bracket : ∀ rest : Text, ∀ c ∈ (0x3E :: rest).head?, ¬ NameChar c ∧ ¬ IsSpace c :=
    fun rest => ClosesTag.front ⟨0x3E, rest, rfl, .inl rfl⟩
  simp only [renderEndTag, List.append_assoc, List.append_cancel_left_eq] at same
  obtain ⟨rfl, rest⟩ := run_unique same namedLeft.chars namedRight.chars
    (spaces_end_name spacesLeft fun _ c front => (bracket leftRest c front).1)
    (spaces_end_name spacesRight fun _ c front => (bracket rightRest c front).1)
  obtain ⟨rfl, last⟩ := run_unique rest spacesLeft spacesRight
    (fun c front => (bracket leftRest c front).2) (fun c front => (bracket rightRest c front).2)
  exact ⟨rfl, rfl, by simpa using last⟩

/-- A start tag is parted from what follows in at most one way, whatever its bracket. -/
theorem startTag_unique (functional : d.Functional) {left right : Tag} {leftClose rightClose : Text}
    (readableLeft : left.Readable d) (readableRight : right.Readable d)
    (closesLeft : ClosesTag leftClose) (closesRight : ClosesTag rightClose)
    (same : [0x3C] ++ (left.render ++ leftClose) = [0x3C] ++ (right.render ++ rightClose)) :
    left = right ∧ leftClose = rightClose := by
  injection same with _ rest
  exact tag_unique functional readableLeft readableRight closesLeft closesRight rest

/-- Content is parted from its end tag in at most one way. -/
theorem content_unique (functional : d.Functional) {left : Content} :
    ∀ {right : Content} {leftName rightName leftSpace rightSpace leftRest rightRest : Text},
      left.Readable d → right.Readable d → Name leftName → Name rightName → Spaces leftSpace →
      Spaces rightSpace →
      left.render ++ (renderEndTag leftName leftSpace ++ leftRest) =
        right.render ++ (renderEndTag rightName rightSpace ++ rightRest) →
      left = right ∧ leftName = rightName ∧ leftSpace = rightSpace ∧ leftRest = rightRest := by
  induction left with
  | nil =>
      intro right leftName rightName leftSpace rightSpace leftRest rightRest readableLeft readableRight
        namedLeft namedRight spacesLeft spacesRight same
      have marks := congrArg markOf same
      rw [markOf_content readableLeft, markOf_content readableRight] at marks
      cases right with
      | nil => exact ⟨rfl, endTag_unique namedLeft namedRight spacesLeft spacesRight same⟩
      | _ => cases marks
  | piece item next ih =>
      intro right leftName rightName leftSpace rightSpace leftRest rightRest readableLeft readableRight
        namedLeft namedRight spacesLeft spacesRight same
      have marks := congrArg markOf same
      rw [markOf_content readableLeft, markOf_content readableRight] at marks
      cases right with
      | piece other following =>
          simp only [Content.render, List.append_assoc] at same
          obtain ⟨rfl, rest⟩ := piece_unique functional (.inr rfl) readableLeft.1 readableRight.1 same
          obtain ⟨rfl, others⟩ := ih readableLeft.2 readableRight.2 namedLeft namedRight spacesLeft
            spacesRight rest
          exact ⟨rfl, others⟩
      | _ => cases marks
  | comment body next ih =>
      intro right leftName rightName leftSpace rightSpace leftRest rightRest readableLeft readableRight
        namedLeft namedRight spacesLeft spacesRight same
      have marks := congrArg markOf same
      rw [markOf_content readableLeft, markOf_content readableRight] at marks
      cases right with
      | comment other following =>
          simp only [Content.render, List.append_assoc] at same
          obtain ⟨rfl, rest⟩ := comment_unique readableLeft.1 readableRight.1 same
          obtain ⟨rfl, others⟩ := ih readableLeft.2 readableRight.2 namedLeft namedRight spacesLeft
            spacesRight rest
          exact ⟨rfl, others⟩
      | _ => cases marks
  | cdata body next ih =>
      intro right leftName rightName leftSpace rightSpace leftRest rightRest readableLeft readableRight
        namedLeft namedRight spacesLeft spacesRight same
      have marks := congrArg markOf same
      rw [markOf_content readableLeft, markOf_content readableRight] at marks
      cases right with
      | cdata other following =>
          simp only [Content.render, List.append_assoc] at same
          obtain ⟨rfl, rest⟩ := cdata_unique readableLeft.1 readableRight.1 same
          obtain ⟨rfl, others⟩ := ih readableLeft.2 readableRight.2 namedLeft namedRight spacesLeft
            spacesRight rest
          exact ⟨rfl, others⟩
      | _ => cases marks
  | instruction target gap data next ih =>
      intro right leftName rightName leftSpace rightSpace leftRest rightRest readableLeft readableRight
        namedLeft namedRight spacesLeft spacesRight same
      have marks := congrArg markOf same
      rw [markOf_content readableLeft, markOf_content readableRight] at marks
      cases right with
      | instruction otherTarget otherGap otherData following =>
          simp only [Content.render, List.append_assoc] at same
          obtain ⟨rfl, rfl, rfl, rest⟩ := instruction_unique readableLeft.1 readableRight.1 same
          obtain ⟨rfl, others⟩ := ih readableLeft.2 readableRight.2 namedLeft namedRight spacesLeft
            spacesRight rest
          exact ⟨rfl, others⟩
      | _ => cases marks
  | element tag children closeSpace next ihChildren ihNext =>
      intro right leftName rightName leftSpace rightSpace leftRest rightRest readableLeft readableRight
        namedLeft namedRight spacesLeft spacesRight same
      have marks := congrArg markOf same
      rw [markOf_content readableLeft, markOf_content readableRight] at marks
      cases right with
      | element otherTag otherChildren otherSpace following =>
          obtain ⟨tagLeft, childrenLeft, closeLeft, nextLeft⟩ := readableLeft
          obtain ⟨tagRight, childrenRight, closeRight, nextRight⟩ := readableRight
          simp only [Content.render, List.append_assoc] at same
          obtain ⟨rfl, body⟩ := startTag_unique functional tagLeft tagRight
            ⟨0x3E, _, rfl, .inl rfl⟩ ⟨0x3E, _, rfl, .inl rfl⟩ same
          injection body with _ inside
          obtain ⟨rfl, _, rfl, rest⟩ := ihChildren childrenLeft childrenRight tagLeft.name tagLeft.name
            closeLeft closeRight inside
          obtain ⟨rfl, others⟩ := ihNext nextLeft nextRight namedLeft namedRight spacesLeft spacesRight rest
          exact ⟨rfl, others⟩
      | emptyElement otherTag following =>
          simp only [Content.render, List.append_assoc] at same
          obtain ⟨_, body⟩ := startTag_unique functional readableLeft.1 readableRight.1
            ⟨0x3E, _, rfl, .inl rfl⟩ ⟨0x2F, _, rfl, .inr rfl⟩ same
          cases body
      | _ => cases marks
  | emptyElement tag next ih =>
      intro right leftName rightName leftSpace rightSpace leftRest rightRest readableLeft readableRight
        namedLeft namedRight spacesLeft spacesRight same
      have marks := congrArg markOf same
      rw [markOf_content readableLeft, markOf_content readableRight] at marks
      cases right with
      | element otherTag otherChildren otherSpace following =>
          simp only [Content.render, List.append_assoc] at same
          obtain ⟨_, body⟩ := startTag_unique functional readableLeft.1 readableRight.1
            ⟨0x2F, _, rfl, .inr rfl⟩ ⟨0x3E, _, rfl, .inl rfl⟩ same
          cases body
      | emptyElement otherTag following =>
          simp only [Content.render, List.append_assoc] at same
          obtain ⟨rfl, body⟩ := startTag_unique functional readableLeft.1 readableRight.1
            ⟨0x2F, _, rfl, .inr rfl⟩ ⟨0x2F, _, rfl, .inr rfl⟩ same
          injection body with _ stroke
          injection stroke with _ rest
          obtain ⟨rfl, others⟩ := ih readableLeft.2 readableRight.2 namedLeft namedRight spacesLeft
            spacesRight rest
          exact ⟨rfl, others⟩
      | _ => cases marks

/-! ## Documents -/

theorem element_unique (functional : d.Functional) {leftTag rightTag : Tag}
    {left right : Option (Content × Text)} {leftRest rightRest : Text}
    (readableLeft : (elementContent leftTag left .nil).Readable d)
    (readableRight : (elementContent rightTag right .nil).Readable d)
    (same : (elementContent leftTag left .nil).render ++ leftRest =
      (elementContent rightTag right .nil).render ++ rightRest) :
    leftTag = rightTag ∧ left = right ∧ leftRest = rightRest := by
  cases left with
  | none =>
      cases right with
      | none =>
          simp only [elementContent, Content.render, List.append_assoc] at same
          obtain ⟨rfl, body⟩ := startTag_unique functional readableLeft.1 readableRight.1
            ⟨0x2F, _, rfl, .inr rfl⟩ ⟨0x2F, _, rfl, .inr rfl⟩ same
          injection body with _ stroke
          injection stroke with _ rest
          exact ⟨rfl, rfl, rest⟩
      | some body =>
          simp only [elementContent, Content.render, List.append_assoc] at same
          obtain ⟨_, body⟩ := startTag_unique functional readableLeft.1 readableRight.1
            ⟨0x2F, _, rfl, .inr rfl⟩ ⟨0x3E, _, rfl, .inl rfl⟩ same
          cases body
  | some body =>
      cases right with
      | none =>
          simp only [elementContent, Content.render, List.append_assoc] at same
          obtain ⟨_, body⟩ := startTag_unique functional readableLeft.1 readableRight.1
            ⟨0x3E, _, rfl, .inl rfl⟩ ⟨0x2F, _, rfl, .inr rfl⟩ same
          cases body
      | some other =>
          obtain ⟨children, space⟩ := body
          obtain ⟨otherChildren, otherSpace⟩ := other
          simp only [elementContent, Content.render, List.append_assoc] at same
          obtain ⟨rfl, body⟩ := startTag_unique functional readableLeft.1 readableRight.1
            ⟨0x3E, _, rfl, .inl rfl⟩ ⟨0x3E, _, rfl, .inl rfl⟩ same
          injection body with _ inside
          obtain ⟨rfl, _, rfl, rest⟩ := content_unique functional readableLeft.2.1 readableRight.2.1
            readableLeft.1.name readableLeft.1.name readableLeft.2.2.1 readableRight.2.2.1 inside
          exact ⟨rfl, rfl, rest⟩

/-- An element begins with a bracket and a name. -/
theorem markOf_elementContent {tag : Tag} {body : Option (Content × Text)}
    (readable : (elementContent tag body .nil).Readable d) (rest : Text) :
    markOf ((elementContent tag body .nil).render ++ rest) = .element := by
  cases body with
  | none =>
      simp only [elementContent, Content.render, List.append_assoc]
      exact markOf_tag readable.1 _
  | some body =>
      simp only [elementContent, Content.render, List.append_assoc]
      exact markOf_tag readable.1 _

def Misc.mark : Misc → Mark
  | .space _ => .other
  | .comment _ => .comment
  | .instruction _ _ _ => .instruction

theorem markOf_misc {misc : Misc} (readable : misc.Readable d) (rest : Text) :
    markOf (misc.render ++ rest) = misc.mark := by
  cases misc with
  | space c =>
      have notTag : c ≠ 0x3C := by
        intro same
        have space : IsSpace c := readable
        unfold IsSpace at space
        omega
      exact markOf_other notTag
  | comment body => rfl
  | instruction target gap data => rfl

theorem misc_unique {left right : Misc} {leftRest rightRest : Text} (readableLeft : left.Readable d)
    (readableRight : right.Readable d) (same : left.render ++ leftRest = right.render ++ rightRest) :
    left = right ∧ leftRest = rightRest := by
  have marks := congrArg markOf same
  rw [markOf_misc readableLeft, markOf_misc readableRight] at marks
  cases left with
  | space c =>
      cases right with
      | space e =>
          injection same with sameSpace rest
          exact ⟨congrArg _ sameSpace, rest⟩
      | _ => cases marks
  | comment body =>
      cases right with
      | comment other =>
          obtain ⟨rfl, rest⟩ := comment_unique readableLeft readableRight same
          exact ⟨rfl, rest⟩
      | _ => cases marks
  | instruction target gap data =>
      cases right with
      | instruction otherTarget otherGap otherData =>
          obtain ⟨rfl, rfl, rfl, rest⟩ := instruction_unique readableLeft readableRight same
          exact ⟨rfl, rest⟩
      | _ => cases marks

/-- What may follow misc items: an element, or nothing. -/
def EndsMisc (text : Text) : Prop := text = [] ∨ markOf text = .element

theorem misc_not_end {misc : Misc} (readable : misc.Readable d) {text rest : Text}
    (ends : EndsMisc text) : text ≠ misc.render ++ rest := by
  intro same
  subst same
  cases ends with
  | inl empty =>
      have none := (List.append_eq_nil_iff.mp empty).1
      cases misc with
      | space c => cases none
      | comment body => cases none
      | instruction target gap data => cases none
  | inr element =>
      rw [markOf_misc readable] at element
      cases misc with
      | space c => cases element
      | comment body => cases element
      | instruction target gap data => cases element

theorem renderMiscs_cons (misc : Misc) (miscs : List Misc) :
    renderMiscs (misc :: miscs) = misc.render ++ renderMiscs miscs := rfl

theorem miscs_unique {left right : List Misc} {leftRest rightRest : Text}
    (readableLeft : ∀ misc ∈ left, misc.Readable d) (readableRight : ∀ misc ∈ right, misc.Readable d)
    (endsLeft : EndsMisc leftRest) (endsRight : EndsMisc rightRest)
    (same : renderMiscs left ++ leftRest = renderMiscs right ++ rightRest) :
    left = right ∧ leftRest = rightRest := by
  induction left generalizing right with
  | nil =>
      cases right with
      | nil => exact ⟨rfl, same⟩
      | cons misc right =>
          rw [renderMiscs_cons, List.append_assoc] at same
          exact absurd same (misc_not_end (readableRight misc List.mem_cons_self) endsLeft)
  | cons misc left ih =>
      cases right with
      | nil =>
          rw [renderMiscs_cons, List.append_assoc] at same
          exact absurd same.symm (misc_not_end (readableLeft misc List.mem_cons_self) endsRight)
      | cons other right =>
          rw [renderMiscs_cons, renderMiscs_cons, List.append_assoc, List.append_assoc] at same
          obtain ⟨rfl, rest⟩ := misc_unique (readableLeft misc List.mem_cons_self)
            (readableRight other List.mem_cons_self) same
          obtain ⟨rfl, last⟩ := ih (List.forall_mem_cons.mp readableLeft).2
            (List.forall_mem_cons.mp readableRight).2 rest
          exact ⟨rfl, last⟩

/-- No two readable documents have the same spelling. -/
theorem document_unique (functional : d.Functional) {left right : Document}
    (readableLeft : left.Readable d) (readableRight : right.Readable d)
    (same : left.render = right.render) : left = right := by
  obtain ⟨prolog, tag, body, epilog⟩ := left
  obtain ⟨otherProlog, otherTag, otherBody, otherEpilog⟩ := right
  obtain ⟨rfl, rest⟩ := miscs_unique readableLeft.prolog readableRight.prolog
    (.inr (markOf_elementContent readableLeft.element _))
    (.inr (markOf_elementContent readableRight.element _)) same
  obtain ⟨rfl, rfl, last⟩ := element_unique functional readableLeft.element readableRight.element rest
  have ends : renderMiscs epilog ++ [] = renderMiscs otherEpilog ++ [] := by rw [last]
  obtain ⟨rfl, _⟩ := miscs_unique readableLeft.epilog readableRight.epilog (.inl rfl) (.inl rfl) ends
  rfl

end Unique

end XmlParser.Grammar
