import XmlParser.LockstepMembers

/-! Validation whose errors are all suppressed is not observable: the calls of the
handler and the outcome are those of a parser that does not validate. -/

set_option autoImplicit false

namespace XmlParser

open XmlParser.Computation Comp

/-- The error handler returns from every call. -/
def ParserOptions.Suppresses (options : ParserOptions) : Prop :=
  ∃ handle, options.recoverableErrorHandler = some handle ∧ ∀ reported, handle reported = none

/-- The two outcomes are equal, or both end at one direct reference to an
undeclared entity. -/
inductive AgreeOnOutcome : Except Halt Unit → Except Halt Unit → Prop where
  | same (outcome : Except Halt Unit) : AgreeOnOutcome outcome outcome
  | undeclaredEntity (location : SourceLocation) :
      AgreeOnOutcome
        (.error (.thrown (.xmlParse ⟨.validity, location, "undeclared entity reference"⟩)))
        (.error (.thrown (.xmlParse ⟨.wellFormedness, location, "unknown entity reference"⟩)))

/-- Locations are told apart, and what is reported is left out. -/
def silent : Setting where
  same := Eq
  stops _ _ := False
  validates := False
  passes _ _ := True
  refl _ _ := rfl

theorem exact_silent : silent.Exact := fun _ _ => id

theorem alike_silent {handler : SaxHandler} {options : ParserOptions} (suppresses : options.Suppresses)
    (endLocation : SourceLocation) :
    silent.Alike ⟨handler, { options with validation := .dtd }, endLocation⟩
      ⟨handler, { options with validation := .none }, endLocation⟩ where
  version := rfl
  namespaces := rfl
  allowExternalDtd := rfl
  externalDtdResolver := rfl
  passes _ _ _ := trivial
  maxDepth := .inl rfl
  maxTokenBytes := .inl rfl
  maxAttributesPerElement := .inl rfl
  maxEntityExpansions := .inl rfl
  maxDtdDeclarations := .inl rfl
  maxEntityReplacementBytes := .inl rfl
  maxExternalSubsetBytes := .inl rfl
  endLocation := rfl
  handler left right same := by
    rw [exact_silent.events same]
    exact .inl rfl
  reports := .inr ⟨id, rfl, rfl, suppresses⟩

theorem Setting.SameHalt.agree {left right : Halt} (same : silent.SameHalt left right) :
    AgreeOnOutcome (.error left) (.error right) := by
  cases same with
  | raised errors =>
      rw [exact_silent.error errors]
      exact .same _
  | broken notThrown => exact .same _
  | excused hidden locations =>
      have equal := exact_silent _ _ locations
      subst equal
      exact .undeclaredEntity _

theorem agree_of_ends {left right : Outcome}
    (ended : Ends (Setting.compareStates silent) (· = ·) left right)
    (internal : left.2.dtd.hasExternalSubset = false) :
    left.2.trace = right.2.trace ∧ AgreeOnOutcome left.1 right.1 := by
  have traces : ∀ {s t : ParserState}, silent.Paired s t → s.trace = t.trace :=
    fun paired => Setting.eq_of_forall₂ (fun _ _ => exact_silent.delivery) paired.trace
  cases ended with
  | returned values states => exact ⟨traces states, .same _⟩
  | threw errors states => exact ⟨traces states, Setting.SameHalt.agree errors⟩
  | passed _ states => exact ⟨traces states, .same _⟩
  | stopped early => exact early.1.elim
  | parted gone => exact absurd (gone.2.symm.trans internal) nofun

/-- The options with another validation mode. -/
def ParserOptions.validating (options : ParserOptions) (validation : ValidationMode) : ParserOptions :=
  { options with validation }

/-- Without an external subset, a validating parser whose error handler always
returns makes the same calls as one that does not validate, and agrees with it on
the outcome. -/
theorem suppressedValidation_unobservable (xml : Bytes) (handler : SaxHandler)
    (options : ParserOptions) (suppresses : options.Suppresses)
    (internal : (parseXmlDocument xml handler (options.validating .dtd)).2.dtd.hasExternalSubset = false) :
    (parseXmlDocument xml handler (options.validating .dtd)).2.trace =
        (parseXmlDocument xml handler (options.validating .none)).2.trace ∧
      AgreeOnOutcome (parseXmlDocument xml handler (options.validating .dtd)).1
        (parseXmlDocument xml handler (options.validating .none)).1 := by
  have sameText : ∀ validation, decodeDocument xml (options.validating validation) = decodeDocument xml options :=
    fun _ => rfl
  cases decoded : decodeDocument xml options with
  | error error =>
      rw [parseXmlDocument_of_error ((sameText .dtd).trans decoded),
        parseXmlDocument_of_error ((sameText .none).trans decoded)]
      exact ⟨rfl, .same _⟩
  | ok document =>
      rw [parseXmlDocument_of_ok ((sameText .dtd).trans decoded)] at internal ⊢
      rw [parseXmlDocument_of_ok ((sameText .none).trans decoded)]
      have alike := @alike_silent handler options suppresses document.endLocation
      have start : silent.Paired { rest := document.chars } { rest := document.chars } :=
        ⟨List.forall₂_same.mpr fun _ _ => ⟨rfl, rfl⟩, rfl, rfl, rfl, rfl, rfl, rfl, .nil, fun _ => .nil⟩
      exact agree_of_ends (alike.parse.ends _ _ start) internal

/-- Options under which every validity error that can be suppressed is. -/
def suppressing : ParserOptions := { recoverableErrorHandler := some fun _ => none }

theorem suppressedValidation_unobservable_sample :
    (parseXmlDocument (ascii "<!DOCTYPE b><a/>") .recording (suppressing.validating .dtd)).2.trace =
      (parseXmlDocument (ascii "<!DOCTYPE b><a/>") .recording (suppressing.validating .none)).2.trace ∧
    AgreeOnOutcome
      (parseXmlDocument (ascii "<!DOCTYPE b><a/>") .recording (suppressing.validating .dtd)).1
      (parseXmlDocument (ascii "<!DOCTYPE b><a/>") .recording (suppressing.validating .none)).1 :=
  suppressedValidation_unobservable _ _ suppressing ⟨_, rfl, fun _ => rfl⟩ (by decide +kernel)

end XmlParser
