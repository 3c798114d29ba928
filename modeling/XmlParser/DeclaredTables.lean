import XmlParser.EntityTables
import XmlParser.Limits

/-! The table of entities behind the prologue of a document. -/

set_option autoImplicit false

namespace XmlParser

open XmlParser.Computation Comp

namespace Parser

variable (p : Parser)

/-- The members that leave a declared table declared when they return. -/
abbrev KeepsDeclared {α : Type} (source : ParserM α) : Prop :=
  Triple (fun s => p.Declared s.dtd.entities) source (fun _ s => p.Declared s.dtd.entities) fun _ _ => True

variable {p}

theorem keepsDeclared_of_same {α : Type} {source : ParserM α}
    (same : ∀ s value t, source.run s = (.ok value, t) → t.dtd.entities = s.dtd.entities) :
    p.KeepsDeclared source := by
  refine triple_of_returns fun s value t declared returned => ?_
  rw [same s value t returned]
  exact declared

theorem keepsDeclared_pure {α : Type} (value : α) : p.KeepsDeclared (pure value) :=
  triple_pure fun _ declared => declared

theorem keepsDeclared_scan {α : Type} (source : Cursor α) : p.KeepsDeclared (scan source) := by
  refine keepsDeclared_of_same fun s value t returned => ?_
  obtain ⟨rest, _, rfl⟩ := run_scan_eq_ok_iff.mp returned
  rfl

theorem keepsDeclared_failHere {α : Type} (kind : ErrorKind) (message : String) :
    p.KeepsDeclared (p.failHere kind message : ParserM α) := by
  refine keepsDeclared_of_same fun s value t returned => ?_
  rw [failHere, run_look_bind] at returned
  cases returned

theorem keepsDeclared_modifyDtd {update : DtdState → DtdState}
    (same : ∀ dtd, (update dtd).entities = dtd.entities) : p.KeepsDeclared (modifyDtd update) := by
  refine triple_modify fun s declared => ?_
  change p.Declared (update s.dtd).entities
  rw [same]
  exact declared

theorem keepsDeclared_loop {β γ : Type} {size : β → ParserState → Nat} {body : β → ParserM (LoopStep β γ)}
    (round : ∀ current, p.KeepsDeclared (body current)) (start : β) :
    p.KeepsDeclared (loop size .outOfFuel body start) := by
  refine triple_loop (fun _ (s : ParserState) => p.Declared s.dtd.entities) (fun current => ?_)
    (fun _ _ _ => trivial) start
  refine (round current).imp (fun _ declared => declared) (fun step _ declared => ?_) fun _ _ _ => trivial
  cases step with
  | next following => exact declared
  | done result => exact declared

theorem keepsDeclared_emit (event : Event) : p.KeepsDeclared (p.emit event) := by
  refine keepsDeclared_of_same fun s value t returned => ?_
  rw [(p.emit_eq_ok_iff.mp returned).1]
  rfl

theorem keepsDeclared_enforceDtdDeclarationLimit : p.KeepsDeclared p.enforceDtdDeclarationLimit := by
  refine keepsDeclared_of_same fun s value t returned => ?_
  rw [(p.enforceDtdDeclarationLimit_eq_ok_iff.mp returned).2]
  rfl

theorem keepsDeclared_declareElement (name model : Bytes) (location : SourceLocation) :
    p.KeepsDeclared (declareElement name model location) := by
  refine keepsDeclared_of_same fun s value t returned => ?_
  obtain ⟨_, _, _, rfl⟩ := declareElement_eq_ok_iff.mp returned
  rfl

theorem keepsDeclared_parseElementDeclaration : p.KeepsDeclared p.parseElementDeclaration := by
  refine triple_read_bind fun start => triple_bind keepsDeclared_enforceDtdDeclarationLimit fun _ => ?_
  refine triple_bind (keepsDeclared_scan _) fun _ => triple_read_bind fun _ => ?_
  refine triple_ite (fun _ => keepsDeclared_failHere _ _) fun _ => ?_
  refine triple_bind (keepsDeclared_scan _) fun _ => triple_bind (keepsDeclared_scan _) fun name => ?_
  refine triple_bind (keepsDeclared_scan _) fun _ => triple_bind (keepsDeclared_scan _) fun model => ?_
  exact triple_bind (keepsDeclared_scan _) fun _ => keepsDeclared_declareElement _ _ _

theorem keepsDeclared_internalSubsetRound (current : Unit) :
    p.KeepsDeclared (p.internalSubsetRound current) := by
  refine triple_read_bind fun _ => triple_ite (fun _ => keepsDeclared_failHere _ _) fun _ => ?_
  refine triple_bind (keepsDeclared_scan _) fun _ => triple_read_bind fun _ => ?_
  refine triple_ite (fun _ => keepsDeclared_pure _) fun _ => triple_read_bind fun _ => ?_
  refine triple_ite (fun _ => ?_) fun _ => triple_read_bind fun _ => ?_
  · exact triple_bind (keepsDeclared_scan _) fun _ => keepsDeclared_pure _
  refine triple_ite (fun _ => ?_) fun _ => triple_read_bind fun _ => ?_
  · exact triple_bind keepsDeclared_parseElementDeclaration fun _ => keepsDeclared_pure _
  refine triple_ite (fun _ => ?_) fun _ => keepsDeclared_failHere _ _
  refine triple_bind (triple_of_returns fun s _ t declared returned => ?_) fun _ => keepsDeclared_pure _
  exact .entity declared returned

theorem keepsDeclared_externalSubsetRound (subset : Bytes) :
    p.KeepsDeclared (p.externalSubsetRound subset) := by
  refine triple_ite (fun _ => keepsDeclared_pure _) fun _ => triple_ite (fun _ => ?_) fun _ =>
    keepsDeclared_failHere _ _
  refine triple_ite (fun _ => keepsDeclared_failHere _ _) fun _ => triple_bind ?_ fun _ => keepsDeclared_pure _
  refine triple_bind keepsDeclared_enforceDtdDeclarationLimit fun _ => ?_
  refine triple_ite (fun _ => keepsDeclared_failHere _ _) fun _ => ?_
  exact triple_read_bind fun _ => keepsDeclared_declareElement _ _ _

theorem keepsDeclared_resolveExternalSubsetIfNeeded :
    p.KeepsDeclared p.resolveExternalSubsetIfNeeded := by
  refine triple_read_bind fun dtd => triple_ite (fun _ => keepsDeclared_pure _) fun _ => ?_
  split
  · split
    · exact triple_throw fun _ _ => trivial
    · exact triple_ite (fun _ => keepsDeclared_failHere _ _) fun _ =>
        keepsDeclared_loop keepsDeclared_externalSubsetRound _
  · exact keepsDeclared_failHere _ _

theorem keepsDeclared_parseExternalId : p.KeepsDeclared p.parseExternalId := by
  refine triple_read_bind fun _ => triple_ite (fun _ => ?_) fun _ => triple_read_bind fun _ => ?_
  · refine triple_bind (keepsDeclared_scan _) fun _ => triple_bind (keepsDeclared_scan _) fun _ => ?_
    refine triple_bind (keepsDeclared_scan _) fun systemId => ?_
    exact triple_bind (keepsDeclared_modifyDtd fun _ => rfl) fun _ => keepsDeclared_scan _
  refine triple_ite (fun _ => ?_) fun _ => keepsDeclared_pure _
  refine triple_bind (keepsDeclared_scan _) fun _ => triple_bind (keepsDeclared_scan _) fun _ => ?_
  refine triple_bind (keepsDeclared_scan _) fun _ => triple_bind (keepsDeclared_scan _) fun _ => ?_
  refine triple_bind (keepsDeclared_scan _) fun systemId => ?_
  exact triple_bind (keepsDeclared_modifyDtd fun _ => rfl) fun _ => keepsDeclared_scan _

theorem keepsDeclared_parseBracketedSubset : p.KeepsDeclared p.parseBracketedSubset := by
  refine triple_read_bind fun _ => triple_ite (fun _ => ?_) fun _ => keepsDeclared_pure _
  refine triple_bind (keepsDeclared_scan _) fun _ => ?_
  refine triple_bind (keepsDeclared_loop keepsDeclared_internalSubsetRound ()) fun _ => ?_
  exact triple_bind (keepsDeclared_scan _) fun _ => keepsDeclared_scan _

theorem keepsDeclared_parseDoctypeIfPresent : p.KeepsDeclared p.parseDoctypeIfPresent := by
  refine triple_read_bind fun _ => triple_ite (fun _ => keepsDeclared_pure _) fun _ => ?_
  refine triple_bind (keepsDeclared_modifyDtd fun _ => rfl) fun _ => ?_
  refine triple_bind (keepsDeclared_scan _) fun _ => triple_read_bind fun _ => ?_
  refine triple_ite (fun _ => keepsDeclared_failHere _ _) fun _ => ?_
  refine triple_bind (keepsDeclared_scan _) fun _ => triple_bind (keepsDeclared_scan _) fun rootName => ?_
  refine triple_bind (keepsDeclared_modifyDtd fun _ => rfl) fun _ => ?_
  refine triple_bind (keepsDeclared_scan _) fun _ => triple_bind keepsDeclared_parseExternalId fun _ => ?_
  refine triple_bind keepsDeclared_parseBracketedSubset fun _ => ?_
  exact triple_bind (keepsDeclared_scan _) fun _ => keepsDeclared_resolveExternalSubsetIfNeeded

theorem keepsDeclared_skipMisc : p.KeepsDeclared p.skipMisc := by
  refine keepsDeclared_loop (fun _ => ?_) ()
  refine triple_read_bind fun before => triple_bind (keepsDeclared_scan _) fun _ => ?_
  refine triple_read_bind fun consumed => triple_read_bind fun isComment => ?_
  refine triple_ite (fun _ => ?_) fun _ => triple_read_bind fun isInstruction => triple_ite (fun _ => ?_) fun _ => ?_
  · refine triple_bind ?_ fun _ => keepsDeclared_pure _
    exact triple_bind (keepsDeclared_scan _) fun text => keepsDeclared_emit _
  · refine triple_bind ?_ fun _ => keepsDeclared_pure _
    exact triple_bind (keepsDeclared_scan _) fun value => keepsDeclared_emit _
  · exact triple_ite (fun _ => keepsDeclared_pure _) fun _ => keepsDeclared_pure _

/-- Behind the prologue of a document the table is one that its declarations have built. -/
theorem declared_of_parseProlog {chars : List DecodedChar} {s : ParserState}
    (returned : p.parseProlog.run { rest := chars } = (.ok (), s)) : p.Declared s.dtd.entities := by
  have keeps : p.KeepsDeclared p.parseProlog := by
    refine triple_bind (keepsDeclared_emit _) fun _ => triple_bind (keepsDeclared_scan _) fun _ => ?_
    refine triple_bind keepsDeclared_skipMisc fun _ => ?_
    exact triple_bind keepsDeclared_parseDoctypeIfPresent fun _ => keepsDeclared_skipMisc
  exact (keeps { rest := chars } .empty).1 () s returned

end Parser

end XmlParser
