import Mathlib.Data.List.Basic
import Mathlib.Logic.Function.Basic

/-!
# The run store

`ingestion_runs/store.py` over its table and the audit trail. A transaction takes effect at its commit: the row's lock is
held from its update on.

* `createRun`, `completeRun`: the two transactions that write;
* `Consistent`: a terminal row has one completion audit row, written with it, and any other row none;
* `completeRun_consistent`, `createRun_consistent`: both transactions keep it, and a terminal row stays as it is.
-/

namespace PolicySystem.IngestionRuns

/-- `IngestionReasonCode`. -/
inductive ReasonCode where
  | configIncomplete
  | graphUnavailable
  | celexNotFound
  | shortNameCollision
  | pipelineStageFailed
  | unsupportedInstrumentType
  | inconsistentGraphState
  | interrupted
  | unexpectedError
  deriving DecidableEq

/-- What a run ended in: its result, or the error text of its row and the reason code of its audit row. -/
inductive Outcome where
  | succeeded (result : String)
  | failed (error : String) (reasonCode : ReasonCode)
  deriving DecidableEq

/-- A principal: `(subject, issuer)`. -/
abbrev Actor := String × String

/-- `IngestionRunRow`; a row without an outcome is `running`. -/
structure RunRow where
  celex : String
  shortName : String
  actor : Actor
  outcome : Option Outcome
  deriving DecidableEq

/-- One row of the audit trail: a submission, or a completion with what it records of the outcome. -/
inductive AuditEntry where
  | submit (celex shortName : String)
  | complete (celex : String) (reasonCode : Option ReasonCode)
  deriving DecidableEq

structure AuditRow where
  runId : String
  actor : Actor
  entry : AuditEntry
  deriving DecidableEq

/-- The tables `ingestion_runs` and `audit_events`. -/
structure Database where
  rows : String → Option RunRow
  audit : List AuditRow

/-- `completion_audit_entry`: a failure carries its reason code. -/
def completionAuditEntry (celex : String) : Outcome → AuditEntry
  | .succeeded _ => .complete celex none
  | .failed _ reasonCode => .complete celex (some reasonCode)

/-- `create_run`: the row, `running`, and its submission audit row. A run id that has a row is refused by the key. -/
def createRun (db : Database) (runId celex shortName : String) (actor : Actor) : Database :=
  match db.rows runId with
  | some _ => db
  | none =>
    { rows := Function.update db.rows runId (some ⟨celex, shortName, actor, none⟩)
      audit := db.audit ++ [⟨runId, actor, .submit celex shortName⟩] }

/-- `complete_run`: the row that is `running` takes the outcome, with the completion audit row under the given actor or
the row's own; and whether this call flipped it. -/
def completeRun (db : Database) (runId : String) (outcome : Outcome) (auditActor : Option Actor) : Database × Bool :=
  match db.rows runId with
  | none => (db, false)
  | some row =>
    match row.outcome with
    | some _ => (db, false)
    | none =>
      ({ rows := Function.update db.rows runId (some { row with outcome := some outcome })
         audit := db.audit ++ [⟨runId, auditActor.getD row.actor, completionAuditEntry row.celex outcome⟩] }, true)

/-- The completion audit rows of a run. -/
def completions (db : Database) (runId : String) : List AuditEntry :=
  db.audit.filterMap fun row =>
    match row.entry with
    | .submit _ _ => none
    | .complete celex reasonCode => if row.runId = runId then some (.complete celex reasonCode) else none

/-- The completion audit rows a run's row stands for. -/
def recorded (db : Database) (runId : String) : List AuditEntry :=
  match db.rows runId with
  | none => []
  | some row => (row.outcome.map (completionAuditEntry row.celex)).toList

/-- **A terminal row has one completion audit row, of its own outcome, and any other row none.** -/
def Consistent (db : Database) : Prop := ∀ runId, completions db runId = recorded db runId

/-- The run's row is terminal. -/
def Terminal (db : Database) (runId : String) (row : RunRow) : Prop := db.rows runId = some row ∧ row.outcome ≠ none

variable {db : Database} {runId celex shortName r : String} {actor : Actor} {outcome : Outcome}
  {auditActor : Option Actor} {row : RunRow}

theorem createRun_consistent (h : Consistent db) : Consistent (createRun db runId celex shortName actor) := by
  unfold createRun
  split
  · exact h
  · rename_i hnone
    intro r
    have hsame : completions ⟨Function.update db.rows runId (some ⟨celex, shortName, actor, none⟩),
        db.audit ++ [⟨runId, actor, .submit celex shortName⟩]⟩ r = completions db r := by
      simp [completions]
    rw [hsame, h r, recorded, recorded]
    by_cases hr : r = runId
    · subst hr
      simp only [Function.update_self, hnone]
      rfl
    · simp only [Function.update_of_ne hr]

theorem createRun_terminal (h : Terminal db r row) : Terminal (createRun db runId celex shortName actor) r row := by
  unfold createRun
  split
  · exact h
  · rename_i hnone
    refine ⟨?_, h.2⟩
    have hr : r ≠ runId := by
      rintro rfl
      rw [h.1] at hnone
      cases hnone
    simp only [Function.update_of_ne hr]
    exact h.1

/-- What `complete_run` finds: a running row, which it flips, or nothing to do. -/
theorem completeRun_cases (db : Database) (runId : String) (outcome : Outcome) (auditActor : Option Actor) :
    completeRun db runId outcome auditActor = (db, false) ∨
      ∃ row, db.rows runId = some row ∧ row.outcome = none ∧
        completeRun db runId outcome auditActor =
          ({ rows := Function.update db.rows runId (some { row with outcome := some outcome })
             audit := db.audit ++ [⟨runId, auditActor.getD row.actor, completionAuditEntry row.celex outcome⟩] },
            true) := by
  cases hrow : db.rows runId with
  | none =>
    refine .inl ?_
    rw [completeRun, hrow]
  | some row =>
    cases hout : row.outcome with
    | some out =>
      refine .inl ?_
      rw [completeRun, hrow]
      dsimp only
      rw [hout]
    | none =>
      refine .inr ⟨row, rfl, hout, ?_⟩
      rw [completeRun, hrow]
      dsimp only
      rw [hout]

/-- **The flip of a row comes with its completion audit row.** -/
theorem completeRun_consistent (h : Consistent db) : Consistent (completeRun db runId outcome auditActor).1 := by
  rcases completeRun_cases db runId outcome auditActor with heq | ⟨row, hrow, hrunning, heq⟩
  · rw [heq]
    exact h
  · rw [heq]
    intro r
    have hone := h r
    rw [recorded] at hone ⊢
    have hsplit : ∀ rows, completions ⟨rows, db.audit ++ [⟨runId, auditActor.getD row.actor,
        completionAuditEntry row.celex outcome⟩]⟩ r =
        completions db r ++ if runId = r then [completionAuditEntry row.celex outcome] else [] := by
      intro rows
      rw [completions, List.filterMap_append, completions]
      congr 1
      cases outcome <;> by_cases hr : runId = r <;> simp [completionAuditEntry, hr]
    rw [hsplit, hone]
    by_cases hr : runId = r
    · subst hr
      simp only [hrow, hrunning, Function.update_self, if_true]
      rfl
    · simp only [Function.update_of_ne (Ne.symm hr), if_neg hr, List.append_nil]

/-- **A terminal row is not written again.** -/
theorem completeRun_terminal (h : Terminal db r row) :
    Terminal (completeRun db runId outcome auditActor).1 r row := by
  rcases completeRun_cases db runId outcome auditActor with heq | ⟨running, hrow, hrunning, heq⟩
  · rw [heq]
    exact h
  · rw [heq]
    refine ⟨?_, h.2⟩
    have hr : r ≠ runId := by
      rintro rfl
      have hsame : row = running := Option.some.inj (h.1.symm.trans hrow)
      exact h.2 (hsame ▸ hrunning)
    simp only [Function.update_of_ne hr]
    exact h.1

/-- Neither transaction removes a row, and only `create_run` adds one. -/
theorem createRun_rows : (createRun db runId celex shortName actor).rows r ≠ none → db.rows r ≠ none ∨ r = runId := by
  unfold createRun
  split
  · exact .inl
  · intro h
    by_cases hr : r = runId
    · exact .inr hr
    · simp only [Function.update_of_ne hr] at h
      exact .inl h

theorem createRun_rows_mono (h : db.rows r ≠ none) : (createRun db runId celex shortName actor).rows r ≠ none := by
  unfold createRun
  split
  · exact h
  · by_cases hr : r = runId
    · subst hr
      simp
    · simp only [Function.update_of_ne hr]
      exact h

theorem completeRun_rows : (completeRun db runId outcome auditActor).1.rows r ≠ none ↔ db.rows r ≠ none := by
  rcases completeRun_cases db runId outcome auditActor with heq | ⟨row, hrow, -, heq⟩
  · rw [heq]
  · rw [heq]
    by_cases hr : r = runId
    · subst hr
      simp [hrow]
    · simp only [Function.update_of_ne hr]

end PolicySystem.IngestionRuns
