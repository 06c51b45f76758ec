import PolicySystem.IngestionRuns.Dispatch
import PolicySystem.IngestionRuns.Store

/-!
# Background runs

Start calls, worker threads and status polls of one process, interleaved step by step over the slot registry and the run
store. A write of the store may fail, or be lost: its caller sees an error, and the database commits it later or not at
all.

* `System.step`: the steps of `_submit_ingestion_run`, `start_background_run`, `_execute_background_ingestion` and
  `_reconcile_orphaned_run`;
* `Inv`: a slot is held exactly while a submission or a worker has still to release it, and what a poll is about to mark
  interrupted has no worker left that writes;
* `step_inv`, `run_inv`: every step keeps it, so every run does;
* `background_runs`: **runs end once, and are never declared dead while alive.**
-/

namespace PolicySystem.IngestionRuns

/-- What a start call submits. -/
structure Request where
  celex : String
  shortName : String
  actor : Actor
  deriving DecidableEq

/-- Where the start call of a run stands. -/
inductive Submission where
  /-- No start call has bound the run id. -/
  | absent
  /-- About to reserve the slot. -/
  | reserving (request : Request)
  /-- The slot is reserved; about to insert the row. -/
  | creating (request : Request)
  /-- The row is written; about to start the thread. -/
  | starting
  /-- `create_run` raised: the slot is still to be released. -/
  | createFailed
  /-- The thread did not start: `start_background_run` has still to release the slot. -/
  | startFailed
  /-- It released the slot and raised: the call releases it once more. -/
  | startReraised
  /-- The run id was returned. -/
  | accepted
  /-- The call ended in an error. -/
  | refused
  deriving DecidableEq

/-- Where the worker thread of a run stands. -/
inductive Worker where
  | unstarted
  /-- The pipeline runs. -/
  | running
  /-- It ended; about to write the terminal row. -/
  | recording (outcome : Outcome)
  /-- The work is over; about to release the slot. -/
  | finishing
  | ended
  deriving DecidableEq

/-- Where a status poll stands. -/
inductive Poll where
  | idle
  | reading (runId : String)
  /-- The row it read is `running`; about to look for the slot. -/
  | checking (runId : String)
  /-- No slot was held; about to mark the run interrupted. -/
  | completing (runId : String)
  | rereading (runId : String)
  deriving DecidableEq

/-- A writing transaction of the store. -/
inductive Transaction where
  | create (runId : String) (request : Request)
  | record (runId : String) (outcome : Outcome)
  | interrupt (runId : String)
  deriving DecidableEq

/-- `_INTERRUPTED_RUN_MESSAGE`. -/
def interruptedRunMessage : String :=
  "error: the ingestion run was interrupted before it finished; its outcome is unknown"

/-- `_RECONCILER_AUDIT_ACTOR`. -/
def reconcilerAuditActor : Actor := ("system:ingestion-run-reconciler", "system:ingestion-run-reconciler")

/-- What a transaction does as it commits. -/
def Transaction.commit (db : Database) : Transaction → Database
  | create runId request => createRun db runId request.celex request.shortName request.actor
  | record runId outcome => (completeRun db runId outcome none).1
  | interrupt runId =>
    (completeRun db runId (.failed interruptedRunMessage .interrupted) (some reconcilerAuditActor)).1

/-- How a store call ends: with its commit, with nothing written, or with an error while the commit is in doubt. -/
inductive Reply where
  | answered
  | failed
  | lost
  deriving DecidableEq

/-- The process and its database. -/
structure System where
  inFlight : InFlight
  db : Database
  submissions : String → Submission
  workers : String → Worker
  polls : ℕ → Poll
  inDoubt : List Transaction

namespace System

def initial : System where
  inFlight := []
  db := ⟨fun _ => none, []⟩
  submissions _ := .absent
  workers _ := .unstarted
  polls _ := .idle
  inDoubt := []

def setSubmission (s : System) (runId : String) (submission : Submission) : System :=
  { s with submissions := Function.update s.submissions runId submission }

def setWorker (s : System) (runId : String) (worker : Worker) : System :=
  { s with workers := Function.update s.workers runId worker }

def setPoll (s : System) (i : ℕ) (poll : Poll) : System := { s with polls := Function.update s.polls i poll }

def release (s : System) (runId : String) : System := { s with inFlight := releaseRunSlot s.inFlight runId }

/-- One store call. -/
def send (s : System) (t : Transaction) : Reply → System
  | .answered => { s with db := t.commit s.db }
  | .failed => s
  | .lost => { s with inDoubt := s.inDoubt ++ [t] }

/-- The outcome of a transaction in doubt: the database commits it, or it is gone. -/
def settle (s : System) (k : ℕ) (committed : Bool) : Option System :=
  match s.inDoubt[k]? with
  | none => none
  | some t => some { s with db := if committed then t.commit s.db else s.db, inDoubt := s.inDoubt.eraseIdx k }

end System

/-- One step of one call, of one worker, of one poll, or of the database. -/
inductive Event where
  | startIngestion (runId : String) (request : Request)
  | reserve (runId : String)
  | createRow (runId : String) (reply : Reply)
  | startThread (runId : String) (started : Bool)
  | releaseUnstarted (runId : String)
  | releaseFailed (runId : String)
  | work (runId : String) (outcome : Option Outcome)
  | recordOutcome (runId : String) (reply : Reply)
  | finish (runId : String)
  | poll (i : ℕ) (runId : String)
  | readRow (i : ℕ) (read : Bool)
  | checkSlot (i : ℕ)
  | markInterrupted (i : ℕ) (reply : Reply)
  | reread (i : ℕ)
  | settle (k : ℕ) (committed : Bool)
  deriving DecidableEq

/-- The row a poll reads is `running`. -/
def readsRunning (db : Database) (runId : String) : Bool :=
  match db.rows runId with
  | none => false
  | some row => row.outcome.isNone

/-- **One step**, where it is enabled. -/
def System.step (maxInFlightRuns : ℕ) (s : System) : Event → Option System
  | .startIngestion r request =>
    match s.submissions r with
    | .absent => some (s.setSubmission r (.reserving request))
    | _ => none
  | .reserve r =>
    match s.submissions r with
    | .reserving request =>
      match reserveRunSlot s.inFlight r request.shortName maxInFlightRuns with
      | .error _ => some (s.setSubmission r .refused)
      | .ok inFlight => some ({ s with inFlight }.setSubmission r (.creating request))
    | _ => none
  | .createRow r reply =>
    match s.submissions r with
    | .creating request =>
      some ((s.send (.create r request) reply).setSubmission r
        (match reply with | .answered => .starting | _ => .createFailed))
    | _ => none
  | .startThread r started =>
    match s.submissions r with
    | .starting =>
      if started then some ((s.setSubmission r .accepted).setWorker r .running)
      else some (s.setSubmission r .startFailed)
    | _ => none
  | .releaseUnstarted r =>
    match s.submissions r with
    | .startFailed => some ((s.release r).setSubmission r .startReraised)
    | _ => none
  | .releaseFailed r =>
    match s.submissions r with
    | .createFailed => some ((s.release r).setSubmission r .refused)
    | .startReraised => some ((s.release r).setSubmission r .refused)
    | _ => none
  | .work r outcome =>
    match s.workers r with
    | .running => some (s.setWorker r (match outcome with | some outcome => .recording outcome | none => .finishing))
    | _ => none
  | .recordOutcome r reply =>
    match s.workers r with
    | .recording outcome => some ((s.send (.record r outcome) reply).setWorker r .finishing)
    | _ => none
  | .finish r =>
    match s.workers r with
    | .finishing => some ((s.release r).setWorker r .ended)
    | _ => none
  | .poll i r =>
    match s.polls i with
    | .idle => some (s.setPoll i (.reading r))
    | _ => none
  | .readRow i read =>
    match s.polls i with
    | .reading r => some (s.setPoll i (if read && readsRunning s.db r then .checking r else .idle))
    | _ => none
  | .checkSlot i =>
    match s.polls i with
    | .checking r => some (s.setPoll i (if isRunInFlight s.inFlight r then .idle else .completing r))
    | _ => none
  | .markInterrupted i reply =>
    match s.polls i with
    | .completing r =>
      some ((s.send (.interrupt r) reply).setPoll i (match reply with | .answered => .rereading r | _ => .idle))
    | _ => none
  | .reread i =>
    match s.polls i with
    | .rereading _ => some (s.setPoll i .idle)
    | _ => none
  | .settle k committed => s.settle k committed

/-- The steps of a run. -/
def System.run (maxInFlightRuns : ℕ) (s : System) : List Event → Option System
  | [] => some s
  | e :: es =>
    match s.step maxInFlightRuns e with
    | none => none
    | some s' => s'.run maxInFlightRuns es

/-! ## The invariant -/

/-- A submission or a worker has still to release the slot. -/
def holdsSlot (submission : Submission) (worker : Worker) : Bool :=
  match submission with
  | .creating _ => true
  | .starting => true
  | .createFailed => true
  | .startFailed => true
  | .accepted =>
    match worker with
    | .running => true
    | .recording _ => true
    | .finishing => true
    | _ => false
  | _ => false

/-- The row was written, or may have been. -/
def Submission.rowed : Submission → Bool
  | .absent => false
  | .reserving _ => false
  | .creating _ => false
  | _ => true

/-- No worker of the run is alive, nor will be. -/
def isDead (submission : Submission) (worker : Worker) : Bool :=
  match submission with
  | .startReraised => true
  | .refused => true
  | .accepted => decide (worker = .ended)
  | _ => false

/-- A worker of the run is to make its terminal write, or may yet be started to. -/
def mayWrite (submission : Submission) (worker : Worker) : Bool :=
  match submission with
  | .absent => true
  | .reserving _ => true
  | .creating _ => true
  | .starting => true
  | .accepted =>
    match worker with
    | .running => true
    | .recording _ => true
    | _ => false
  | _ => false

theorem not_mayWrite_of_dead {submission : Submission} {worker : Worker} (h : isDead submission worker = true) :
    mayWrite submission worker = false := by
  cases submission <;> simp [isDead] at h
  case accepted =>
    subst h
    rfl
  case startReraised => rfl
  case refused => rfl

namespace System

def dead (s : System) (r : String) : Prop := isDead (s.submissions r) (s.workers r) = true

/-- A poll looks for the slot of a run with a row, and marks only what is dead. -/
def PollOk (s : System) : Poll → Prop
  | .checking r => s.db.rows r ≠ none
  | .completing r => s.dead r
  | _ => True

/-- A row is inserted for a submission past its insert, and only what is dead is marked. -/
def WriteOk (s : System) : Transaction → Prop
  | .create r _ => (s.submissions r).rowed = true
  | .record _ _ => True
  | .interrupt r => s.dead r

end System

/-- **The invariant.** -/
structure Inv (maxInFlightRuns : ℕ) (s : System) : Prop where
  admitted : s.inFlight.Admitted maxInFlightRuns
  consistent : Consistent s.db
  held : ∀ r, isRunInFlight s.inFlight r = holdsSlot (s.submissions r) (s.workers r)
  started : ∀ r, s.workers r ≠ .unstarted ↔ s.submissions r = .accepted
  rowed : ∀ r, s.db.rows r ≠ none → (s.submissions r).rowed = true
  polled : ∀ i, s.PollOk (s.polls i)
  doubtful : ∀ t ∈ s.inDoubt, s.WriteOk t

variable {maxInFlightRuns : ℕ} {s s' : System} {r : String}

theorem inv_initial : Inv maxInFlightRuns System.initial where
  admitted := admitted_nil
  consistent _ := rfl
  held _ := rfl
  started _ := ⟨fun h => absurd rfl h, fun h => nomatch h⟩
  rowed _ h := absurd rfl h
  polled _ := trivial
  doubtful _ h := nomatch h

/-- A run with a row and without a slot is dead. -/
theorem Inv.dead_of_free (h : Inv maxInFlightRuns s) (hrow : s.db.rows r ≠ none)
    (hfree : isRunInFlight s.inFlight r = false) : s.dead r := by
  have hheld := h.held r
  have hrowed := h.rowed r hrow
  have hstarted := h.started r
  rw [hfree] at hheld
  unfold System.dead
  generalize s.submissions r = submission at *
  generalize s.workers r = worker at *
  cases submission <;> simp [Submission.rowed, holdsSlot] at hrowed hheld
  case accepted =>
    -- its worker was started, and holds no slot any more
    have hne : worker ≠ .unstarted := hstarted.2 rfl
    cases worker <;> simp at hheld hne
    rfl
  case startReraised => rfl
  case refused => rfl

/-- **One run moves on**: its slot, its submission and its worker, with the registry as promised. -/
theorem Inv.move (h : Inv maxInFlightRuns s) {inFlight : InFlight} {submission : Submission} {worker : Worker}
    (hadmitted : inFlight.Admitted maxInFlightRuns)
    (hslots : ∀ r', isRunInFlight inFlight r' = if r' = r then holdsSlot submission worker else isRunInFlight s.inFlight r')
    (hstarted : worker ≠ .unstarted ↔ submission = .accepted)
    (hrowed : (s.submissions r).rowed = true → submission.rowed = true)
    (hdead : s.dead r → isDead submission worker = true) :
    Inv maxInFlightRuns { s with
      inFlight, submissions := Function.update s.submissions r submission,
      workers := Function.update s.workers r worker } := by
  have hkeepsDead : ∀ r', s.dead r' → isDead (Function.update s.submissions r submission r')
      (Function.update s.workers r worker r') = true := by
    intro r' hd
    by_cases hr : r' = r
    · subst hr
      simpa using hdead hd
    · simp only [Function.update_of_ne hr]
      exact hd
  have hkeepsRowed : ∀ r', (s.submissions r').rowed = true →
      (Function.update s.submissions r submission r').rowed = true := by
    intro r' hrow
    by_cases hr : r' = r
    · subst hr
      simpa using hrowed hrow
    · simpa only [Function.update_of_ne hr] using hrow
  refine ⟨hadmitted, h.consistent, fun r' => ?_, fun r' => ?_, fun r' hrow => hkeepsRowed r' (h.rowed r' hrow),
    fun i => ?_, fun t ht => ?_⟩
  · rw [hslots]
    by_cases hr : r' = r
    · subst hr
      simp
    · simp only [if_neg hr, Function.update_of_ne hr]
      exact h.held r'
  · by_cases hr : r' = r
    · subst hr
      simpa using hstarted
    · simp only [Function.update_of_ne hr]
      exact h.started r'
  · have hpoll := h.polled i
    show System.PollOk _ (s.polls i)
    generalize s.polls i = poll at hpoll
    cases poll with
    | checking r' => exact hpoll
    | completing r' => exact hkeepsDead r' hpoll
    | idle => trivial
    | reading r' => trivial
    | rereading r' => trivial
  · have hdoubt := h.doubtful t ht
    cases t with
    | create r' request => exact hkeepsRowed r' hdoubt
    | record r' outcome => trivial
    | interrupt r' => exact hkeepsDead r' hdoubt

/-- A commit of what may be written. -/
theorem Inv.commit (h : Inv maxInFlightRuns s) {t : Transaction} (ht : s.WriteOk t) :
    Inv maxInFlightRuns { s with db := t.commit s.db } := by
  have hmono : ∀ r', s.db.rows r' ≠ none → (t.commit s.db).rows r' ≠ none := by
    intro r' hrow
    cases t with
    | create r request => exact createRun_rows_mono hrow
    | record r outcome => exact completeRun_rows.2 hrow
    | interrupt r => exact completeRun_rows.2 hrow
  refine ⟨h.admitted, ?_, h.held, h.started, fun r' hrow => ?_, fun i => ?_, h.doubtful⟩
  · cases t with
    | create r request => exact createRun_consistent h.consistent
    | record r outcome => exact completeRun_consistent h.consistent
    | interrupt r => exact completeRun_consistent h.consistent
  · cases t with
    | create r request =>
      rcases createRun_rows hrow with hrow | rfl
      · exact h.rowed r' hrow
      · exact ht
    | record r outcome => exact h.rowed r' (completeRun_rows.1 hrow)
    | interrupt r => exact h.rowed r' (completeRun_rows.1 hrow)
  · have hpoll := h.polled i
    show System.PollOk _ (s.polls i)
    generalize s.polls i = poll at hpoll
    cases poll with
    | checking r' => exact hmono r' hpoll
    | completing r' => exact hpoll
    | idle => trivial
    | reading r' => trivial
    | rereading r' => trivial

/-- **A store call of what may be written**, however it ends. -/
theorem Inv.send (h : Inv maxInFlightRuns s) {t : Transaction} (ht : s.WriteOk t) (reply : Reply) :
    Inv maxInFlightRuns (s.send t reply) := by
  cases reply with
  | answered => exact h.commit ht
  | failed => exact h
  | lost =>
    refine ⟨h.admitted, h.consistent, h.held, h.started, h.rowed, h.polled, fun t' ht' => ?_⟩
    rcases List.mem_append.1 ht' with hin | hnew
    · exact h.doubtful t' hin
    · rw [List.mem_singleton.1 hnew]
      exact ht

theorem Inv.setPoll (h : Inv maxInFlightRuns s) {i : ℕ} {poll : Poll} (hpoll : s.PollOk poll) :
    Inv maxInFlightRuns (s.setPoll i poll) := by
  refine ⟨h.admitted, h.consistent, h.held, h.started, h.rowed, fun j => ?_, h.doubtful⟩
  show s.PollOk (Function.update s.polls i poll j)
  by_cases hj : j = i
  · subst hj
    rw [Function.update_self]
    exact hpoll
  · rw [Function.update_of_ne hj]
    exact h.polled j

theorem Inv.settle (h : Inv maxInFlightRuns s) {k : ℕ} {committed : Bool} (hstep : s.settle k committed = some s') :
    Inv maxInFlightRuns s' := by
  unfold System.settle at hstep
  split at hstep
  · cases hstep
  · rename_i t hk
    cases hstep
    have hin : t ∈ s.inDoubt := List.mem_of_getElem? hk
    have hdb : Inv maxInFlightRuns { s with db := if committed then t.commit s.db else s.db } := by
      cases committed with
      | true => exact h.commit (h.doubtful t hin)
      | false => exact h
    exact ⟨hdb.admitted, hdb.consistent, hdb.held, hdb.started, hdb.rowed, hdb.polled,
      fun t' ht' => hdb.doubtful t' (List.mem_of_mem_eraseIdx ht')⟩

/-! ## Every step keeps it -/

/-- Only the submission moves on, and it holds its slot as before. -/
theorem Inv.setSubmission (h : Inv maxInFlightRuns s) {submission : Submission}
    (hslot : holdsSlot submission (s.workers r) = holdsSlot (s.submissions r) (s.workers r))
    (hstarted : s.workers r ≠ .unstarted ↔ submission = .accepted)
    (hrowed : (s.submissions r).rowed = true → submission.rowed = true)
    (hdead : s.dead r → isDead submission (s.workers r) = true) : Inv maxInFlightRuns (s.setSubmission r submission) := by
  have hslots : ∀ r', isRunInFlight s.inFlight r' =
      if r' = r then holdsSlot submission (s.workers r) else isRunInFlight s.inFlight r' := by
    intro r'
    split
    · rename_i hr
      rw [hr, hslot, h.held]
    · rfl
  have hmove := h.move h.admitted hslots hstarted hrowed hdead
  rwa [Function.update_eq_self] at hmove

/-- Only the worker moves on, and it holds its slot as before. -/
theorem Inv.setWorker (h : Inv maxInFlightRuns s) {worker : Worker}
    (hslot : holdsSlot (s.submissions r) worker = holdsSlot (s.submissions r) (s.workers r))
    (hstarted : worker ≠ .unstarted ↔ s.submissions r = .accepted)
    (hdead : s.dead r → isDead (s.submissions r) worker = true) : Inv maxInFlightRuns (s.setWorker r worker) := by
  have hslots : ∀ r', isRunInFlight s.inFlight r' =
      if r' = r then holdsSlot (s.submissions r) worker else isRunInFlight s.inFlight r' := by
    intro r'
    split
    · rename_i hr
      rw [hr, hslot, h.held]
    · rfl
  have hmove := h.move h.admitted hslots hstarted id hdead
  rwa [Function.update_eq_self] at hmove

/-- A run lets its slot go. -/
theorem Inv.letGo (h : Inv maxInFlightRuns s) {submission : Submission} {worker : Worker}
    (hslot : holdsSlot submission worker = false) (hstarted : worker ≠ .unstarted ↔ submission = .accepted)
    (hrowed : (s.submissions r).rowed = true → submission.rowed = true)
    (hdead : s.dead r → isDead submission worker = true) :
    Inv maxInFlightRuns { s.release r with
      submissions := Function.update s.submissions r submission, workers := Function.update s.workers r worker } := by
  refine h.move (releaseRunSlot_admitted h.admitted) (fun r' => ?_) hstarted hrowed hdead
  show isRunInFlight (releaseRunSlot s.inFlight r) r' = _
  rw [isRunInFlight_released]
  by_cases hr : r' = r
  · rw [if_pos hr, hslot]
    simp [hr]
  · rw [if_neg hr]
    simp [hr]

theorem System.send_setSubmission (s : System) (t : Transaction) (reply : Reply) (r : String) (submission : Submission) :
    (s.send t reply).setSubmission r submission = (s.setSubmission r submission).send t reply := by
  cases reply <;> rfl

theorem System.send_setWorker (s : System) (t : Transaction) (reply : Reply) (r : String) (worker : Worker) :
    (s.send t reply).setWorker r worker = (s.setWorker r worker).send t reply := by
  cases reply <;> rfl

theorem System.send_polls (s : System) (t : Transaction) (reply : Reply) : (s.send t reply).polls = s.polls := by
  cases reply <;> rfl

/-- **Every step keeps the invariant.** -/
theorem step_inv (h : Inv maxInFlightRuns s) {e : Event} (hstep : s.step maxInFlightRuns e = some s') :
    Inv maxInFlightRuns s' := by
  have hidle : ∀ {r : String}, s.submissions r ≠ .accepted → s.workers r = .unstarted := by
    intro r hne
    by_contra hw
    exact hne ((h.started r).1 hw)
  have hbusy : ∀ {r : String}, s.workers r ≠ .unstarted → s.submissions r = .accepted := fun hw => (h.started _).1 hw
  cases e with
  | startIngestion r request =>
    simp only [System.step] at hstep
    split at hstep
    · rename_i hsub
      cases hstep
      have hw : s.workers r = .unstarted := hidle (by simp [hsub])
      refine h.setSubmission ?_ ?_ ?_ ?_ <;> simp [hsub, hw, holdsSlot, Submission.rowed, System.dead, isDead]
    · cases hstep
  | reserve r =>
    simp only [System.step] at hstep
    split at hstep
    · rename_i request hsub
      have hw : s.workers r = .unstarted := hidle (by simp [hsub])
      split at hstep
      · cases hstep
        refine h.setSubmission ?_ ?_ ?_ ?_ <;> simp [hsub, hw, holdsSlot, Submission.rowed, System.dead, isDead]
      · rename_i inFlight hreserve
        cases hstep
        have hfresh : isRunInFlight s.inFlight r = false := by rw [h.held, hsub]; rfl
        have hslots : ∀ r', isRunInFlight inFlight r' =
            if r' = r then holdsSlot (.creating request) (s.workers r) else isRunInFlight s.inFlight r' := by
          intro r'
          rw [(reserveRunSlot_ok hfresh hreserve).2.2, isRunInFlight_reserved]
          by_cases hr : r' = r
          · subst hr
            simp [holdsSlot]
          · simp [hr, Ne.symm hr]
        have hmove := h.move (reserveRunSlot_admitted h.admitted hfresh hreserve) hslots
          (by simp [hw]) (by simp [hsub, Submission.rowed]) (by simp [hsub, System.dead, isDead])
        rwa [Function.update_eq_self] at hmove
    · cases hstep
  | createRow r reply =>
    simp only [System.step] at hstep
    split at hstep
    · rename_i request hsub
      cases hstep
      have hw : s.workers r = .unstarted := hidle (by simp [hsub])
      rw [System.send_setSubmission]
      refine Inv.send ?_ ?_ reply
      · refine h.setSubmission ?_ ?_ ?_ ?_ <;> cases reply <;>
          simp [hsub, hw, holdsSlot, Submission.rowed, System.dead, isDead]
      · cases reply <;> simp [System.WriteOk, System.setSubmission, Submission.rowed]
    · cases hstep
  | startThread r started =>
    simp only [System.step] at hstep
    split at hstep
    · rename_i hsub
      have hw : s.workers r = .unstarted := hidle (by simp [hsub])
      have hslots : ∀ r', isRunInFlight s.inFlight r' =
          if r' = r then holdsSlot .accepted .running else isRunInFlight s.inFlight r' := by
        intro r'
        split
        · rename_i hr
          rw [hr, h.held, hsub]
          rfl
        · rfl
      split at hstep
      · cases hstep
        exact h.move h.admitted hslots (by simp) (by simp [hsub, Submission.rowed]) (by simp [hsub, System.dead, isDead])
      · cases hstep
        refine h.setSubmission ?_ ?_ ?_ ?_ <;> simp [hsub, hw, holdsSlot, Submission.rowed, System.dead, isDead]
    · cases hstep
  | releaseUnstarted r =>
    simp only [System.step] at hstep
    split at hstep
    · rename_i hsub
      cases hstep
      have hw : s.workers r = .unstarted := hidle (by simp [hsub])
      have hgone := @Inv.letGo _ _ r h .startReraised (s.workers r) rfl (by simp [hw]) (fun _ => rfl) (fun _ => rfl)
      rwa [Function.update_eq_self] at hgone
    · cases hstep
  | releaseFailed r =>
    simp only [System.step] at hstep
    have hrefused : s.submissions r ≠ .accepted →
        Inv maxInFlightRuns ((s.release r).setSubmission r .refused) := by
      intro hne
      have hgone := @Inv.letGo _ _ r h .refused (s.workers r) rfl (by simp [hidle hne]) (fun _ => rfl) (fun _ => rfl)
      rwa [Function.update_eq_self] at hgone
    split at hstep
    · rename_i hsub
      cases hstep
      exact hrefused (by simp [hsub])
    · rename_i hsub
      cases hstep
      exact hrefused (by simp [hsub])
    · cases hstep
  | work r outcome =>
    simp only [System.step] at hstep
    split at hstep
    · rename_i hw
      cases hstep
      have hsub : s.submissions r = .accepted := hbusy (by simp [hw])
      refine h.setWorker ?_ ?_ ?_ <;> cases outcome <;> simp [hsub, hw, holdsSlot, System.dead, isDead]
    · cases hstep
  | recordOutcome r reply =>
    simp only [System.step] at hstep
    split at hstep
    · rename_i outcome hw
      cases hstep
      have hsub : s.submissions r = .accepted := hbusy (by simp [hw])
      rw [System.send_setWorker]
      have hwrite : ∀ s : System, s.WriteOk (.record r outcome) := fun _ => trivial
      refine Inv.send ?_ (hwrite _) reply
      refine h.setWorker ?_ ?_ ?_ <;> simp [hsub, hw, holdsSlot, System.dead, isDead]
    · cases hstep
  | finish r =>
    simp only [System.step] at hstep
    split at hstep
    · rename_i hw
      cases hstep
      have hsub : s.submissions r = .accepted := hbusy (by simp [hw])
      have hgone := @Inv.letGo _ _ r h (s.submissions r) .ended (by rw [hsub]; rfl) (by simp [hsub]) id
        (fun _ => by rw [hsub]; rfl)
      rwa [Function.update_eq_self] at hgone
    · cases hstep
  | poll i r =>
    simp only [System.step] at hstep
    split at hstep
    · cases hstep
      exact h.setPoll trivial
    · cases hstep
  | readRow i read =>
    simp only [System.step] at hstep
    split at hstep
    · rename_i r hpoll
      cases hstep
      refine h.setPoll ?_
      split
      · rename_i hread
        rw [Bool.and_eq_true] at hread
        intro hnone
        have hrunning := hread.2
        rw [readsRunning, hnone] at hrunning
        cases hrunning
      · trivial
    · cases hstep
  | checkSlot i =>
    simp only [System.step] at hstep
    split at hstep
    · rename_i r hpoll
      cases hstep
      refine h.setPoll ?_
      split
      · trivial
      · rename_i hfree
        have hrow := h.polled i
        rw [hpoll] at hrow
        exact h.dead_of_free hrow (by simpa using hfree)
    · cases hstep
  | markInterrupted i reply =>
    simp only [System.step] at hstep
    split at hstep
    · rename_i r hpoll
      cases hstep
      have hdead := h.polled i
      rw [hpoll] at hdead
      refine (h.send (show s.WriteOk (.interrupt r) from hdead) reply).setPoll ?_
      cases reply <;> trivial
    · cases hstep
  | reread i =>
    simp only [System.step] at hstep
    split at hstep
    · cases hstep
      exact h.setPoll trivial
    · cases hstep
  | settle k committed => exact h.settle hstep

/-- **So does every run.** -/
theorem run_inv (h : Inv maxInFlightRuns s) {events : List Event} (hrun : s.run maxInFlightRuns events = some s') :
    Inv maxInFlightRuns s' := by
  induction events generalizing s with
  | nil =>
    cases hrun
    exact h
  | cons e events ih =>
    rw [System.run] at hrun
    split at hrun
    · cases hrun
    · rename_i hstep
      exact ih (step_inv h hstep) hrun

/-! ## What the runs promise -/

theorem Transaction.commit_terminal {db : Database} {row : RunRow} (h : Terminal db r row) (t : Transaction) :
    Terminal (t.commit db) r row := by
  cases t with
  | create r' request => exact createRun_terminal h
  | record r' outcome => exact completeRun_terminal h
  | interrupt r' => exact completeRun_terminal h

theorem System.send_terminal {row : RunRow} (h : Terminal s.db r row) (t : Transaction) (reply : Reply) :
    Terminal (s.send t reply).db r row := by
  cases reply with
  | answered => exact t.commit_terminal h
  | failed => exact h
  | lost => exact h

/-- No step writes a terminal row. -/
theorem step_terminal {row : RunRow} (h : Terminal s.db r row) {e : Event}
    (hstep : s.step maxInFlightRuns e = some s') : Terminal s'.db r row := by
  cases e with
  | createRow r' reply =>
    simp only [System.step] at hstep
    split at hstep
    · cases hstep
      exact System.send_terminal h _ reply
    · cases hstep
  | recordOutcome r' reply =>
    simp only [System.step] at hstep
    split at hstep
    · cases hstep
      exact System.send_terminal h _ reply
    · cases hstep
  | markInterrupted i reply =>
    simp only [System.step] at hstep
    split at hstep
    · cases hstep
      exact System.send_terminal h _ reply
    · cases hstep
  | settle k committed =>
    simp only [System.step, System.settle] at hstep
    split at hstep
    · cases hstep
    · rename_i t hk
      cases hstep
      cases committed with
      | true => exact t.commit_terminal h
      | false => exact h
  | _ =>
    -- the other steps leave the database alone
    simp only [System.step] at hstep
    repeat' split at hstep
    all_goals cases hstep
    all_goals exact h

/-- The run a step marks interrupted: a poll's write that commits, at once or after it was in doubt. -/
def System.interrupts (s : System) : Event → Option String
  | .markInterrupted i .answered =>
    match s.polls i with
    | .completing r => some r
    | _ => none
  | .settle k true =>
    match s.inDoubt[k]? with
    | some (.interrupt r) => some r
    | _ => none
  | _ => none

theorem Inv.interrupts_dead (h : Inv maxInFlightRuns s) {e : Event} (he : s.interrupts e = some r) : s.dead r := by
  unfold System.interrupts at he
  split at he
  · rename_i i
    split at he
    · rename_i r' hpoll
      cases he
      have hok := h.polled i
      rw [hpoll] at hok
      exact hok
    · cases he
  · rename_i k
    split at he
    · rename_i r' hk
      cases he
      exact h.doubtful _ (List.mem_of_getElem? hk)
    · cases he
  · cases he

/-- **What holds of the process at every moment.** -/
structure WellRun (maxInFlightRuns : ℕ) (s : System) : Prop where
  /-- A terminal row has exactly one completion audit row, and any other row none. -/
  audited : Consistent s.db
  /-- A terminal row is not written again. -/
  endsOnce : ∀ e s', s.step maxInFlightRuns e = some s' → ∀ r row, Terminal s.db r row → Terminal s'.db r row
  /-- No poll marks a run interrupted whose worker is still to write, or may still be started. -/
  interrupts : ∀ e r, s.interrupts e = some r → mayWrite (s.submissions r) (s.workers r) = false
  /-- No more slots than configured, one for a run and one for a short name. -/
  slots : s.inFlight.Admitted maxInFlightRuns
  /-- A run whose submission failed or whose worker ended holds no slot. -/
  released : ∀ r, s.submissions r = .refused ∨ s.workers r = .ended → isRunInFlight s.inFlight r = false

/-- **Background runs end once, and are never declared dead while alive.** -/
theorem background_runs (maxInFlightRuns : ℕ) {events : List Event} {s : System}
    (hrun : System.initial.run maxInFlightRuns events = some s) : WellRun maxInFlightRuns s := by
  have h : Inv maxInFlightRuns s := run_inv inv_initial hrun
  refine ⟨h.consistent, ?_, ?_, h.admitted, ?_⟩
  · intro e s' hstep r row hterminal
    exact step_terminal hterminal hstep
  · intro e r he
    exact not_mayWrite_of_dead (h.interrupts_dead he)
  · rintro r (hrefused | hended)
    · rw [h.held, hrefused]
      rfl
    · have hsub : s.submissions r = .accepted := (h.started r).1 (by simp [hended])
      rw [h.held, hsub, hended]
      rfl

/-- A run whose terminal write is lost: its worker ends, a poll marks it interrupted, and the lost write commits after all. -/
def lostTerminalWrite : List Event :=
  [.startIngestion "a" ⟨"32024R2847", "CRA", ("sub", "iss")⟩, .reserve "a", .createRow "a" .answered, .poll 0 "a",
    .readRow 0 true, .startThread "a" true, .checkSlot 0, .work "a" (some (.succeeded "done")), .recordOutcome "a" .lost,
    .poll 0 "a", .readRow 0 true, .finish "a", .checkSlot 0, .markInterrupted 0 .answered, .settle 0 true]

theorem background_runs_lost : ∃ s, System.initial.run 3 lostTerminalWrite = some s ∧ WellRun 3 s :=
  ⟨_, rfl, @background_runs 3 lostTerminalWrite _ rfl⟩

end PolicySystem.IngestionRuns
