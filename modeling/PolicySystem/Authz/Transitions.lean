import PolicySystem.Authz.Model

/-!
# What one statement does

* `Moves`, `step_moves`: every step as one transition of one call;
* `step_cases`: the rows and the log change at commits only;
* `Phase.Fits`: what a transaction has changed and recorded, against its job's statements;
* `Phase.holds`: the advisory lock a phase holds;
* `Inv`, `Inv.step`: these agree in every run.
-/

namespace PolicySystem.Authz

open Sql Interleaved

/-- A statement of one call. -/
inductive Moves (cfg : Config) (db : RoleDb) (i : ℕ) : Phase → RoleDb → Phase → Prop where
  | known (task : Task) (known : activeRolesFor db.rows task.actor ≠ ∅) :
    Moves cfg db i (.reading task) db (task.resolved (activeRolesFor db.rows task.actor ∪ {.authenticatedUser}))
  | unknown (task : Task) : Moves cfg db i (.reading task) db (.locking task)
  | lock (task : Task) {db' : RoleDb} (free : db.acquire i .bootstrap = some db') : Moves cfg db i (.locking task) db' (.checking task)
  | check (task : Task) : Moves cfg db i (.checking task) db (.begin (bootstrapJob cfg db.rows task))
  | refuse (actor : Principal) (key : Key) :
    Moves cfg db i (.counting actor key) db (.begin (.reject actor .revoke key .systemOwnerFloorViolation))
  | count (actor : Principal) (key : Key) : Moves cfg db i (.counting actor key) db (.floorLocking actor key)
  | floorLock (actor : Principal) (key : Key) {db' : RoleDb} (free : db.acquire i .systemOwnerFloor = some db') :
    Moves cfg db i (.floorLocking actor key) db' (.recounting actor key)
  | lose (actor : Principal) (key : Key) :
    Moves cfg db i (.recounting actor key) (db.rollback i) (.begin (.reject actor .revoke key .systemOwnerFloorViolation))
  | recount (actor : Principal) (key : Key) (enough : 1 < countActiveSystemOwners db.rows) :
    Moves cfg db i (.recounting actor key) db (.begin (.change actor .revoke key))
  | insert (job : Job) (key : Key) (todo : List Statement) {db' : RoleDb} (free : db.insert i key = some db') :
    Moves cfg db i (.writing job (.insert key :: todo)) db' (.writing job todo)
  | snapshot (job : Job) (key : Key) (todo : List Statement) :
    Moves cfg db i (.writing job (.delete key :: todo)) db (.deleting job key (db.seen key) todo)
  | delete (job : Job) (key : Key) (saw : Option ℕ) (todo : List Statement) {db' : RoleDb} (free : db.delete i key saw = some db') :
    Moves cfg db i (.deleting job key saw todo) db' (.writing job todo)
  | record (job : Job) (event : RoleEvent) (todo : List Statement) {db' : RoleDb} (free : db.append i event = some db') :
    Moves cfg db i (.writing job (.record event :: todo)) db' (.writing job todo)
  | commit (job : Job) : Moves cfg db i (.writing job []) (db.commit i) job.next

variable {cfg : Config} {db db' : RoleDb} {w w' : World} {e : Event} {i j : ℕ} {ph ph' : Phase}

theorem advance_moves (h : advance cfg db i ph = some (db', ph')) : Moves cfg db i ph db' ph' := by
  cases ph with
  | idle => cases h
  | reading task =>
    obtain ⟨rfl, rfl⟩ := Prod.mk.inj (Option.some.inj h)
    split
    · rename_i hknown
      exact .known task hknown
    · exact .unknown task
  | locking task =>
    obtain ⟨db₁, hdb, heq⟩ := Option.map_eq_some_iff.1 h
    obtain ⟨rfl, rfl⟩ := Prod.mk.inj heq
    exact .lock task hdb
  | checking task =>
    obtain ⟨rfl, rfl⟩ := Prod.mk.inj (Option.some.inj h)
    exact .check task
  | counting actor key =>
    obtain ⟨rfl, rfl⟩ := Prod.mk.inj (Option.some.inj h)
    split
    · exact .refuse actor key
    · exact .count actor key
  | floorLocking actor key =>
    obtain ⟨db₁, hdb, heq⟩ := Option.map_eq_some_iff.1 h
    obtain ⟨rfl, rfl⟩ := Prod.mk.inj heq
    exact .floorLock actor key hdb
  | recounting actor key =>
    simp only [advance] at h
    split at h
    · obtain ⟨rfl, rfl⟩ := Prod.mk.inj (Option.some.inj h)
      exact .lose actor key
    · rename_i henough
      obtain ⟨rfl, rfl⟩ := Prod.mk.inj (Option.some.inj h)
      exact .recount actor key (Nat.lt_of_not_le henough)
  | writing job todo =>
    cases todo with
    | nil =>
      obtain ⟨rfl, rfl⟩ := Prod.mk.inj (Option.some.inj h)
      exact .commit job
    | cons s todo =>
      cases s with
      | insert key =>
        obtain ⟨db₁, hdb, heq⟩ := Option.map_eq_some_iff.1 h
        obtain ⟨rfl, rfl⟩ := Prod.mk.inj heq
        exact .insert job key todo hdb
      | delete key =>
        obtain ⟨rfl, rfl⟩ := Prod.mk.inj (Option.some.inj h)
        exact .snapshot job key todo
      | record event =>
        obtain ⟨db₁, hdb, heq⟩ := Option.map_eq_some_iff.1 h
        obtain ⟨rfl, rfl⟩ := Prod.mk.inj heq
        exact .record job event todo hdb
  | deleting job key saw todo =>
    obtain ⟨db₁, hdb, heq⟩ := Option.map_eq_some_iff.1 h
    obtain ⟨rfl, rfl⟩ := Prod.mk.inj heq
    exact .delete job key saw todo hdb

/-- Every step: a call arrives, a connection fails, or a statement runs. -/
theorem step_moves (h : step cfg w e = some w') :
    ∃ i ph, w'.phase = Function.update w.phase i ph ∧
      ((∃ request, e = .start i request ∧ w.phase i = .idle ∧ w'.db = w.db ∧ ph = .arrive (request.task cfg)) ∨
        (w'.db = w.db.rollback i ∧ ph = .idle) ∨ (e = .step i ∧ Moves cfg w.db i (w.phase i) w'.db ph)) := by
  cases e with
  | start i request =>
    simp only [step] at h
    split at h
    · rename_i hidle
      obtain rfl := Option.some.inj h
      exact ⟨i, _, rfl, .inl ⟨request, rfl, hidle, rfl, rfl⟩⟩
    · cases h
  | step i =>
    obtain ⟨⟨db', ph'⟩, hadvance, rfl⟩ := Option.map_eq_some_iff.1 h
    exact ⟨i, ph', rfl, .inr (.inr ⟨rfl, advance_moves hadvance⟩)⟩
  | abort i =>
    obtain rfl := Option.some.inj h
    exact ⟨i, .idle, rfl, .inr (.inl ⟨rfl, rfl⟩)⟩

/-- What a transition does to the rows and the log, and whether it commits. -/
theorem step_cases (h : step cfg w e = some w') :
    (committed w e = [] ∧ w'.db.rows = w.db.rows ∧ w'.db.log = w.db.log) ∨
      ∃ i job, e = .step i ∧ w.phase i = .writing job [] ∧
        committed w e = [⟨w.db.rows, job, (w.db.tx i).pending⟩] ∧
        w' = ⟨w.db.commit i, Function.update w.phase i job.next⟩ := by
  cases e with
  | start i request =>
    simp only [step] at h
    split at h
    · obtain rfl := Option.some.inj h
      exact .inl ⟨rfl, rfl, rfl⟩
    · cases h
  | abort i =>
    obtain rfl := Option.some.inj h
    exact .inl ⟨rfl, rfl, rfl⟩
  | step i =>
    obtain ⟨⟨db', ph'⟩, hadvance, rfl⟩ := Option.map_eq_some_iff.1 h
    have hmoves := advance_moves hadvance
    simp only [committed]
    generalize hph : w.phase i = ph at hmoves hadvance ⊢
    cases hmoves with
    | known => exact .inl ⟨rfl, rfl, rfl⟩
    | unknown => exact .inl ⟨rfl, rfl, rfl⟩
    | lock task free =>
      obtain ⟨-, rfl⟩ := Db.acquire_cases free
      exact .inl ⟨rfl, rfl, rfl⟩
    | check => exact .inl ⟨rfl, rfl, rfl⟩
    | refuse => exact .inl ⟨rfl, rfl, rfl⟩
    | count => exact .inl ⟨rfl, rfl, rfl⟩
    | floorLock actor key free =>
      obtain ⟨-, rfl⟩ := Db.acquire_cases free
      exact .inl ⟨rfl, rfl, rfl⟩
    | lose => exact .inl ⟨rfl, rfl, rfl⟩
    | recount => exact .inl ⟨rfl, rfl, rfl⟩
    | insert job key todo free =>
      rcases Db.insert_cases free with ⟨-, rfl⟩ | ⟨-, -, rfl⟩
      all_goals exact .inl ⟨rfl, rfl, rfl⟩
    | snapshot => exact .inl ⟨rfl, rfl, rfl⟩
    | delete job key saw todo free =>
      rcases Db.delete_cases free with ⟨-, rfl⟩ | ⟨-, -, rfl⟩
      all_goals exact .inl ⟨rfl, rfl, rfl⟩
    | record job event todo free =>
      obtain ⟨-, rfl⟩ := Db.append_cases free
      exact .inl ⟨rfl, rfl, rfl⟩
    | commit job => exact .inr ⟨i, job, rfl, hph, rfl, rfl⟩

theorem committed_step {job : Job} (h : w.phase i = .writing job []) :
    committed w (.step i) = [⟨w.db.rows, job, (w.db.tx i).pending⟩] := by
  simp only [committed, h]

/-- A step that commits nothing runs no call's commit. -/
theorem not_commit (h : committed w e = []) (he : e = .step i) (job : Job) : w.phase i ≠ .writing job [] := by
  intro hphase
  rw [he, committed_step hphase] at h
  cases h

/-! ## What a call is about -/

/-- The call a job serves. -/
def Job.call : Job → Task
  | .found task => task
  | .bootstrap task => task
  | .bootstrapRejected task => task
  | .change actor action key => ⟨actor, .change action key⟩
  | .reject actor action key _ => ⟨actor, .change action key⟩

/-- The call a thread is in. -/
def Phase.call : Phase → Option Task
  | .idle => none
  | .reading task => some task
  | .locking task => some task
  | .checking task => some task
  | .counting actor key => some ⟨actor, .change .revoke key⟩
  | .floorLocking actor key => some ⟨actor, .change .revoke key⟩
  | .recounting actor key => some ⟨actor, .change .revoke key⟩
  | .writing job _ => some job.call
  | .deleting job _ _ _ => some job.call

@[simp] theorem call_begin (job : Job) : (Phase.begin job).call = some job.call := rfl

theorem call_resolved {task t : Task} {active : Finset AccessRole} (h : (task.resolved active).call = some t) :
    t = task := by
  obtain ⟨actor, purpose⟩ := task
  cases purpose with
  | resolve => cases h
  | change action key =>
    simp only [Task.resolved] at h
    split at h
    · exact (Option.some.inj h).symm
    · split at h
      · exact (Option.some.inj h).symm
      · split at h
        · rename_i hrevoke
          rw [hrevoke.1]
          exact (Option.some.inj h).symm
        · exact (Option.some.inj h).symm

theorem call_next {job : Job} {t : Task} (h : job.next.call = some t) : t = job.call := by
  cases job with
  | found task => exact call_resolved h
  | bootstrap task => exact call_resolved h
  | bootstrapRejected task => exact call_resolved h
  | change => cases h
  | reject => cases h

theorem call_bootstrapJob (rows : Finset Key) (task : Task) : (bootstrapJob cfg rows task).call = task := by
  unfold bootstrapJob
  split
  · rfl
  · split <;> rfl

/-- A call stays what it is to its end. -/
theorem Moves.call {t : Task} (h : Moves cfg db i ph db' ph') (ht : ph'.call = some t) : ph.call = some t := by
  cases h with
  | known task => exact congrArg some (call_resolved ht).symm
  | check task =>
    rw [call_begin, call_bootstrapJob] at ht
    exact ht
  | commit job => exact congrArg some (call_next ht).symm
  | _ => exact ht

/-! ## What a transaction has done -/

/-- The change of a row that a statement can make. -/
def Statement.change : Statement → Option (Key × Change)
  | .insert key => some (key, .insert)
  | .delete key => some (key, .delete)
  | .record _ => none

/-- The event that a statement records. -/
def Statement.event : Statement → Option RoleEvent
  | .record event => some event
  | _ => none

/-- Some of the statements done changed a row; each event was recorded. -/
def Progress (job : Job) (todo : List Statement) (t : Tx Key RoleEvent) : Prop :=
  ∃ done, job.statements = done ++ todo ∧ t.pending.Sublist (done.filterMap Statement.change) ∧
    t.appended.map Prod.snd = done.filterMap Statement.event

/-- What a transaction has done, by its phase. -/
def Phase.Fits : Phase → Tx Key RoleEvent → Prop
  | .writing job todo, t => Progress job todo t
  | .deleting job key _ todo, t => Progress job (.delete key :: todo) t
  | _, t => t = {}

theorem fits_begin (job : Job) : (Phase.begin job).Fits {} := ⟨[], rfl, List.Sublist.refl _, rfl⟩

theorem fits_resolved (task : Task) (active : Finset AccessRole) : (task.resolved active).Fits {} := by
  obtain ⟨actor, purpose⟩ := task
  cases purpose with
  | resolve => rfl
  | change action key =>
    simp only [Task.resolved]
    split
    · exact fits_begin _
    · split
      · exact fits_begin _
      · split
        · rfl
        · exact fits_begin _

theorem fits_next (job : Job) : job.next.Fits {} := by
  cases job with
  | found task => exact fits_resolved _ _
  | bootstrap task => exact fits_resolved _ _
  | bootstrapRejected task => exact fits_resolved _ _
  | change => rfl
  | reject => rfl

theorem Progress.next {job : Job} {s : Statement} {todo : List Statement} {t t' : Tx Key RoleEvent}
    (h : Progress job (s :: todo) t)
    (hpending : t'.pending = t.pending ∨ ∃ c, s.change = some c ∧ t'.pending = t.pending ++ [c])
    (happended : t'.appended.map Prod.snd = t.appended.map Prod.snd ++ s.event.toList) : Progress job todo t' := by
  obtain ⟨done, hstatements, hsub, hevents⟩ := h
  refine ⟨done ++ [s], by rw [hstatements, List.append_assoc, List.singleton_append], ?_, ?_⟩
  · rw [List.filterMap_append]
    rcases hpending with heq | ⟨c, hc, heq⟩
    · rw [heq]
      exact hsub.trans (List.sublist_append_left _ _)
    · rw [heq]
      refine hsub.append ?_
      simp [hc]
  · rw [happended, hevents, List.filterMap_append]
    cases hs : s.event <;> simp [hs]

theorem Moves.fits (h : Moves cfg db i ph db' ph') (hfits : ph.Fits (db.tx i)) : ph'.Fits (db'.tx i) := by
  cases h with
  | known task =>
    rw [show db.tx i = {} from hfits]
    exact fits_resolved _ _
  | unknown => exact hfits
  | lock task free =>
    obtain ⟨-, rfl⟩ := Db.acquire_cases free
    exact hfits
  | check =>
    rw [show db.tx i = {} from hfits]
    exact fits_begin _
  | refuse =>
    rw [show db.tx i = {} from hfits]
    exact fits_begin _
  | count => exact hfits
  | floorLock actor key free =>
    obtain ⟨-, rfl⟩ := Db.acquire_cases free
    exact hfits
  | lose =>
    rw [Db.rollback, Db.release_tx_self]
    exact fits_begin _
  | recount =>
    rw [show db.tx i = {} from hfits]
    exact fits_begin _
  | insert job key todo free =>
    rcases Db.insert_cases free with ⟨-, rfl⟩ | ⟨-, -, rfl⟩
    · exact Progress.next hfits (.inl rfl) (by simp [Statement.event])
    · exact Progress.next hfits (.inr ⟨_, rfl, by rw [Db.change_tx_self]⟩) (by simp [Statement.event])
  | snapshot => exact hfits
  | delete job key saw todo free =>
    rcases Db.delete_cases free with ⟨-, rfl⟩ | ⟨-, -, rfl⟩
    · exact Progress.next hfits (.inl rfl) (by simp [Statement.event])
    · exact Progress.next hfits (.inr ⟨_, rfl, by rw [Db.change_tx_self]⟩) (by simp [Statement.event])
  | record job event todo free =>
    obtain ⟨-, rfl⟩ := Db.append_cases free
    refine Progress.next hfits (.inl ?_) ?_
    · simp
    · simp [Statement.event]
  | commit job =>
    rw [Db.commit_tx_self]
    exact fits_next job

/-! ## The locks -/

/-- The advisory lock of a job's transaction. -/
def Job.holds : Job → Option Lock
  | .found _ => some .bootstrap
  | .bootstrap _ => some .bootstrap
  | .bootstrapRejected _ => some .bootstrap
  | .change _ .revoke (_, .systemOwner) => some .systemOwnerFloor
  | _ => none

/-- The advisory lock that a phase holds. -/
def Phase.holds : Phase → Option Lock
  | .checking _ => some .bootstrap
  | .recounting _ _ => some .systemOwnerFloor
  | .writing job _ => job.holds
  | .deleting job _ _ _ => job.holds
  | _ => none

theorem holds_resolved (task : Task) (active : Finset AccessRole) : (task.resolved active).holds = none := by
  obtain ⟨actor, purpose⟩ := task
  cases purpose with
  | resolve => rfl
  | change action key =>
    simp only [Task.resolved]
    split
    · rfl
    · split
      · rfl
      · split
        · rfl
        · rename_i hnot
          obtain ⟨target, role⟩ := key
          cases action with
          | grant => rfl
          | revoke => cases role with
            | systemOwner => exact absurd ⟨rfl, rfl⟩ hnot
            | _ => rfl

theorem holds_next (job : Job) : job.next.holds = none := by
  cases job with
  | found task => exact holds_resolved _ _
  | bootstrap task => exact holds_resolved _ _
  | bootstrapRejected task => exact holds_resolved _ _
  | change => rfl
  | reject => rfl

theorem holds_bootstrapJob (rows : Finset Key) (task : Task) : (bootstrapJob cfg rows task).holds = some .bootstrap := by
  unfold bootstrapJob
  split
  · rfl
  · split <;> rfl

theorem acquired {l l' : Lock} (free : db.acquire i l = some db') (hj : db.lock l' = some j) : db'.lock l' = some j := by
  obtain ⟨hnone, rfl⟩ := Db.acquire_cases free
  have hne : l' ≠ l := by
    rintro rfl
    rw [hnone] at hj
    cases hj
  exact (Function.update_of_ne hne _ _).trans hj

/-- A statement leaves the other transactions and their locks. -/
theorem Moves.others (h : Moves cfg db i ph db' ph') (hne : j ≠ i) :
    db'.tx j = db.tx j ∧ ∀ l, db.lock l = some j → db'.lock l = some j := by
  cases h with
  | lock task free =>
    refine ⟨?_, fun l hl => acquired free hl⟩
    obtain ⟨-, rfl⟩ := Db.acquire_cases free
    rfl
  | floorLock actor key free =>
    refine ⟨?_, fun l hl => acquired free hl⟩
    obtain ⟨-, rfl⟩ := Db.acquire_cases free
    rfl
  | lose => exact ⟨Db.release_tx_of_ne hne, fun l hl => Db.release_lock.2 ⟨hl, hne⟩⟩
  | insert job key todo free =>
    rcases Db.insert_cases free with ⟨-, rfl⟩ | ⟨-, -, rfl⟩
    · exact ⟨rfl, fun l hl => hl⟩
    · exact ⟨Db.change_tx_of_ne hne, fun l hl => hl⟩
  | delete job key saw todo free =>
    rcases Db.delete_cases free with ⟨-, rfl⟩ | ⟨-, -, rfl⟩
    · exact ⟨rfl, fun l hl => hl⟩
    · exact ⟨Db.change_tx_of_ne hne, fun l hl => hl⟩
  | record job event todo free =>
    obtain ⟨-, rfl⟩ := Db.append_cases free
    exact ⟨Function.update_of_ne hne _ _, fun l hl => hl⟩
  | commit => exact ⟨Db.commit_tx_of_ne hne, fun l hl => Db.commit_lock.2 ⟨hl, hne⟩⟩
  | _ => exact ⟨rfl, fun l hl => hl⟩

theorem Moves.sound (h : Moves cfg db i ph db' ph') (hsound : db.Sound) : db'.Sound := by
  cases h with
  | lock task free => exact hsound.acquire free
  | floorLock actor key free => exact hsound.acquire free
  | lose => exact hsound.rollback
  | insert job key todo free => exact hsound.insert free
  | delete job key saw todo free => exact hsound.delete free
  | record job event todo free => exact hsound.append free
  | commit => exact hsound.commit
  | _ => exact hsound

theorem Moves.locked (h : Moves cfg db i ph db' ph') (hlocked : ∀ l, ph.holds = some l → db.lock l = some i) :
    ∀ l, ph'.holds = some l → db'.lock l = some i := by
  intro l hl
  cases h with
  | known task =>
    rw [holds_resolved] at hl
    cases hl
  | lock task free =>
    cases hl
    exact Db.acquire_lock free
  | check task => exact hlocked l ((holds_bootstrapJob db.rows task).symm.trans hl)
  | floorLock actor key free =>
    cases hl
    exact Db.acquire_lock free
  | recount actor key =>
    obtain ⟨target, role⟩ := key
    cases role with
    | systemOwner => exact hlocked l hl
    | _ => cases hl
  | insert job key todo free =>
    rcases Db.insert_cases free with ⟨-, rfl⟩ | ⟨-, -, rfl⟩
    all_goals exact hlocked l hl
  | snapshot => exact hlocked l hl
  | delete job key saw todo free =>
    rcases Db.delete_cases free with ⟨-, rfl⟩ | ⟨-, -, rfl⟩
    all_goals exact hlocked l hl
  | record job event todo free =>
    obtain ⟨-, rfl⟩ := Db.append_cases free
    exact hlocked l hl
  | commit job =>
    rw [holds_next] at hl
    cases hl
  | _ => cases hl

/-! ## The invariant of every run -/

/-- A key that `grant_role` and `revoke_role` accept: a managed role, of a principal of the process's issuer. -/
def Task.Managed (cfg : Config) (task : Task) : Prop :=
  ∀ action key, task.purpose = .change action key → key.2 ≠ .authenticatedUser ∧ key.1.issuer = cfg.issuer

/-- What the phases say of the database. -/
structure Inv (cfg : Config) (w : World) : Prop where
  sound : w.db.Sound
  fits : ∀ i, (w.phase i).Fits (w.db.tx i)
  locked : ∀ i l, (w.phase i).holds = some l → w.db.lock l = some i
  managed : ∀ i task, (w.phase i).call = some task → task.Managed cfg

theorem inv_start : Inv cfg .start where
  sound := Db.sound_empty
  fits i := rfl
  locked i l h := by cases h
  managed i task h := by cases h

theorem parse_managed {value : String} {role : AccessRole} {table : AccessRole → Option (Finset AccessRole)}
    (hnone : table .authenticatedUser = none) (h : parseGrantableAccessRole value table = some role) :
    role ≠ .authenticatedUser := by
  rintro rfl
  obtain ⟨-, hsome⟩ := Option.filter_eq_some_iff.1 h
  rw [hnone] at hsome
  cases hsome

theorem Request.task_managed {request : Request} {task : Task} (h : request.task cfg = some task) : task.Managed cfg := by
  intro action key hpurpose
  cases request with
  | resolve principal =>
    obtain rfl := Option.some.inj h
    cases hpurpose
  | grantRole actor targetSubject accessRole =>
    obtain ⟨role, hrole, rfl⟩ := Option.map_eq_some_iff.1 h
    cases hpurpose
    exact ⟨parse_managed rfl hrole, rfl⟩
  | revokeRole actor targetSubject accessRole =>
    obtain ⟨role, hrole, rfl⟩ := Option.map_eq_some_iff.1 h
    cases hpurpose
    exact ⟨parse_managed rfl hrole, rfl⟩

theorem call_arrive {request : Request} {task : Task} (h : (Phase.arrive (request.task cfg)).call = some task) :
    request.task cfg = some task := by
  cases hrequest : request.task cfg with
  | none =>
    rw [hrequest] at h
    cases h
  | some t =>
    rw [hrequest] at h
    exact h

/-- **One step keeps the invariant.** -/
theorem Inv.step (h : Inv cfg w) (hstep : step cfg w e = some w') : Inv cfg w' := by
  obtain ⟨i, ph, hphase, hcase⟩ := step_moves hstep
  have hothers : ∀ j, j ≠ i → w'.db.tx j = w.db.tx j ∧ ∀ l, w.db.lock l = some j → w'.db.lock l = some j := by
    intro j hj
    rcases hcase with ⟨request, -, -, hdb, -⟩ | ⟨hdb, -⟩ | ⟨-, hmoves⟩
    · rw [hdb]
      exact ⟨rfl, fun l hl => hl⟩
    · rw [hdb]
      exact ⟨Db.release_tx_of_ne hj, fun l hl => Db.release_lock.2 ⟨hl, hj⟩⟩
    · exact hmoves.others hj
  have hself : w'.db.Sound ∧ ph.Fits (w'.db.tx i) ∧ (∀ l, ph.holds = some l → w'.db.lock l = some i) ∧
      ∀ task, ph.call = some task → task.Managed cfg := by
    rcases hcase with ⟨request, -, hidle, hdb, rfl⟩ | ⟨hdb, rfl⟩ | ⟨-, hmoves⟩
    · have hfits := h.fits i
      rw [hidle] at hfits
      rw [hdb]
      refine ⟨h.sound, ?_, ?_, fun task htask => Request.task_managed (call_arrive htask)⟩
      · cases hrequest : request.task cfg <;> exact hfits
      · intro l hl
        cases hrequest : request.task cfg <;> rw [hrequest] at hl <;> cases hl
    · rw [hdb]
      refine ⟨h.sound.rollback, Db.release_tx_self, fun l hl => ?_, fun task htask => ?_⟩
      · cases hl
      · cases htask
    · exact ⟨hmoves.sound h.sound, hmoves.fits (h.fits i), hmoves.locked (h.locked i),
        fun task htask => h.managed i task (hmoves.call htask)⟩
  obtain ⟨hsound, hfits, hlocked, hmanaged⟩ := hself
  refine ⟨hsound, fun j => ?_, fun j => ?_, fun j => ?_⟩
  all_goals
    rw [hphase]
    by_cases hj : j = i
  · rw [hj, Function.update_self]
    exact hfits
  · rw [Function.update_of_ne hj, (hothers j hj).1]
    exact h.fits j
  · rw [hj, Function.update_self]
    exact hlocked
  · rw [Function.update_of_ne hj]
    exact fun l hl => (hothers j hj).2 l (h.locked j l hl)
  · rw [hj, Function.update_self]
    exact hmanaged
  · rw [Function.update_of_ne hj]
    exact h.managed j

end PolicySystem.Authz
