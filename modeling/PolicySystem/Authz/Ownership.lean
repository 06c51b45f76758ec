import PolicySystem.Authz.Transitions

/-!
# There is always a system owner

* `Stage`: no owner yet and an empty table, or the configured owner bootstrapped once;
* `Floored`: who revokes a `SYSTEM_OWNER` under the floor lock leaves another one;
* `SelfOwned`: who changes their own roles is a `SYSTEM_OWNER`, as long as no revoke of that role overtakes the change;
* `Governed`, `governed_when_unraced`: what this makes of every run.
-/

namespace PolicySystem.Authz

open Sql Interleaved

/-- The transaction a thread is in. -/
def Phase.job : Phase → Option Job
  | .writing job _ => some job
  | .deleting job _ _ _ => some job
  | _ => none

/-- The revoke of a `SYSTEM_OWNER`. -/
def Job.RevokesOwner (job : Job) (owner : Principal) : Prop := ∃ actor, job = .change actor .revoke (owner, .systemOwner)

/-- A change that a principal makes of their own roles. -/
def Job.SelfChange (job : Job) (actor : Principal) : Prop := ∃ action role, job = .change actor action (actor, role)

/-! ## What the transactions change -/

variable {cfg : Config} {db db' : RoleDb} {w w' : World} {e : Event} {i j : ℕ} {ph ph' : Phase} {job : Job}
  {task : Task} {todo : List Statement} {t : Tx Key RoleEvent} {key : Key} {n : ℕ}

theorem Progress.mem_pending {p : Key × Change} (h : Progress job todo t) (hp : p ∈ t.pending) :
    p ∈ job.statements.filterMap Statement.change := by
  obtain ⟨done, hstatements, hsub, -⟩ := h
  rw [hstatements, List.filterMap_append]
  exact List.mem_append_left _ (hsub.subset hp)

theorem changes_eq (job : Job) : job.statements.filterMap Statement.change = job.edits.filterMap Statement.change := by
  unfold Job.statements
  rw [List.filterMap_append]
  cases job.event <;> simp [Statement.change]

/-- Only a revoke deletes a row. -/
theorem revoke_of_delete (hmem : (key, Change.delete) ∈ job.statements.filterMap Statement.change) :
    ∃ actor, job = .change actor .revoke key := by
  rw [changes_eq] at hmem
  cases job with
  | change actor action k =>
    cases action with
    | grant => simp [Job.edits, Statement.change] at hmem
    | revoke =>
      have heq : key = k := by simpa [Job.edits, Statement.change] using hmem
      exact ⟨actor, by rw [heq]⟩
  | bootstrap task => simp [Job.edits, Statement.change] at hmem
  | _ => simp [Job.edits] at hmem

theorem Progress.deletes (h : Progress job todo t) (hp : (key, Change.delete) ∈ t.pending) :
    ∃ actor, job = .change actor .revoke key := revoke_of_delete (h.mem_pending hp)

theorem Progress.delete_next (h : Progress job (.delete key :: todo) t) : ∃ actor, job = .change actor .revoke key := by
  obtain ⟨done, hstatements, -, -⟩ := h
  refine revoke_of_delete ?_
  rw [hstatements, List.filterMap_append]
  exact List.mem_append_right _ (by simp [Statement.change])

/-- The phase of a transaction, with what it has done. -/
theorem Phase.Fits.progress (h : ph.Fits t) (hjob : ph.job = some job) : ∃ todo, Progress job todo t := by
  cases ph with
  | writing job' todo =>
    obtain rfl := Option.some.inj hjob
    exact ⟨todo, h⟩
  | deleting job' key saw todo =>
    obtain rfl := Option.some.inj hjob
    exact ⟨_, h⟩
  | _ => cases hjob

theorem holds_job (hjob : ph.job = some job) : ph.holds = job.holds := by
  cases ph with
  | writing => rw [Option.some.inj hjob.symm]; rfl
  | deleting => rw [Option.some.inj hjob.symm]; rfl
  | _ => cases hjob

theorem call_job (hjob : ph.job = some job) : ph.call = some job.call := by
  cases ph with
  | writing => rw [Option.some.inj hjob.symm]; rfl
  | deleting => rw [Option.some.inj hjob.symm]; rfl
  | _ => cases hjob

/-- Two transactions under one advisory lock are one. -/
theorem Inv.alone (h : Inv cfg w) {l : Lock} (hi : (w.phase i).holds = some l) (hj : (w.phase j).holds = some l) : i = j := by
  have hlock := h.locked i l hi
  rw [h.locked j l hj] at hlock
  exact (Option.some.inj hlock).symm

/-- A row that a transaction deletes has a managed role. -/
theorem Inv.deletes_managed (h : Inv cfg w) (hjob : (w.phase i).job = some job)
    (hp : (key, Change.delete) ∈ (w.db.tx i).pending) : key.2 ≠ .authenticatedUser := by
  obtain ⟨todo, hprogress⟩ := (h.fits i).progress hjob
  obtain ⟨actor, rfl⟩ := hprogress.deletes hp
  exact (h.managed i _ (call_job hjob) .revoke key rfl).1

theorem resolved_job {active : Finset AccessRole} (hjob : (task.resolved active).job = some job) :
    (∃ action key reason, job = .reject task.actor action key reason) ∨
      ∃ action key, job = .change task.actor action key ∧ task.purpose = .change action key ∧
        (rbac action key.2).getD ∅ ∩ active ≠ ∅ ∧ ¬ (action = .revoke ∧ key.2 = .systemOwner) ∧
        (blockSelfTarget ⟨task.actor, key.1, key.2, action, 0, .systemOwner ∈ active⟩).allowed = true := by
  obtain ⟨actor, purpose⟩ := task
  cases purpose with
  | resolve => cases hjob
  | change action key =>
    simp only [Task.resolved] at hjob
    split at hjob
    · exact .inl ⟨_, _, _, (Option.some.inj hjob).symm⟩
    · rename_i hrole
      split at hjob
      · exact .inl ⟨_, _, _, (Option.some.inj hjob).symm⟩
      · rename_i hallowed
        split at hjob
        · cases hjob
        · rename_i hnot
          exact .inr ⟨action, key, (Option.some.inj hjob).symm, rfl, hrole, hnot, by simpa using hallowed⟩

theorem next_not_bootstrap (h : job.next.job = some (.bootstrap task)) : False := by
  cases job with
  | found t => rcases resolved_job h with ⟨_, _, _, hnew⟩ | ⟨_, _, hnew, _⟩ <;> cases hnew
  | bootstrap t => rcases resolved_job h with ⟨_, _, _, hnew⟩ | ⟨_, _, hnew, _⟩ <;> cases hnew
  | bootstrapRejected t => rcases resolved_job h with ⟨_, _, _, hnew⟩ | ⟨_, _, hnew, _⟩ <;> cases hnew
  | change => cases h
  | reject => cases h

theorem rbac_not_authenticated (action : Action) (role : AccessRole) :
    (rbac action role).getD ∅ ∩ {AccessRole.authenticatedUser} = ∅ := by
  cases action <;> cases role <;> decide

/-- Where a transaction comes from. -/
theorem Moves.before_job (h : Moves cfg db i ph db' ph') (hjob : ph'.job = some job) :
    ph.job = some job ∨
      (∃ task, ph = .reading task ∧ db' = db ∧
        ph' = task.resolved (activeRolesFor db.rows task.actor ∪ {.authenticatedUser})) ∨
      (∃ task, ph = .checking task ∧ db' = db ∧ job = bootstrapJob cfg db.rows task) ∨
      (∃ actor key reason, job = .reject actor .revoke key reason) ∨
      (∃ actor key, ph = .recounting actor key ∧ db' = db ∧ 1 < countActiveSystemOwners db.rows ∧
        job = .change actor .revoke key) ∨
      ∃ job', ph = .writing job' [] ∧ db' = db.commit i ∧ ph' = job'.next := by
  cases h with
  | known task => exact .inr (.inl ⟨task, rfl, rfl, rfl⟩)
  | unknown => cases hjob
  | lock => cases hjob
  | check task => exact .inr (.inr (.inl ⟨task, rfl, rfl, (Option.some.inj hjob).symm⟩))
  | refuse => exact .inr (.inr (.inr (.inl ⟨_, _, _, (Option.some.inj hjob).symm⟩)))
  | count => cases hjob
  | floorLock => cases hjob
  | lose => exact .inr (.inr (.inr (.inl ⟨_, _, _, (Option.some.inj hjob).symm⟩)))
  | recount actor key enough =>
    exact .inr (.inr (.inr (.inr (.inl ⟨actor, key, rfl, rfl, enough, (Option.some.inj hjob).symm⟩))))
  | commit job' => exact .inr (.inr (.inr (.inr (.inr ⟨job', rfl, rfl, rfl⟩))))
  | _ => exact .inl hjob

/-! ## The first owner -/

/-- A phase before there is an owner. -/
def Phase.Early (cfg : Config) : Phase → Tx Key RoleEvent → Prop
  | .counting .., _ => False
  | .floorLocking .., _ => False
  | .recounting .., _ => False
  | .deleting .., _ => False
  | .writing (.change ..) _, _ => False
  | .writing (.bootstrap task) todo, t => task.actor = cfg.bootstrapOwner ∧
    (Job.bootstrap task).statements.filterMap Statement.change = t.pending ++ todo.filterMap Statement.change
  | _, _ => True

def Job.isBootstrap : Job → Bool
  | .bootstrap _ => true
  | _ => false

/-- No owner yet and an empty table, or the configured owner bootstrapped once. -/
inductive Stage (cfg : Config) (w : World) : ℕ → Prop where
  | unowned (empty : w.db.rows = ∅) (early : ∀ i, (w.phase i).Early cfg (w.db.tx i)) : Stage cfg w 0
  | owned (row : (cfg.bootstrapOwner, .authenticatedUser) ∈ w.db.rows)
    (finished : ∀ i task, (w.phase i).job ≠ some (.bootstrap task)) : Stage cfg w 1

theorem early_resolved : (task.resolved {.authenticatedUser}).Early cfg t := by
  obtain ⟨actor, purpose⟩ := task
  cases purpose with
  | resolve => trivial
  | change action key =>
    simp only [Task.resolved]
    rw [if_pos (rbac_not_authenticated action key.2)]
    trivial

theorem activeRolesFor_empty (principal : Principal) : activeRolesFor ∅ principal = ∅ := rfl

theorem Moves.early (h : Moves cfg db i ph db' ph') (hrows : db.rows = ∅) (hfits : ph.Fits (db.tx i)) (hearly : ph.Early cfg (db.tx i))
    (hcommit : ∀ job, ph ≠ .writing job []) : ph'.Early cfg (db'.tx i) := by
  cases h with
  | known task known => exact absurd (by rw [hrows, activeRolesFor_empty]) known
  | unknown => trivial
  | lock => trivial
  | check task =>
    unfold bootstrapJob
    rw [if_neg (not_not.2 hrows)]
    split
    · trivial
    · rename_i howner
      rw [show db.tx i = {} from hfits]
      exact ⟨not_not.1 howner, rfl⟩
  | refuse => exact hearly.elim
  | count => exact hearly.elim
  | floorLock => exact hearly.elim
  | lose => exact hearly.elim
  | recount => exact hearly.elim
  | insert job key todo free =>
    cases job with
    | bootstrap task =>
      obtain ⟨howner, hchanges⟩ := hearly
      refine ⟨howner, ?_⟩
      rcases Db.insert_cases free with ⟨hmem, -⟩ | ⟨-, -, rfl⟩
      · rw [hrows] at hmem
        exact absurd hmem (Finset.notMem_empty key)
      · rw [hchanges, Db.change_tx_self]
        simp [Statement.change]
    | change => exact hearly.elim
    | _ => trivial
  | snapshot job key todo =>
    obtain ⟨actor, rfl⟩ := Progress.delete_next hfits
    exact hearly.elim
  | delete => exact hearly.elim
  | record job event todo free =>
    obtain ⟨-, rfl⟩ := Db.append_cases free
    cases job with
    | bootstrap task =>
      refine ⟨hearly.1, hearly.2.trans ?_⟩
      simp [Statement.change, List.filterMap_cons]
    | change => exact hearly.elim
    | _ => trivial
  | commit job => exact absurd rfl (hcommit job)

theorem Moves.not_bootstrap (h : Moves cfg db i ph db' ph') (hrows : db.rows ≠ ∅)
    (hnot : ∀ task, ph.job ≠ some (.bootstrap task)) (task : Task) : ph'.job ≠ some (.bootstrap task) := by
  intro hjob
  rcases h.before_job hjob with hsame | ⟨_, _, _, rfl⟩ | ⟨task', _, _, hnew⟩ | ⟨_, _, _, hnew⟩ | ⟨_, _, _, _, _, hnew⟩ |
    ⟨job', _, _, rfl⟩
  · exact hnot task hsame
  · rcases resolved_job hjob with ⟨_, _, _, hnew⟩ | ⟨_, _, hnew, _⟩ <;> cases hnew
  · unfold bootstrapJob at hnew
    rw [if_pos hrows] at hnew
    cases hnew
  · cases hnew
  · cases hnew
  · exact next_not_bootstrap hjob

/-- The rows after a commit that deletes no row of a key. -/
theorem mem_commit_of_mem (hmem : key ∈ db.rows) (hno : (key, Change.delete) ∉ (db.tx i).pending) :
    key ∈ (db.commit i).rows := Db.mem_commit.2 (.inl ⟨hmem, hno⟩)

theorem Inv.pending_nil (h : Inv cfg w) (hphase : w.phase i = .writing job todo) (hedits : job.edits = []) :
    (w.db.tx i).pending = [] := by
  have hfits := h.fits i
  rw [hphase] at hfits
  refine List.eq_nil_iff_forall_not_mem.2 fun p hp => ?_
  have hmem := Progress.mem_pending hfits hp
  rw [changes_eq, hedits] at hmem
  cases hmem

theorem commit_rows_of_nil (h : (db.tx i).pending = []) : (db.commit i).rows = db.rows := by
  ext k
  rw [Db.mem_commit, h]
  simp

/-- The statements before there is an owner, other than the commit of the bootstrap. -/
theorem Stage.step_unowned (hrows : w.db.rows = ∅) (hearly : ∀ i, (w.phase i).Early cfg (w.db.tx i)) (hinv : Inv cfg w)
    (hstep : Authz.step cfg w e = some w') (hnone : committed w e = []) :
    w'.db.rows = ∅ ∧ ∀ i, (w'.phase i).Early cfg (w'.db.tx i) := by
  have hsame : w'.db.rows = w.db.rows := by
    rcases step_cases hstep with ⟨-, hsame, -⟩ | ⟨i, job, -, -, hcommit, -⟩
    · exact hsame
    · rw [hnone] at hcommit
      cases hcommit
  refine ⟨hsame.trans hrows, ?_⟩
  obtain ⟨i, ph, hphase, hcase⟩ := step_moves hstep
  intro j
  rw [hphase]
  by_cases hj : j = i
  · subst hj
    rw [Function.update_self]
    rcases hcase with ⟨request, -, -, -, rfl⟩ | ⟨-, rfl⟩ | ⟨he, hmoves⟩
    · cases request.task cfg <;> trivial
    · trivial
    · exact hmoves.early hrows (hinv.fits j) (hearly j) (not_commit hnone he)
  · rw [Function.update_of_ne hj]
    rcases hcase with ⟨request, -, -, hdb, -⟩ | ⟨hdb, -⟩ | ⟨-, hmoves⟩
    · rw [hdb]
      exact hearly j
    · rw [hdb, Db.rollback, Db.release_tx_of_ne hj]
      exact hearly j
    · rw [(hmoves.others hj).1]
      exact hearly j

/-- The commit of the bootstrap installs the configured owner. -/
theorem bootstrap_commit (hearly : (Phase.writing (.bootstrap task) []).Early cfg (db.tx i)) :
    task.actor = cfg.bootstrapOwner ∧ (task.actor, .authenticatedUser) ∈ (db.commit i).rows ∧
      (task.actor, .systemOwner) ∈ (db.commit i).rows := by
  obtain ⟨howner, hchanges⟩ := hearly
  have hpending : (db.tx i).pending = [((task.actor, .authenticatedUser), .insert), ((task.actor, .systemOwner), .insert)] := by
    rw [changes_eq] at hchanges
    simpa [Job.edits, Statement.change] using hchanges.symm
  refine ⟨howner, Db.mem_commit.2 (.inr ?_), Db.mem_commit.2 (.inr ?_)⟩
  all_goals simp [hpending]

/-- **One step of the first owner.** -/
theorem Stage.step (h : Stage cfg w n) (hinv : Inv cfg w) (hstep : Authz.step cfg w e = some w') :
    Stage cfg w' (n + ((committed w e).filter (·.job.isBootstrap)).length) := by
  cases h with
  | unowned hrows hearly =>
    rcases step_cases hstep with ⟨hnone, -, -⟩ | ⟨i, job, rfl, hphase, hcommit, rfl⟩
    · obtain ⟨hrows', hearly'⟩ := Stage.step_unowned hrows hearly hinv hstep hnone
      rw [hnone]
      exact .unowned hrows' hearly'
    · have hi := hearly i
      rw [hphase] at hi
      -- a job that edits no row commits, and the table stays empty
      have hquiet : job.edits = [] → job.isBootstrap = false → job.next.Early cfg {} →
          Stage cfg ⟨w.db.commit i, Function.update w.phase i job.next⟩
            (0 + ((committed w (.step i)).filter (·.job.isBootstrap)).length) := by
        intro hedits hnot hnext
        have hlength : 0 + ((committed w (.step i)).filter (·.job.isBootstrap)).length = 0 := by
          rw [hcommit]
          simp [hnot]
        rw [hlength]
        refine .unowned ((commit_rows_of_nil (hinv.pending_nil hphase hedits)).trans hrows) fun j => ?_
        by_cases hj : j = i
        · subst hj
          simpa using hnext
        · simpa [hj] using hearly j
      cases job with
      | found task => exact hquiet rfl rfl early_resolved
      | bootstrapRejected task => exact hquiet rfl rfl early_resolved
      | reject => exact hquiet rfl rfl trivial
      | change => exact hi.elim
      | bootstrap task =>
        obtain ⟨howner, hrow, -⟩ := bootstrap_commit hi
        rw [hcommit]
        refine .owned (howner ▸ hrow) fun j task' hjob => ?_
        by_cases hj : j = i
        · subst hj
          simp only [Function.update_self] at hjob
          exact next_not_bootstrap hjob
        · -- another bootstrap would hold the same advisory lock
          simp only [Function.update_of_ne hj] at hjob
          refine hj (hinv.alone (l := .bootstrap) ?_ ?_)
          · rw [holds_job hjob]
            rfl
          · rw [hphase]
            rfl
  | owned hrow hno =>
    have hrow' : (cfg.bootstrapOwner, AccessRole.authenticatedUser) ∈ w'.db.rows := by
      rcases step_cases hstep with ⟨-, hsame, -⟩ | ⟨i, job, -, hphase, -, rfl⟩
      · rw [hsame]
        exact hrow
      · refine mem_commit_of_mem hrow fun hp => ?_
        have hjob : (w.phase i).job = some job := by
          rw [hphase]
          rfl
        exact hinv.deletes_managed hjob hp rfl
    have hlength : ((committed w e).filter (·.job.isBootstrap)).length = 0 := by
      rcases step_cases hstep with ⟨hnone, -, -⟩ | ⟨i, job, -, hphase, hcommit, -⟩
      · rw [hnone]
        rfl
      · rw [hcommit]
        cases job with
        | bootstrap task => exact absurd (by rw [hphase]; rfl) (hno i task)
        | _ => rfl
    rw [hlength]
    refine .owned hrow' fun j task => ?_
    obtain ⟨i, ph, hphase, hcase⟩ := step_moves hstep
    rw [hphase]
    by_cases hj : j = i
    · subst hj
      rw [Function.update_self]
      rcases hcase with ⟨request, -, -, -, rfl⟩ | ⟨-, rfl⟩ | ⟨-, hmoves⟩
      · cases request.task cfg <;> exact fun h => by cases h
      · exact fun h => by cases h
      · exact hmoves.not_bootstrap (Finset.ne_empty_of_mem hrow) (hno j) task
    · rw [Function.update_of_ne hj]
      exact hno j task

/-! ## The floor -/

/-- Who revokes a `SYSTEM_OWNER` under the floor lock leaves another one. -/
def Floored (w : World) : Prop :=
  ∀ i job owner, (w.phase i).job = some job → job.RevokesOwner owner → 1 < countActiveSystemOwners w.db.rows

theorem mem_systemOwners {rows : Finset Key} : key ∈ systemOwners rows ↔ key ∈ rows ∧ key.2 = .systemOwner :=
  Finset.mem_filter

/-- A commit deletes a `SYSTEM_OWNER` row only in a revoke under the floor lock. -/
theorem Inv.revoker (h : Inv cfg w) (hphase : w.phase i = .writing job []) (howner : key.2 = .systemOwner)
    (hp : (key, Change.delete) ∈ (w.db.tx i).pending) : job.RevokesOwner key.1 ∧ job.holds = some .systemOwnerFloor := by
  have hfits := h.fits i
  rw [hphase] at hfits
  obtain ⟨actor, rfl⟩ := Progress.deletes hfits hp
  obtain ⟨target, role⟩ := key
  obtain rfl := howner
  exact ⟨⟨actor, rfl⟩, rfl⟩

theorem RevokesOwner.holds {owner : Principal} (h : job.RevokesOwner owner) : job.holds = some .systemOwnerFloor := by
  obtain ⟨actor, rfl⟩ := h
  rfl

/-- While another thread holds the floor lock, a commit leaves the owners. -/
theorem systemOwners_commit (hinv : Inv cfg w) (hphase : w.phase i = .writing job [])
    (hheld : (w.phase j).holds = some .systemOwnerFloor) (hne : j ≠ i) :
    systemOwners w.db.rows ⊆ systemOwners (w.db.commit i).rows := by
  intro key hkey
  obtain ⟨hmem, howner⟩ := mem_systemOwners.1 hkey
  refine mem_systemOwners.2 ⟨mem_commit_of_mem hmem fun hp => ?_, howner⟩
  obtain ⟨-, hholds⟩ := hinv.revoker hphase howner hp
  refine hne (hinv.alone hheld ?_)
  rw [hphase]
  exact hholds

theorem resolved_not_revoker {active : Finset AccessRole} {owner : Principal}
    (hjob : (task.resolved active).job = some job) : ¬ job.RevokesOwner owner := by
  rintro ⟨actor, rfl⟩
  rcases resolved_job hjob with ⟨_, _, _, hnew⟩ | ⟨action, key, hnew, -, -, hnot, -⟩
  · cases hnew
  · cases hnew
    exact hnot ⟨rfl, rfl⟩

theorem next_not_revoker {job' : Job} {owner : Principal} (hjob : job'.next.job = some job) : ¬ job.RevokesOwner owner := by
  cases job' with
  | found t => exact resolved_not_revoker hjob
  | bootstrap t => exact resolved_not_revoker hjob
  | bootstrapRejected t => exact resolved_not_revoker hjob
  | change => cases hjob
  | reject => cases hjob

/-- **One step of the floor.** -/
theorem Floored.step (h : Floored w) (hinv : Inv cfg w) (hstep : Authz.step cfg w e = some w') : Floored w' := by
  intro j job owner hjob howner
  rcases step_cases hstep with ⟨hnone, hrows, -⟩ | ⟨i, job', rfl, hphase, -, rfl⟩
  · rw [hrows]
    obtain ⟨i, ph, hphase, hcase⟩ := step_moves hstep
    rw [hphase] at hjob
    by_cases hj : j = i
    · subst hj
      rw [Function.update_self] at hjob
      rcases hcase with ⟨request, -, -, -, rfl⟩ | ⟨-, rfl⟩ | ⟨he, hmoves⟩
      · cases hrequest : request.task cfg <;> rw [hrequest] at hjob <;> cases hjob
      · cases hjob
      · rcases hmoves.before_job hjob with hsame | ⟨_, _, _, rfl⟩ | ⟨task', _, _, hnew⟩ | ⟨_, _, _, hnew⟩ |
          ⟨_, _, _, _, henough, _⟩ | ⟨job', hcommit, _, _⟩
        · exact h j job owner hsame howner
        · exact absurd howner (resolved_not_revoker hjob)
        · obtain ⟨actor, rfl⟩ := howner
          unfold bootstrapJob at hnew
          split at hnew
          · cases hnew
          · split at hnew <;> cases hnew
        · obtain ⟨actor, rfl⟩ := howner
          cases hnew
        · exact henough
        · exact absurd hcommit (not_commit hnone he job')
    · rw [Function.update_of_ne hj] at hjob
      exact h j job owner hjob howner
  · by_cases hj : j = i
    · subst hj
      simp only [Function.update_self] at hjob
      exact absurd howner (next_not_revoker hjob)
    · simp only [Function.update_of_ne hj] at hjob
      have hheld : (w.phase j).holds = some .systemOwnerFloor := (holds_job hjob).trans (RevokesOwner.holds howner)
      exact lt_of_lt_of_le (h j job owner hjob howner) (Finset.card_le_card (systemOwners_commit hinv hphase hheld hj))

/-- A revoke changes no other row. -/
theorem Progress.revokes {actor : Principal} {p : Key × Change} (h : Progress (.change actor .revoke key) todo t)
    (hp : p ∈ t.pending) : p = (key, .delete) := by
  have hmem := h.mem_pending hp
  rw [changes_eq] at hmem
  simpa [Job.edits, Statement.change] using hmem

/-- **Once there is an owner, a step leaves one.** -/
theorem Floored.owned (h : Floored w) (hinv : Inv cfg w) (hstep : Authz.step cfg w e = some w')
    (howned : systemOwners w.db.rows ≠ ∅) : systemOwners w'.db.rows ≠ ∅ := by
  rcases step_cases hstep with ⟨-, hrows, -⟩ | ⟨i, job, -, hphase, -, rfl⟩
  · rw [hrows]
    exact howned
  · have hfits := hinv.fits i
    rw [hphase] at hfits
    by_cases hrevokes : ∃ key, key.2 = AccessRole.systemOwner ∧ (key, Change.delete) ∈ (w.db.tx i).pending
    · obtain ⟨key, howner, hp⟩ := hrevokes
      obtain ⟨hrevoker, -⟩ := hinv.revoker hphase howner hp
      obtain ⟨actor, rfl⟩ := Progress.deletes hfits hp
      have hmore := h i _ _ (by rw [hphase]; rfl) hrevoker
      obtain ⟨other, hother, hne⟩ := Finset.exists_mem_ne hmore key
      obtain ⟨hmem, hrole⟩ := mem_systemOwners.1 hother
      refine Finset.ne_empty_of_mem (mem_systemOwners.2 ⟨mem_commit_of_mem hmem fun hdelete => ?_, hrole⟩)
      exact hne (Prod.mk.inj (Progress.revokes hfits hdelete)).1
    · obtain ⟨key, hkey⟩ := Finset.nonempty_iff_ne_empty.2 howned
      obtain ⟨hmem, howner⟩ := mem_systemOwners.1 hkey
      refine Finset.ne_empty_of_mem (mem_systemOwners.2 ⟨mem_commit_of_mem hmem fun hp => ?_, howner⟩)
      exact hrevokes ⟨key, howner, hp⟩

/-! ## One's own roles -/

/-- The revoke of a `SYSTEM_OWNER` on its way to the floor lock. -/
def Phase.floorCall : Phase → Option (Principal × Key)
  | .counting actor key => some (actor, key)
  | .floorLocking actor key => some (actor, key)
  | .recounting actor key => some (actor, key)
  | _ => none

/-- Who changes their own roles is a `SYSTEM_OWNER`, and does not revoke that role. -/
def Phase.SelfOwned (rows : Finset Key) (ph : Phase) : Prop :=
  (∀ actor action role, ph.job = some (.change actor action (actor, role)) →
    (actor, .systemOwner) ∈ rows ∧ ¬ (action = .revoke ∧ role = .systemOwner)) ∧
  ∀ actor key, ph.floorCall = some (actor, key) → actor ≠ key.1

/-- No revoke of a `SYSTEM_OWNER` commits while that principal, past the role check, changes their own roles. -/
def Unraced (w : World) (e : Event) : Prop :=
  ∀ c ∈ committed w e, ∀ owner, c.job.RevokesOwner owner →
    ∀ i job, (w.phase i).job = some job → ¬ job.SelfChange owner

theorem blockSelfTarget_self {actor : Principal} {role : AccessRole} {action : Action} {count : ℕ} {owner : Bool}
    (h : (blockSelfTarget ⟨actor, actor, role, action, count, owner⟩).allowed = true) :
    owner = true ∧ ¬ (action = .revoke ∧ role = .systemOwner) := by
  unfold blockSelfTarget at h
  simp only [ne_eq, not_true_eq_false, if_false] at h
  split at h
  · rename_i hexempt
    exact hexempt
  · cases h

theorem mem_activeRolesFor {rows : Finset Key} {principal : Principal} {role : AccessRole} :
    role ∈ activeRolesFor rows principal ↔ (principal, role) ∈ rows := by
  unfold activeRolesFor
  simp only [Finset.mem_image, Finset.mem_filter]
  constructor
  · rintro ⟨⟨p, r⟩, ⟨hmem, rfl⟩, rfl⟩
    exact hmem
  · intro hmem
    exact ⟨(principal, role), ⟨hmem, rfl⟩, rfl⟩

/-- A change of one's own roles that passes the rules is a `SYSTEM_OWNER`'s. -/
theorem resolved_selfOwned {active : Finset AccessRole} {rows : Finset Key}
    (hactive : AccessRole.systemOwner ∈ active → (task.actor, .systemOwner) ∈ rows) :
    (task.resolved active).SelfOwned rows := by
  constructor
  · intro actor action role hjob
    rcases resolved_job hjob with ⟨_, _, _, hnew⟩ | ⟨action', key, hnew, -, -, -, hallowed⟩
    · cases hnew
    · obtain ⟨rfl, rfl, rfl⟩ := Job.change.inj hnew
      obtain ⟨hmem, hnot⟩ := blockSelfTarget_self hallowed
      exact ⟨hactive (by simpa using hmem), hnot⟩
  · intro actor key hcall
    obtain ⟨caller, purpose⟩ := task
    cases purpose with
    | resolve => cases hcall
    | change action k =>
      simp only [Task.resolved] at hcall
      split at hcall
      · cases hcall
      · split at hcall
        · cases hcall
        · rename_i hallowed
          split at hcall
          · rename_i howner
            obtain ⟨rfl, rfl⟩ := Prod.mk.inj (Option.some.inj hcall)
            rintro rfl
            exact (blockSelfTarget_self (by simpa using hallowed)).2 howner
          · cases hcall

theorem selfOwned_of_none {rows : Finset Key} (hjob : ph.job = none) (hcall : ph.floorCall = none) :
    ph.SelfOwned rows := by
  constructor
  · intro actor action role h
    rw [hjob] at h
    cases h
  · intro actor key h
    rw [hcall] at h
    cases h

theorem selfOwned_reject {actor : Principal} {action : Action} {reason : ReasonCode} {rows : Finset Key} :
    (Phase.begin (.reject actor action key reason)).SelfOwned rows := by
  constructor
  · intro _ _ _ hjob
    cases hjob
  · intro _ _ hcall
    cases hcall

/-- The statements of a call other than its commit. -/
theorem Moves.selfOwned (h : Moves cfg db i ph db' ph') (hself : ph.SelfOwned db.rows)
    (hcommit : ∀ job, ph ≠ .writing job []) : ph'.SelfOwned db.rows := by
  cases h with
  | known task known =>
    refine resolved_selfOwned fun hactive => mem_activeRolesFor.1 ?_
    rcases Finset.mem_union.1 hactive with hmem | hmem
    · exact hmem
    · exact absurd (Finset.mem_singleton.1 hmem) (by decide)
  | unknown => exact selfOwned_of_none rfl rfl
  | lock => exact selfOwned_of_none rfl rfl
  | check task =>
    unfold bootstrapJob
    refine ⟨fun actor action role hjob => ?_, fun actor key hcall => by cases hcall⟩
    have hnew := Option.some.inj hjob
    split at hnew
    · cases hnew
    · split at hnew <;> cases hnew
  | refuse => exact selfOwned_reject
  | count => exact ⟨fun actor action role hjob => (by cases hjob), hself.2⟩
  | floorLock => exact ⟨fun actor action role hjob => (by cases hjob), hself.2⟩
  | lose => exact selfOwned_reject
  | recount actor key =>
    refine ⟨fun actor' action role hjob => ?_, fun actor key hcall => by cases hcall⟩
    obtain ⟨rfl, -, rfl⟩ := Job.change.inj (Option.some.inj hjob)
    exact absurd rfl (hself.2 actor (actor, role) rfl)
  | commit job => exact absurd rfl (hcommit job)
  | insert => exact ⟨hself.1, fun actor key hcall => by cases hcall⟩
  | snapshot => exact ⟨hself.1, fun actor key hcall => by cases hcall⟩
  | delete => exact ⟨hself.1, fun actor key hcall => by cases hcall⟩
  | record => exact ⟨hself.1, fun actor key hcall => by cases hcall⟩

/-- **One step of changes of one's own roles**, if no revoke overtakes them. -/
theorem selfOwned_step (h : ∀ i, (w.phase i).SelfOwned w.db.rows) (hinv : Inv cfg w) (hstage : Stage cfg w n)
    (hunraced : Unraced w e) (hstep : Authz.step cfg w e = some w') : ∀ i, (w'.phase i).SelfOwned w'.db.rows := by
  intro j
  rcases step_cases hstep with ⟨hnone, hrows, -⟩ | ⟨i, job, rfl, hphase, hcommit, rfl⟩
  · rw [hrows]
    obtain ⟨i, ph, hphase, hcase⟩ := step_moves hstep
    rw [hphase]
    by_cases hj : j = i
    · subst hj
      rw [Function.update_self]
      rcases hcase with ⟨request, -, -, -, rfl⟩ | ⟨-, rfl⟩ | ⟨he, hmoves⟩
      · cases request.task cfg <;> exact selfOwned_of_none rfl rfl
      · exact selfOwned_of_none rfl rfl
      · exact hmoves.selfOwned (h j) (not_commit hnone he)
    · rw [Function.update_of_ne hj]
      exact h j
  · by_cases hj : j = i
    · subst hj
      simp only [Function.update_self]
      cases job with
      | found task => exact resolved_selfOwned fun hactive => absurd (Finset.mem_singleton.1 hactive) (by decide)
      | bootstrapRejected task =>
        exact resolved_selfOwned fun hactive => absurd (Finset.mem_singleton.1 hactive) (by decide)
      | bootstrap task =>
        refine resolved_selfOwned fun _ => ?_
        cases hstage with
        | unowned hempty hearly =>
          have hj := hearly j
          rw [hphase] at hj
          exact (bootstrap_commit hj).2.2
        | owned hrow hno => exact absurd (by rw [hphase]; rfl) (hno j task)
      | change => exact selfOwned_of_none rfl rfl
      | reject => exact selfOwned_of_none rfl rfl
    · simp only [Function.update_of_ne hj]
      refine ⟨fun actor action role hjob => ?_, (h j).2⟩
      obtain ⟨hmem, hnot⟩ := (h j).1 actor action role hjob
      refine ⟨mem_commit_of_mem hmem fun hp => ?_, hnot⟩
      -- the commit would revoke the owner whose change is under way
      obtain ⟨hrevoker, -⟩ := hinv.revoker hphase rfl hp
      exact hunraced _ (by rw [hcommit]; exact List.mem_singleton_self _) actor hrevoker j _ hjob ⟨action, role, rfl⟩

/-! ## Every run -/

/-- **There is always a system owner.** The bootstrap installs one at most once, and only the configured identity; once
there is an owner there is one in every later state; who changes their own roles is a `SYSTEM_OWNER`, and never revokes
that role. -/
structure Governed (cfg : Config) (history : List Event) : Prop where
  bootstrapped_once : ((commits cfg history).filter (·.job.isBootstrap)).length ≤ 1
  configured : ∀ c ∈ commits cfg history, ∀ task, c.job = .bootstrap task → task.actor = cfg.bootstrapOwner
  stays_owned : ∀ past future m w, history = past ++ future → after (step cfg) .start past = some m →
    after (step cfg) .start history = some w → systemOwners m.db.rows ≠ ∅ → systemOwners w.db.rows ≠ ∅
  no_self_change : ∀ c ∈ commits cfg history, c.pending ≠ [] → ∀ actor action role,
    c.job = .change actor action (actor, role) →
      (actor, .systemOwner) ∈ c.rows ∧ ¬ (action = .revoke ∧ role = .systemOwner)

/-- The state of a run, with its bootstraps so far. -/
structure Ruled (cfg : Config) (history : List Event) (w : World) : Prop where
  inv : Inv cfg w
  stage : Stage cfg w ((commits cfg history).filter (·.job.isBootstrap)).length
  floored : Floored w

theorem ruled_start : Ruled cfg [] .start where
  inv := inv_start
  stage := .unowned rfl fun _ => trivial
  floored i job owner hjob := by cases hjob

/-- Every run, raced or not. -/
theorem ruled_after {history : List Event} (hrun : after (step cfg) .start history = some w) : Ruled cfg history w := by
  have hall : Throughout (fun _ _ => True) history := fun _ _ _ _ => trivial
  suffices h : Ruled cfg history w ∧ after (step cfg) .start history = some w from h.1
  refine after_induct (C := fun _ _ => True)
    (I := fun h w => Ruled cfg h w ∧ after (step cfg) .start h = some w) ⟨ruled_start, rfl⟩ ?_ hall hrun
  intro h m e m' ⟨hm, hpast⟩ _ hstep
  refine ⟨⟨hm.inv.step hstep, ?_, hm.floored.step hm.inv hstep⟩, after_snoc.2 ⟨m, hpast, hstep⟩⟩
  unfold commits
  rw [observed_snoc hpast, List.filter_append, List.length_append]
  exact hm.stage.step hm.inv hstep

/-- Every later state has an owner. -/
theorem stays_owned {past future : List Event} {m : World} (hpast : after (step cfg) .start past = some m)
    (hfuture : after (step cfg) m future = some w) (howned : systemOwners m.db.rows ≠ ∅) : systemOwners w.db.rows ≠ ∅ := by
  induction future generalizing past m with
  | nil =>
    obtain rfl := Option.some.inj hfuture
    exact howned
  | cons e future ih =>
    obtain ⟨m', hstep, hrest⟩ := Option.bind_eq_some_iff.1 hfuture
    have hruled := ruled_after hpast
    exact ih (after_snoc.2 ⟨m, hpast, hstep⟩) hrest (hruled.floored.owned hruled.inv hstep howned)

theorem selfOwned_after {history : List Event} (hrun : after (step cfg) .start history = some w)
    (hunraced : Throughout (fun past e => ∀ m, after (step cfg) .start past = some m → Unraced m e) history) :
    ∀ i, (w.phase i).SelfOwned w.db.rows := by
  suffices h : (∀ i, (w.phase i).SelfOwned w.db.rows) ∧ after (step cfg) .start history = some w from h.1
  refine after_induct (I := fun h w => (∀ i, (w.phase i).SelfOwned w.db.rows) ∧ after (step cfg) .start h = some w)
    ⟨fun _ => selfOwned_of_none rfl rfl, rfl⟩ ?_ hunraced hrun
  intro h m e m' ⟨hm, hpast⟩ hC hstep
  have hruled := ruled_after hpast
  exact ⟨selfOwned_step hm hruled.inv hruled.stage (hC m hpast) hstep, after_snoc.2 ⟨m, hpast, hstep⟩⟩

/-- A commit of a run, in the state it meets. -/
theorem mem_commits {history : List Event} {c : Commit} (hrun : after (step cfg) .start history = some w) :
    c ∈ commits cfg history ↔
      ∃ past e future m, history = past ++ e :: future ∧ after (step cfg) .start past = some m ∧ c ∈ committed m e :=
  mem_observed hrun

theorem mem_committed {c : Commit} (h : c ∈ committed w e) :
    ∃ i, e = .step i ∧ w.phase i = .writing c.job [] ∧ c.rows = w.db.rows ∧ c.pending = (w.db.tx i).pending := by
  cases e with
  | step i =>
    cases hphase : w.phase i with
    | writing job todo =>
      cases todo with
      | nil =>
        rw [committed_step hphase] at h
        obtain rfl := List.mem_singleton.1 h
        exact ⟨i, rfl, hphase, rfl, rfl⟩
      | cons s todo =>
        simp only [committed, hphase] at h
        cases h
    | _ =>
      simp only [committed, hphase] at h
      cases h
  | start => cases h
  | abort => cases h

/-- **In every run in which no revoke of a `SYSTEM_OWNER` commits while that principal, past the role check, changes
their own roles, there is always a system owner**, bootstrapped once, and nobody else changes their own roles. -/
theorem governed_when_unraced (history : List Event) (w : World) (hrun : after (step cfg) .start history = some w)
    (hunraced : Throughout (fun past e => ∀ m, after (step cfg) .start past = some m → Unraced m e) history) :
    Governed cfg history where
  bootstrapped_once := by
    have hstage := (ruled_after hrun).stage
    generalize ((commits cfg history).filter (·.job.isBootstrap)).length = count at hstage
    cases hstage <;> omega
  configured c hc task htask := by
    obtain ⟨past, e, future, m, rfl, hpast, hmem⟩ := (mem_commits hrun).1 hc
    obtain ⟨i, -, hphase, -⟩ := mem_committed hmem
    rw [htask] at hphase
    have hstage := (ruled_after hpast).stage
    generalize ((commits cfg past).filter (·.job.isBootstrap)).length = count at hstage
    cases hstage with
    | unowned _ hearly =>
      have hi := hearly i
      rw [hphase] at hi
      exact hi.1
    | owned _ hno => exact absurd (by rw [hphase]; rfl) (hno i task)
  stays_owned past future m w' heq hpast hafter howned := by
    rw [heq, after_append, hpast] at hafter
    exact stays_owned hpast hafter howned
  no_self_change c hc _ actor action role hjob := by
    obtain ⟨past, e, future, m, rfl, hpast, hmem⟩ := (mem_commits hrun).1 hc
    obtain ⟨i, -, hphase, hrows, -⟩ := mem_committed hmem
    have hunraced' : Throughout (fun past e => ∀ m, after (step cfg) .start past = some m → Unraced m e) past :=
      fun p f q heq => hunraced p f (q ++ e :: future) (by rw [heq, List.append_assoc, List.cons_append])
    rw [hrows]
    exact (selfOwned_after hpast hunraced' i).1 actor action role (by rw [hphase, hjob]; rfl)

/-- A run in which no `SYSTEM_OWNER` is revoked is not raced. -/
theorem unraced_of_commits {history : List Event} (hrun : after (step cfg) .start history = some w)
    (hcommits : ∀ c ∈ commits cfg history, c.job.holds ≠ some .systemOwnerFloor) :
    Throughout (fun past e => ∀ m, after (step cfg) .start past = some m → Unraced m e) history := by
  intro past e future heq m hpast c hc owner howner
  exact absurd (RevokesOwner.holds howner) (hcommits c ((mem_commits hrun).2 ⟨past, e, future, m, heq, hpast, hc⟩))

/-! ## A revoke that overtakes -/

def firstOwner : Principal := ⟨"first", "iss"⟩

def secondOwner : Principal := ⟨"second", "iss"⟩

def twoOwners : Config := ⟨firstOwner, "iss"⟩

/-- The first owner is bootstrapped and grants the role to a second one. -/
def installed : List Event :=
  .start 0 (.resolve firstOwner) :: List.replicate 7 (.step 0) ++
  .start 0 (.grantRole firstOwner "second" "SystemOwner") :: List.replicate 4 (.step 0)

/-- The first owner then grants themself a role. -/
def selfGranted : List Event :=
  installed ++ .start 0 (.grantRole firstOwner "first" "PolicyManager") :: List.replicate 4 (.step 0)

theorem governed_selfGranted : Governed twoOwners selfGranted := by
  have hsome : (after (step twoOwners) .start selfGranted).isSome = true := by decide +kernel
  have hrun := (Option.some_get hsome).symm
  refine governed_when_unraced selfGranted _ hrun (unraced_of_commits hrun ?_)
  have hall : (commits twoOwners selfGranted).all (fun c => c.job.holds ≠ some .systemOwnerFloor) = true := by
    decide +kernel
  intro c hc
  exact of_decide_eq_true (List.all_eq_true.1 hall c hc)

/-- The second owner passes the role check of granting themself `SystemOwner`; the first one revokes that role; then the
grant runs. -/
def overtaken : List Event :=
  installed ++ [.start 1 (.grantRole secondOwner "second" "SystemOwner"), .step 1] ++
  .start 0 (.revokeRole firstOwner "second" "SystemOwner") :: List.replicate 8 (.step 0) ++ List.replicate 3 (.step 1)

theorem overtaken_not_governed :
    (after (step twoOwners) .start overtaken).isSome = true ∧ ¬ Governed twoOwners overtaken := by
  refine ⟨by decide +kernel, fun hgoverned => ?_⟩
  have hany : (commits twoOwners overtaken).any (fun c => c.pending ≠ [] ∧
      c.job = .change secondOwner .grant (secondOwner, .systemOwner) ∧ (secondOwner, .systemOwner) ∉ c.rows) = true := by
    decide +kernel
  obtain ⟨c, hc, hcommit⟩ := List.any_eq_true.1 hany
  obtain ⟨hpending, hjob, hrows⟩ := of_decide_eq_true hcommit
  exact hrows (hgoverned.no_self_change c hc hpending _ _ _ hjob).1

end PolicySystem.Authz
