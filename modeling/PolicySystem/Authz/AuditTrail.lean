import PolicySystem.Authz.Ownership

/-!
# The audit trail and the role table

* `folded`: the assignments that the access-role events of a log make, in chain order;
* `Reproduced`: these are the rows of the table, those of `AUTHENTICATED_USER` apart;
* `Commit.Settled`: a transaction that found nothing to change commits while there is still nothing to change;
* `reproduced_iff`: the trail reproduces the table throughout a run if and only if every commit is settled.
-/

namespace PolicySystem.Authz

open Sql Interleaved

/-- What an event makes of the assignments: granted adds one, revoked removes one. An event names its target by subject;
the issuer is the process's own. -/
def RoleEvent.fold (cfg : Config) (rows : Finset Key) : RoleEvent → Finset Key
  | .bootstrap subject => insert (⟨subject, cfg.issuer⟩, .systemOwner) rows
  | .applied .grant _ target role => insert (⟨target, cfg.issuer⟩, role) rows
  | .applied .revoke _ target role => rows.erase (⟨target, cfg.issuer⟩, role)
  | .bootstrapRejected _ => rows
  | .rejected .. => rows

/-- The assignments that the events of a log make. -/
def folded (cfg : Config) (events : List RoleEvent) : Finset Key := events.foldl (RoleEvent.fold cfg) ∅

/-- The committed events in the order of their positions in the chain. -/
def World.chain (w : World) : List RoleEvent := (w.db.log.insertionSort (·.1 ≤ ·.1)).map Prod.snd

/-- The assignments that are granted and revoked: `AUTHENTICATED_USER` is not. -/
def assigned (rows : Finset Key) : Finset Key := rows.filter (·.2 ≠ .authenticatedUser)

/-- The trail reproduces the table. -/
def Reproduced (cfg : Config) (w : World) : Prop := folded cfg w.chain = assigned w.db.rows

instance {cfg : Config} {w : World} : Decidable (Reproduced cfg w) := inferInstanceAs (Decidable (_ = _))

/-- A grant that found its row commits while the row is there, and a revoke that found none while there is none. -/
def Commit.Settled (c : Commit) : Prop :=
  c.pending = [] → ∀ actor action key, c.job = .change actor action key →
    (action = .grant → key ∈ c.rows) ∧ (action = .revoke → key ∉ c.rows)

variable {cfg : Config} {db : RoleDb} {w w' : World} {e : Event} {i : ℕ} {job : Job} {key : Key} {n : ℕ}
  {todo : List Statement} {t : Tx Key RoleEvent} {actor : Principal} {action : Action}

/-! ## The events of a transaction -/

theorem folded_append (events more : List RoleEvent) :
    folded cfg (events ++ more) = more.foldl (RoleEvent.fold cfg) (folded cfg events) := List.foldl_append

/-- The chain is in the order of the commits. -/
theorem chain_eq (h : w.db.Sound) : w.chain = w.db.log.map Prod.snd := by
  unfold World.chain
  rw [List.Pairwise.insertionSort_eq]
  have hsorted : (w.db.log.map Prod.fst).Pairwise (· ≤ ·) := by
    rw [h.positions]
    exact List.pairwise_le_range'
  exact List.pairwise_map.1 hsorted

theorem Progress.events (h : Progress job [] t) : t.appended.map Prod.snd = job.event.toList := by
  obtain ⟨done, hstatements, -, hevents⟩ := h
  rw [List.append_nil] at hstatements
  rw [hevents, ← hstatements]
  cases job with
  | change actor action key => cases action <;> rfl
  | _ => rfl

def Action.change : Action → Change
  | .grant => .insert
  | .revoke => .delete

/-- A grant or revoke changes its row or none. -/
theorem Progress.pending_change (h : Progress (.change actor action key) todo t) :
    t.pending = [] ∨ t.pending = [(key, action.change)] := by
  obtain ⟨done, hstatements, hsub, -⟩ := h
  have hall : (done.filterMap Statement.change).Sublist [(key, action.change)] := by
    have hmap := changes_eq (.change actor action key)
    rw [hstatements, List.filterMap_append] at hmap
    have hone : (Job.change actor action key).edits.filterMap Statement.change = [(key, action.change)] := by
      cases action <;> rfl
    rw [← hone, ← hmap]
    exact List.sublist_append_left _ _
  exact List.sublist_singleton.1 (hsub.trans hall)

/-- The chain after a commit. -/
theorem folded_commit (hinv : Inv cfg w) (hphase : w.phase i = .writing job []) (phase : ℕ → Phase) :
    folded cfg (World.chain ⟨w.db.commit i, phase⟩) = job.event.toList.foldl (RoleEvent.fold cfg) (folded cfg w.chain) := by
  have hfits := hinv.fits i
  rw [hphase] at hfits
  rw [chain_eq hinv.sound.commit, chain_eq hinv.sound]
  simp only [Db.commit_log, List.map_append]
  rw [folded_append, Progress.events hfits]

/-! ## Commits -/

theorem key_eq {target : Principal} {role : AccessRole} (h : target.issuer = cfg.issuer) :
    ((⟨target.subject, cfg.issuer⟩, role) : Key) = (target, role) := by
  rw [← h]

theorem mem_assigned {rows : Finset Key} : key ∈ assigned rows ↔ key ∈ rows ∧ key.2 ≠ .authenticatedUser :=
  Finset.mem_filter

theorem assigned_insert {rows rows' : Finset Key} (hrole : key.2 ≠ .authenticatedUser)
    (h : ∀ k, k ∈ rows' ↔ k ∈ rows ∨ k = key) : assigned rows' = insert key (assigned rows) := by
  ext k
  rw [Finset.mem_insert, mem_assigned, mem_assigned, h]
  constructor
  · rintro ⟨hmem | rfl, hk⟩
    · exact .inr ⟨hmem, hk⟩
    · exact .inl rfl
  · rintro (rfl | ⟨hmem, hk⟩)
    · exact ⟨.inr rfl, hrole⟩
    · exact ⟨.inl hmem, hk⟩

theorem assigned_erase {rows rows' : Finset Key} (h : ∀ k, k ∈ rows' ↔ k ∈ rows ∧ k ≠ key) :
    assigned rows' = (assigned rows).erase key := by
  ext k
  rw [Finset.mem_erase, mem_assigned, mem_assigned, h]
  tauto

/-- **One commit.** Where the trail reproduces the table before a commit, it does so after it if and only if the commit
is settled. -/
theorem reproduced_commit (h : Reproduced cfg w) (hinv : Inv cfg w) (hstage : Stage cfg w n)
    (hissuer : ∀ i task, (w.phase i).call = some task → task.actor.issuer = cfg.issuer)
    (hphase : w.phase i = .writing job []) (phase : ℕ → Phase) :
    Reproduced cfg ⟨w.db.commit i, phase⟩ ↔ Commit.Settled ⟨w.db.rows, job, (w.db.tx i).pending⟩ := by
  have hfits := hinv.fits i
  rw [hphase] at hfits
  have hcall : (w.phase i).call = some job.call := by rw [hphase]; rfl
  unfold Reproduced
  rw [folded_commit hinv hphase, show folded cfg w.chain = assigned w.db.rows from h]
  -- a job without rows to change: its event changes nothing either
  have hquiet : job.edits = [] → (∀ actor action key, job ≠ .change actor action key) →
      (∀ rows, job.event.toList.foldl (RoleEvent.fold cfg) rows = rows) →
      (job.event.toList.foldl (RoleEvent.fold cfg) (assigned w.db.rows) = assigned (w.db.commit i).rows ↔
        Commit.Settled ⟨w.db.rows, job, (w.db.tx i).pending⟩) := by
    intro hedits hnot hfold
    rw [hfold, commit_rows_of_nil (hinv.pending_nil hphase hedits)]
    exact iff_of_true rfl fun _ actor action key heq => absurd heq (hnot actor action key)
  cases job with
  | found task => exact hquiet rfl (fun _ _ _ h => by cases h) fun _ => rfl
  | bootstrapRejected task => exact hquiet rfl (fun _ _ _ h => by cases h) fun _ => rfl
  | reject => exact hquiet rfl (fun _ _ _ h => by cases h) fun _ => rfl
  | bootstrap task =>
    cases hstage with
    | owned hrow hno => exact absurd (by rw [hphase]; rfl) (hno i task)
    | unowned hempty hearly =>
      have hi := hearly i
      rw [hphase] at hi
      obtain ⟨-, hchanges⟩ := hi
      have hpending : (w.db.tx i).pending =
          [((task.actor, .authenticatedUser), .insert), ((task.actor, .systemOwner), .insert)] := by
        rw [changes_eq] at hchanges
        simpa [Job.edits, Statement.change] using hchanges.symm
      refine iff_of_true ?_ fun _ actor action key heq => by cases heq
      change insert (⟨task.actor.subject, cfg.issuer⟩, .systemOwner) (assigned w.db.rows) = _
      rw [key_eq (hissuer i task hcall)]
      ext k
      rw [Finset.mem_insert, mem_assigned, mem_assigned, Db.mem_commit, hempty, hpending]
      obtain ⟨p, role⟩ := k
      cases role <;> simp
  | change actor action key =>
    obtain ⟨hrole, htarget⟩ := hinv.managed i _ hcall action key rfl
    obtain ⟨target, role⟩ := key
    rcases hfits.pending_change with hpending | hpending
    · -- nothing changed: the event says what the row must be
      rw [commit_rows_of_nil hpending]
      cases action with
      | grant =>
        change insert (⟨target.subject, cfg.issuer⟩, role) (assigned w.db.rows) = _ ↔ _
        rw [key_eq htarget, Finset.insert_eq_self, mem_assigned]
        constructor
        · rintro ⟨hmem, -⟩ - actor' action' key' heq
          obtain ⟨rfl, rfl, rfl⟩ := Job.change.inj heq
          exact ⟨fun _ => hmem, fun h => by cases h⟩
        · intro hsettled
          exact ⟨(hsettled hpending _ _ _ rfl).1 rfl, hrole⟩
      | revoke =>
        change (assigned w.db.rows).erase (⟨target.subject, cfg.issuer⟩, role) = _ ↔ _
        rw [key_eq htarget, Finset.erase_eq_self, mem_assigned]
        constructor
        · rintro hnot - actor' action' key' heq
          obtain ⟨rfl, rfl, rfl⟩ := Job.change.inj heq
          exact ⟨fun h => (by cases h), fun _ hmem => hnot ⟨hmem, hrole⟩⟩
        · intro hsettled hmem
          exact (hsettled hpending _ _ _ rfl).2 rfl hmem.1
    · refine iff_of_true ?_ fun hnil => absurd hnil (by rw [hpending]; exact List.cons_ne_nil _ _)
      cases action with
      | grant =>
        change insert (⟨target.subject, cfg.issuer⟩, role) (assigned w.db.rows) = _
        rw [key_eq htarget]
        refine (assigned_insert hrole fun k => ?_).symm
        rw [Db.mem_commit, hpending]
        simp [Action.change]
      | revoke =>
        change (assigned w.db.rows).erase (⟨target.subject, cfg.issuer⟩, role) = _
        rw [key_eq htarget]
        refine (assigned_erase fun k => ?_).symm
        rw [Db.mem_commit, hpending]
        simp [Action.change]

/-! ## Every run -/

/-- The callers of a run have the process's own issuer, as the token verifier demands. -/
def Verified (cfg : Config) (history : List Event) : Prop :=
  ∀ i request, Event.start i request ∈ history → request.caller.issuer = cfg.issuer

theorem Request.task_actor {request : Request} {task : Task} (h : request.task cfg = some task) :
    task.actor = request.caller := by
  cases request with
  | resolve principal =>
    obtain rfl := Option.some.inj h
    rfl
  | grantRole actor targetSubject accessRole =>
    obtain ⟨role, -, rfl⟩ := Option.map_eq_some_iff.1 h
    rfl
  | revokeRole actor targetSubject accessRole =>
    obtain ⟨role, -, rfl⟩ := Option.map_eq_some_iff.1 h
    rfl

/-- The caller of every call under way has the process's own issuer. -/
theorem issuer_after {history : List Event} (hrun : after (step cfg) .start history = some w)
    (hverified : Verified cfg history) : ∀ i task, (w.phase i).call = some task → task.actor.issuer = cfg.issuer := by
  have hall : Throughout (fun _ e => ∀ i request, e = .start i request → request.caller.issuer = cfg.issuer) history := by
    rintro past e future rfl i request rfl
    exact hverified i request (by simp)
  refine after_induct (I := fun _ w => ∀ i task, (w.phase i).call = some task → task.actor.issuer = cfg.issuer)
    (fun i task h => by cases h) ?_ hall hrun
  intro _ m e m' hm hC hstep j task htask
  obtain ⟨i, ph, hphase, hcase⟩ := step_moves hstep
  rw [hphase] at htask
  by_cases hj : j = i
  · subst hj
    rw [Function.update_self] at htask
    rcases hcase with ⟨request, he, -, -, rfl⟩ | ⟨-, rfl⟩ | ⟨-, hmoves⟩
    · rw [Request.task_actor (call_arrive htask)]
      exact hC j request he
    · cases htask
    · exact hm j task (hmoves.call htask)
  · rw [Function.update_of_ne hj] at htask
    exact hm j task htask

/-- One step, whether it commits or not. -/
theorem reproduced_step {past : List Event} (hpast : after (step cfg) .start past = some w) (hverified : Verified cfg past)
    (h : Reproduced cfg w) (hstep : step cfg w e = some w') :
    Reproduced cfg w' ↔ ∀ c ∈ committed w e, c.Settled := by
  have hruled := ruled_after hpast
  rcases step_cases hstep with ⟨hnone, hrows, hlog⟩ | ⟨i, job, -, hphase, hcommit, rfl⟩
  · rw [hnone]
    refine iff_of_true ?_ fun c hc => by cases hc
    unfold Reproduced World.chain
    rw [hlog, hrows]
    exact h
  · rw [hcommit, reproduced_commit h hruled.inv hruled.stage (issuer_after hpast hverified) hphase]
    simp

/-- **The audit trail reproduces the role table** in every state of a run if and only if no grant or revoke that found
nothing to change is overtaken before it commits. -/
theorem reproduced_iff (history : List Event) (w : World) (hrun : after (step cfg) .start history = some w)
    (hverified : Verified cfg history) :
    (∀ past future m, history = past ++ future → after (step cfg) .start past = some m → Reproduced cfg m) ↔
      ∀ c ∈ commits cfg history, c.Settled := by
  constructor
  · intro hall c hc
    obtain ⟨past, e, future, m, rfl, hpast, hmem⟩ := (mem_commits hrun).1 hc
    obtain ⟨m', m'', hpast', hstep, -⟩ := after_split.1 hrun
    rw [hpast] at hpast'
    obtain rfl := Option.some.inj hpast'
    have hnext := hall (past ++ [e]) future m'' (by simp) (after_snoc.2 ⟨m, hpast, hstep⟩)
    have hverified' : Verified cfg past := fun i r hr => hverified i r (List.mem_append_left _ hr)
    exact (reproduced_step hpast hverified' (hall past (e :: future) m rfl hpast) hstep).1 hnext c hmem
  · intro hsettled past
    induction past using List.reverseRecOn with
    | nil =>
      intro future m _ hpast
      obtain rfl := Option.some.inj hpast
      rfl
    | append_singleton past e ih =>
      intro future m' heq hpast'
      obtain ⟨m, hpast, hstep⟩ := after_snoc.1 hpast'
      have hsplit : history = past ++ e :: future := by rw [heq, List.append_assoc, List.singleton_append]
      have hverified' : Verified cfg past := fun i r hr => hverified i r (hsplit ▸ List.mem_append_left _ hr)
      refine (reproduced_step hpast hverified' (ih (e :: future) m hsplit hpast) hstep).2 fun c hc => ?_
      exact hsettled c ((mem_commits hrun).2 ⟨past, e, future, m, hsplit, hpast, hc⟩)

theorem reproduced_iff_installed :
    (∀ past future m, installed = past ++ future → after (step twoOwners) .start past = some m → Reproduced twoOwners m) ↔
      ∀ c ∈ commits twoOwners installed, c.Settled := by
  have hsome : (after (step twoOwners) .start installed).isSome = true := by decide +kernel
  refine reproduced_iff installed _ (Option.some_get hsome).symm fun i request hstart => ?_
  rcases (by simpa [installed] using hstart : (i = 0 ∧ request = _) ∨ i = 0 ∧ request = _) with ⟨-, rfl⟩ | ⟨-, rfl⟩
  all_goals rfl

/-- A role is granted to the second owner. Another grant of it finds the row; the role is revoked; then that grant
commits. -/
def regranted : List Event :=
  installed ++ .start 0 (.grantRole firstOwner "second" "PolicyManager") :: List.replicate 4 (.step 0) ++
  .start 1 (.grantRole firstOwner "second" "PolicyManager") :: List.replicate 2 (.step 1) ++
  .start 0 (.revokeRole firstOwner "second" "PolicyManager") :: List.replicate 5 (.step 0) ++
  List.replicate 2 (.step 1)

/-- The row of `AUTHENTICATED_USER` has no event; a grant that found its row may commit after the row is gone. -/
theorem trail_differs :
    (∃ w, after (step twoOwners) .start installed = some w ∧ folded twoOwners w.chain ≠ w.db.rows) ∧
      ∃ w, after (step twoOwners) .start regranted = some w ∧ ¬ Reproduced twoOwners w := by
  have hinstalled : (after (step twoOwners) .start installed).any
      (fun w => folded twoOwners w.chain ≠ w.db.rows) = true := by decide +kernel
  have hregranted : (after (step twoOwners) .start regranted).any (fun w => ¬ Reproduced twoOwners w) = true := by
    decide +kernel
  obtain ⟨w, hrun, hw⟩ := (Option.any_eq_true _ _).1 hinstalled
  obtain ⟨w', hrun', hw'⟩ := (Option.any_eq_true _ _).1 hregranted
  exact ⟨⟨w, hrun, of_decide_eq_true hw⟩, w', hrun', of_decide_eq_true hw'⟩

end PolicySystem.Authz
