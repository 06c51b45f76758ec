import PolicySystem.Passkey.SingleUse

/-!
# Expiry

`expires_at` is tested on the row a request has read, and `mark_signed` does not test it again.

* `consumed_in_time_when`: where the clock passes no expiry between a request's test of it and the begin of its executor,
  and no executor outlasts the grace, approvals are consumed before their expiry and settled after their executors;
* `consumed_after_expiry`: elsewhere neither holds.
-/

namespace PolicySystem

namespace Passkey

open Interleaved
open Text (Json)

variable {A R : Type}

/-- The instant by which a request that consumes an approval has to leave where it stands: the expiry it has tested, or the
end of the grace its executor has. -/
def Progress.deadline : Progress A R → Option ℕ
  | .admitted (.signVerify _) a => some a.expiresAt
  | .resolved a _ _ => some a.expiresAt
  | .consenting a _ _ => some a.expiresAt
  | .refusing a => some a.expiresAt
  | .consumed a _ _ => some a.expiresAt
  | .counted a => some a.expiresAt
  | .executing _ since => some (since + reconcileGrace)
  | _ => none

/-- The clock passes no request's deadline. -/
def Timely (C : Ceremony A R) (s₀ : State A R) (past : List (Event A R)) (e : Event A R) : Prop :=
  ∀ time, e = .tick time → ∀ m, after (step C) s₀ past = some m →
    ∀ q d, (m.requests q).deadline = some d → time ≤ d

/-- The request may still run the approval's executor, or is running it. -/
def Progress.Underway (a : Approval) : Progress A R → Prop
  | .admitted (.signVerify _) b => b.id = a.id
  | .resolved b _ _ => b.id = a.id
  | .consenting b _ _ => b.id = a.id
  | .consumed b _ _ => b.id = a.id
  | .counted b => b.id = a.id
  | .executing b _ => b.id = a.id
  | _ => False

/-- An approval is turned to signed by a signature no later than its expiry. -/
def Fact.InTime : Fact A → Prop
  | .signed _ a time => time ≤ a.expiresAt
  | .voidedBySigner _ a time => time ≤ a.expiresAt
  | _ => True

/-! ## The invariant -/

/-- What the clock has not passed, of where a request stands. -/
def Progress.Due (now : ℕ) (p : Progress A R) : Prop :=
  (∀ d, p.deadline = some d → now ≤ d) ∧ ∀ a since, p = .executing a since → since ≤ a.expiresAt

/-- What a check has found. -/
def Check.Holds (s : State A R) : Check → Prop
  | .found a => s.Issued a
  | .overdue a => s.Issued a ∧ a.expiresAt + reconcileGrace < s.clock
  | _ => True

structure OnTime (s : State A R) : Prop where
  due : ∀ q, (s.requests q).Due s.clock
  logged : ∀ f ∈ s.log, f.InTime
  checks : ∀ o, (s.checks o).Holds s

section Steps

variable {C : Ceremony A R} {s s' : State A R}

theorem Progress.due_of_none {now : ℕ} {p : Progress A R} (h : p.deadline = none) : p.Due now := by
  refine ⟨by simp [h], ?_⟩
  intro a since hp
  rw [hp] at h
  cases h

theorem Progress.due_of_expiry {now : ℕ} {p : Progress A R} {a : Approval} (h : p.deadline = some a.expiresAt)
    (hnow : now ≤ a.expiresAt) (hp : ∀ b since, p ≠ .executing b since) : p.Due now := by
  constructor
  · intro d hd
    rw [h] at hd
    cases hd
    exact hnow
  · intro b since heq
    exact absurd heq (hp b since)

/-- Checks hold on while approvals stay and the clock does not run back. -/
theorem Check.Holds.mono {c : Check} (h : c.Holds s) (hissued : ∀ a, s.Issued a → s'.Issued a)
    (hclock : s.clock ≤ s'.clock) : c.Holds s' := by
  cases c with
  | found a => exact hissued a h
  | overdue a =>
    obtain ⟨ha, hlate⟩ := h
    exact ⟨hissued a ha, by omega⟩
  | idle => trivial
  | ended => trivial

/-- What a step of a request has to establish. -/
theorem OnTime.of_request (h : OnTime s) {q : ℕ} {p : Progress A R} (facts : List (Fact A))
    (hrequests : s'.requests = Function.update s.requests q p) (hlog : s'.log = s.log ++ facts)
    (hclock : s'.clock = s.clock) (hchecks : s'.checks = s.checks) (hissued : ∀ a, s.Issued a → s'.Issued a)
    (hp : p.Due s.clock) (hfacts : ∀ f ∈ facts, f.InTime) : OnTime s' where
  due := by
    intro q'
    rw [hrequests, hclock]
    by_cases hq : q' = q
    · rw [hq, Function.update_self]
      exact hp
    · rw [Function.update_of_ne hq]
      exact h.due q'
  logged := by
    intro f hf
    rw [hlog] at hf
    rcases List.mem_append.1 hf with hf | hf
    · exact h.logged f hf
    · exact hfacts f hf
  checks := by
    intro o
    rw [hchecks]
    exact (h.checks o).mono hissued (le_of_eq hclock.symm)

/-- A request moves on. -/
theorem OnTime.moveTo (h : OnTime s) {q : ℕ} {p : Progress A R} (hp : p.Due s.clock) : OnTime (s.moveTo q p) :=
  h.of_request [] rfl (List.append_nil _).symm rfl rfl (fun _ ha => ha) hp (by simp)

theorem OnTime.ended (h : OnTime s) (q : ℕ) : OnTime (s.moveTo q .ended) := h.moveTo (Progress.due_of_none rfl)

/-- The approvals, the credentials and the resets change, the requests do not. -/
theorem OnTime.congr (h : OnTime s) (facts : List (Fact A)) (hrequests : s'.requests = s.requests)
    (hlog : s'.log = s.log ++ facts) (hclock : s'.clock = s.clock) (hchecks : s'.checks = s.checks)
    (hissued : ∀ a, s.Issued a → s'.Issued a) (hfacts : ∀ f ∈ facts, f.InTime) : OnTime s' :=
  h.of_request facts (hrequests.trans (Function.update_eq_self 0 _).symm) hlog hclock hchecks hissued (h.due 0) hfacts

theorem OnTime.checkTo (h : OnTime s) {o : ℕ} {c : Check} (hc : c.Holds s) : OnTime (s.checkTo o c) where
  due := h.due
  logged := h.logged
  checks := by
    intro o'
    by_cases ho : o' = o
    · rw [ho]
      simp only [State.checkTo, Function.update_self]
      exact hc.mono (fun _ ha => ha) (Nat.le_refl _)
    · simp only [State.checkTo, Function.update_of_ne ho]
      exact (h.checks o').mono (fun _ ha => ha) (Nat.le_refl _)

/-- **`mark_signed` in time**, where the request's deadline has not passed. -/
theorem OnTime.markSignedStep (h : OnTime s) {q : ℕ} {answered : Bool} {id : String} {fact : Fact A}
    {next : Progress A R} (hstep : Passkey.markSignedStep s q answered id fact next = some s') (hfact : fact.InTime)
    (hnext : next.Due s.clock) : OnTime s' := by
  unfold Passkey.markSignedStep at hstep
  split at hstep
  · split at hstep
    · cases hstep
      refine h.of_request [fact] rfl rfl rfl rfl (fun a ha => (keeps_markSigned id).issued ha) ?_ ?_
      · cases answered
        · exact Progress.due_of_none rfl
        · exact hnext
      · intro f hf
        rw [List.mem_singleton.1 hf]
        exact hfact
    · cases hstep
  · cases hstep
    exact h.ended q

theorem OnTime.admitCall (h : OnTime s) {q : ℕ} {call : Call A R} {row : PendingApprovalRow} :
    OnTime (admitStep C s q call row) := by
  unfold admitStep
  split
  · rename_i hverified
    have hnow : s.clock ≤ row.expiresAt := by
      simp only [verifyCode, requirePendingAndUnexpired, Bool.and_eq_true, decide_eq_true_eq] at hverified
      exact hverified.2.2
    split
    · exact h.ended q
    · exact h.ended q
    · exact h.ended q
    · refine h.moveTo (Progress.due_of_expiry rfl hnow ?_)
      intro b since heq
      cases heq
    · split
      · exact h.moveTo (Progress.due_of_none rfl)
      · exact h.ended q
  · exact h.ended q

theorem OnTime.verify (h : OnTime s) {q : ℕ} {a : Approval} {assertion : A} {credential : SigningCredentialRow}
    (hnow : s.clock ≤ a.expiresAt) : OnTime (verifyStep C s q a assertion credential) := by
  simp only [verifyStep]
  split
  · split
    · split
      · refine h.of_request [.verified q a assertion credential] rfl rfl rfl rfl (fun _ ha => ha) ?_ ?_
        · refine Progress.due_of_expiry rfl hnow ?_
          intro b since heq
          cases heq
        · intro f hf
          rw [List.mem_singleton.1 hf]
          trivial
      · exact h.ended q
    · exact h.ended q
  · split
    · refine h.moveTo (Progress.due_of_expiry rfl hnow ?_)
      intro b since heq
      cases heq
    · exact h.ended q

/-- **A step keeps the invariant**, where the clock passes no deadline. -/
theorem OnTime.step (h : OnTime s) {e : Event A R}
    (htimely : ∀ time, e = .tick time → ∀ q d, (s.requests q).deadline = some d → time ≤ d)
    (hstep : Passkey.step C s e = some s') : OnTime s' := by
  have hexpiry : ∀ {q : ℕ} {p : Progress A R} {a : Approval}, s.requests q = p → p.deadline = some a.expiresAt → s.clock ≤ a.expiresAt := by
    intro q p a hq hp
    exact (h.due q).1 _ (by rw [hq, hp])
  cases e with
  | create a =>
    simp only [Passkey.step] at hstep
    split at hstep
    · cases hstep
      refine h.congr [] rfl (List.append_nil _).symm rfl rfl ?_ (by simp)
      intro a' ha'
      obtain ⟨held, hmem, rfl⟩ := ha'
      exact ⟨held, List.mem_append_left _ hmem, rfl⟩
    · cases hstep
  | tick time =>
    simp only [Passkey.step] at hstep
    split at hstep
    · rename_i hclock
      cases hstep
      refine ⟨?_, h.logged, fun o => (h.checks o).mono (fun _ ha => ha) hclock⟩
      intro q
      exact ⟨htimely time rfl q, (h.due q).2⟩
    · cases hstep
  | arrive q call =>
    simp only [Passkey.step] at hstep
    split at hstep
    · cases hstep
      exact h.moveTo (Progress.due_of_none rfl)
    · cases hstep
  | load q =>
    simp only [Passkey.step] at hstep
    split at hstep
    · rename_i call hq
      cases hstep
      refine h.moveTo ?_
      cases s.getById call.id with
      | none => exact Progress.due_of_none rfl
      | some row => exact Progress.due_of_none rfl
    · cases hstep
  | admitCall q =>
    simp only [Passkey.step] at hstep
    split at hstep
    · cases hstep
      exact h.admitCall
    · cases hstep
  | resolve q =>
    simp only [Passkey.step] at hstep
    split at hstep
    · rename_i assertion a hq
      cases hstep
      refine h.moveTo ?_
      cases (C.rawId assertion).bind s.getByCredentialId with
      | none => exact Progress.due_of_none rfl
      | some credential =>
        refine Progress.due_of_expiry rfl (hexpiry hq rfl) ?_
        intro b since heq
        cases heq
    · cases hstep
  | verify q =>
    simp only [Passkey.step] at hstep
    split at hstep
    · rename_i a assertion credential hq
      cases hstep
      exact h.verify (hexpiry hq rfl)
    · cases hstep
  | markSigned q answered =>
    simp only [Passkey.step] at hstep
    split at hstep
    · rename_i a credential n hq
      have hnow : s.clock ≤ a.expiresAt := hexpiry hq rfl
      refine h.markSignedStep hstep hnow (Progress.due_of_expiry rfl hnow ?_)
      intro b since heq
      cases heq
    · rename_i a hq
      have hnow : s.clock ≤ a.expiresAt := hexpiry hq rfl
      exact h.markSignedStep hstep hnow (Progress.due_of_none rfl)
    · cases hstep
  | updateSignCount q =>
    simp only [Passkey.step] at hstep
    split at hstep
    · rename_i a credential n hq
      split at hstep
      · cases hstep
        have hmoved : OnTime (s.moveTo q (.counted a)) := by
          refine h.moveTo (Progress.due_of_expiry rfl (hexpiry hq rfl) ?_)
          intro b since heq
          cases heq
        exact hmoved.congr [] rfl (List.append_nil _).symm rfl rfl (fun _ ha => ha) (by simp)
      · cases hstep
    · cases hstep
  | execute q =>
    simp only [Passkey.step] at hstep
    split at hstep
    · rename_i a hq
      cases hstep
      refine h.of_request [.ran q a] rfl rfl rfl rfl (fun _ ha => ha) ⟨?_, ?_⟩ ?_
      · intro d hd
        cases hd
        exact Nat.le_add_right _ _
      · intro b since heq
        cases heq
        exact hexpiry hq rfl
      · intro f hf
        rw [List.mem_singleton.1 hf]
        trivial
    · cases hstep
  | finish q outcome =>
    simp only [Passkey.step] at hstep
    split at hstep
    · cases hstep
      exact h.moveTo (Progress.due_of_none rfl)
    · cases hstep
  | setOutcome q =>
    have hset : ∀ id outcome, OnTime ((s.change (Passkey.setOutcome id outcome)).moveTo q .ended) := by
      intro id outcome
      exact h.of_request [] rfl (List.append_nil _).symm rfl rfl (fun a ha => (keeps_setOutcome id outcome).issued ha)
        (Progress.due_of_none rfl) (by simp)
    simp only [Passkey.step] at hstep
    split at hstep
    · cases hstep
      exact hset _ _
    · cases hstep
      exact hset _ _
    · cases hstep
  | insertCredential q =>
    have hinsert : ∀ credentials, OnTime ((s.withCredentials credentials).moveTo q .ended) := by
      intro credentials
      exact h.of_request [] rfl (List.append_nil _).symm rfl rfl (fun _ ha => ha) (Progress.due_of_none rfl) (by simp)
    simp only [Passkey.step] at hstep
    split at hstep
    · simp only [insertStep] at hstep
      split at hstep
      · split at hstep
        · cases hstep
          exact h.ended q
        · cases hstep
      · cases hstep
        exact hinsert _
    · cases hstep
  | die q =>
    cases hstep
    exact h.ended q
  | voidPending x actor =>
    simp only [Passkey.step] at hstep
    split at hstep
    · split at hstep
      · cases hstep
        exact h.congr [] rfl (List.append_nil _).symm rfl rfl (fun a ha => (keeps_voidPending x actor).issued ha) (by simp)
      · cases hstep
    · cases hstep
  | deleteCredentials x =>
    simp only [Passkey.step] at hstep
    split at hstep
    · split at hstep
      · cases hstep
        exact h.congr [] rfl (List.append_nil _).symm rfl rfl (fun _ ha => ha) (by simp)
      · cases hstep
    · cases hstep
  | commit x =>
    simp only [Passkey.step] at hstep
    split at hstep
    · cases hstep
      refine h.congr _ rfl rfl rfl rfl (fun a ha => (keeps_commitVoid x).issued ha) ?_
      intro f hf
      obtain ⟨held, -, rfl⟩ := List.mem_map.1 hf
      trivial
    · cases hstep
  | rollback x =>
    simp only [Passkey.step] at hstep
    split at hstep
    · cases hstep
    · cases hstep
      exact h.congr [] rfl (List.append_nil _).symm rfl rfl (fun a ha => (keeps_release x).issued ha) (by simp)
  | look o id =>
    simp only [Passkey.step] at hstep
    split at hstep
    · rename_i row _ hrow
      split at hstep
      · cases hstep
        exact h.checkTo (getById_some hrow)
      · cases hstep
    · cases hstep
  | judge o =>
    simp only [Passkey.step] at hstep
    split at hstep
    · rename_i a ho
      cases hstep
      have hfound := h.checks o
      rw [ho] at hfound
      refine h.checkTo ?_
      split
      · rename_i hlate
        exact ⟨hfound, hlate⟩
      · trivial
    · cases hstep
  | settle o outcome =>
    simp only [Passkey.step] at hstep
    split at hstep
    · rename_i a ho
      cases hstep
      have hset : OnTime (s.change (Passkey.setOutcome a.id outcome)) :=
        h.congr [] rfl (List.append_nil _).symm rfl rfl (fun b hb => (keeps_setOutcome a.id outcome).issued hb) (by simp)
      exact hset.checkTo trivial
    · cases hstep

/-- Two rows of one id are one. -/
theorem Sound.issued_unique (h : Sound C s) {a b : Approval} (ha : s.Issued a) (hb : s.Issued b) (hid : a.id = b.id) :
    a = b := by
  obtain ⟨held, hmem, rfl⟩ := ha
  obtain ⟨held', hmem', rfl⟩ := hb
  rw [h.ledger.row_unique hmem hmem' hid]

/-- A request that is under way on an approval has its grace before it. -/
theorem OnTime.underway (h : OnTime s) (hsound : Sound C s) {q : ℕ} {a : Approval} (ha : s.Issued a)
    (hunder : (s.requests q).Underway a) : s.clock ≤ a.expiresAt + reconcileGrace := by
  have hdue := h.due q
  have hissued := hsound.issued q
  -- wherever the request stands, its approval is this one, and its deadline is at most the end of the grace
  have hexpiry : ∀ b : Approval, (s.requests q).approval? = some b → b.id = a.id →
      (s.requests q).deadline = some b.expiresAt → s.clock ≤ a.expiresAt + reconcileGrace := by
    intro b hb hid hd
    have hsame := hsound.issued_unique (hissued b hb) ha hid
    have hnow := hdue.1 _ hd
    rw [hsame] at hnow
    omega
  cases hq : s.requests q with
  | admitted ask b =>
    rw [hq] at hunder hexpiry
    cases ask with
    | signVerify assertion => exact hexpiry b rfl hunder rfl
    | summary => exact hunder.elim
    | enrollOptions => exact hunder.elim
    | enrollVerify response => exact hunder.elim
    | signOptions => exact hunder.elim
  | resolved b assertion credential =>
    rw [hq] at hunder hexpiry
    exact hexpiry b rfl hunder rfl
  | consenting b credential n =>
    rw [hq] at hunder hexpiry
    exact hexpiry b rfl hunder rfl
  | consumed b credential n =>
    rw [hq] at hunder hexpiry
    exact hexpiry b rfl hunder rfl
  | counted b =>
    rw [hq] at hunder hexpiry
    exact hexpiry b rfl hunder rfl
  | executing b since =>
    rw [hq] at hunder
    have hsame := hsound.issued_unique (hissued b (by rw [hq]; rfl)) ha hunder
    have hbegan := hdue.2 b since hq
    have hnow := hdue.1 (since + reconcileGrace) (by rw [hq]; rfl)
    rw [hsame] at hbegan
    omega
  | idle => rw [hq] at hunder; exact hunder.elim
  | arrived call => rw [hq] at hunder; exact hunder.elim
  | loaded call row => rw [hq] at hunder; exact hunder.elim
  | executed b outcome => rw [hq] at hunder; exact hunder.elim
  | refusing b => rw [hq] at hunder; exact hunder.elim
  | refused b => rw [hq] at hunder; exact hunder.elim
  | enrolling b credential => rw [hq] at hunder; exact hunder.elim
  | ended => rw [hq] at hunder; exact hunder.elim

end Steps

theorem Fresh.onTime {s : State A R} (h : Fresh s) : OnTime s where
  due := by
    intro q
    rw [h.requests q]
    exact Progress.due_of_none rfl
  logged := by
    rw [h.log]
    simp
  checks := by
    intro o
    rw [h.checks o]
    trivial

/-- **Consumed in time, settled late.** Where the clock passes no deadline of a request, no approval is turned to signed by
a signature after its expiry, and past the grace no request is under way on it: none when a check finds it overdue. -/
theorem consumed_in_time_when (C : Ceremony A R) {s₀ s : State A R} {history : List (Event A R)} (h₀ : Fresh s₀)
    (htimely : Throughout (Timely C s₀) history) (hrun : after (step C) s₀ history = some s) :
    (∀ f ∈ s.log, f.InTime) ∧
      (∀ a, s.Issued a → a.expiresAt + reconcileGrace < s.clock → ∀ q, ¬(s.requests q).Underway a) ∧
      ∀ o a, s.checks o = .overdue a → ∀ q, ¬(s.requests q).Underway a := by
  have hsound : Sound C s := Sound.run h₀ hrun
  have hboth : after (step C) s₀ history = some s ∧ OnTime s := by
    refine after_induct (I := fun past m => after (step C) s₀ past = some m ∧ OnTime m) ⟨rfl, h₀.onTime⟩ ?_ htimely hrun
    intro past m e m' ⟨hpast, hm⟩ hC hstep
    exact ⟨after_snoc.2 ⟨m, hpast, hstep⟩, hm.step (fun time he => hC time he m hpast) hstep⟩
  have h := hboth.2
  have hlate : ∀ a, s.Issued a → a.expiresAt + reconcileGrace < s.clock → ∀ q, ¬(s.requests q).Underway a := by
    intro a ha hpast q hunder
    have := h.underway hsound ha hunder
    omega
  refine ⟨h.logged, hlate, ?_⟩
  intro o a ho
  have hfound := h.checks o
  rw [ho] at hfound
  exact hlate a hfound.1 hfound.2

/-- The clock runs, and then the approver signs and the action runs. -/
def promptHistory : List (Event (Bytes × Bytes) Unit) :=
  [.create mergeApproval] ++ [.tick 5] ++
    [.arrive 0 ⟨"a1", [1], .signVerify signedAssertion⟩, .load 0, .admitCall 0, .resolve 0, .verify 0,
      .markSigned 0 true,
      .updateSignCount 0, .execute 0]

theorem timely_promptHistory : Throughout (Timely plainCeremony enrolledState) promptHistory := by
  have hnil : Throughout (Timely plainCeremony enrolledState) [] := by
    intro past e future heq
    simp at heq
  have hcreate : Timely plainCeremony enrolledState [] (.create mergeApproval) := by
    intro time heq
    cases heq
  have htick : Timely plainCeremony enrolledState [.create mergeApproval] (.tick 5) := by
    intro time heq m hm q d hd
    -- no request has arrived
    rw [after_cons] at hm
    obtain ⟨m', hm', hlast⟩ := Option.bind_eq_some_iff.1 hm
    cases hlast
    simp only [step] at hm'
    split at hm'
    · cases hm'
      cases hd
    · cases hm'
  refine Throughout.append ((hnil.snoc hcreate).snoc htick) ?_
  intro past e he time heq
  rw [heq] at he
  simp at he

/-- A run in which the clock runs before the request comes. -/
theorem consumed_in_time_when_prompt : ∃ s, after (step plainCeremony) enrolledState promptHistory = some s ∧
    (∀ f ∈ s.log, f.InTime) ∧
      (∀ a, s.Issued a → a.expiresAt + reconcileGrace < s.clock → ∀ q, ¬(s.requests q).Underway a) ∧
      ∀ o a, s.checks o = .overdue a → ∀ q, ¬(s.requests q).Underway a := by
  have hsome : (after (step plainCeremony) enrolledState promptHistory).isSome := by
    obtain ⟨haccepts, hraw, hcode, hexecutor, -, hactor, hid, hcreated, hlife⟩ := plainCeremony_accepts
    simp [promptHistory, enrolledState, step, admitStep, verifyStep, markSignedStep, State.moveTo, State.getById,
      verifyCode, requirePendingAndUnexpired, State.getByCredentialId, State.change, State.note, State.withCredentials,
      pendingWith, markSigned, approvalLifetime, hraw, hcode, hlife, hcreated, hid, hactor, hexecutor, haccepts]
  obtain ⟨s, hrun⟩ := Option.isSome_iff_exists.1 hsome
  exact ⟨s, hrun, consumed_in_time_when plainCeremony fresh_enrolledState timely_promptHistory hrun⟩

/-- The clock passes the expiry and the grace between a request's test of the expiry and its `mark_signed`. -/
def lateHistory : List (Event (Bytes × Bytes) Unit) :=
  [.create mergeApproval, .arrive 0 ⟨"a1", [1], .signVerify signedAssertion⟩, .load 0, .admitCall 0,
    .tick (approvalLifetime + reconcileGrace), .resolve 0, .verify 0, .markSigned 0 true, .updateSignCount 0,
    .tick (approvalLifetime + reconcileGrace + 1), .execute 0, .look 0 "a1", .judge 0]

/-- **Consumed after its expiry**, and overdue while its executor, within the grace, runs. -/
theorem consumed_after_expiry : Fresh enrolledState ∧
    ∃ s, after (step plainCeremony) enrolledState lateHistory = some s ∧
      (∃ q a time, .signed q a time ∈ s.log ∧ a.expiresAt < time) ∧
      ∃ o q a since, s.checks o = .overdue a ∧ s.requests q = .executing a since ∧
        s.clock ≤ since + reconcileGrace := by
  have hview : (after (step plainCeremony) enrolledState lateHistory).map
      (fun s => (s.log, s.checks 0, s.requests 0, s.clock)) =
      some ([.verified 0 mergeApproval signedAssertion ⟨"ana", "idp", [7], [7], 0⟩,
        .signed 0 mergeApproval (approvalLifetime + reconcileGrace), .ran 0 mergeApproval], .overdue mergeApproval,
        .executing mergeApproval (approvalLifetime + reconcileGrace + 1), approvalLifetime + reconcileGrace + 1) := by
    obtain ⟨haccepts, hraw, hcode, hexecutor, hreconciles, hactor, hid, hcreated, hlife⟩ := plainCeremony_accepts
    simp [lateHistory, enrolledState, step, admitStep, verifyStep, markSignedStep, State.moveTo, State.getById,
      verifyCode, requirePendingAndUnexpired, State.getByCredentialId, State.change, State.note, State.withCredentials,
      State.checkTo, pendingWith, markSigned, hraw, hcode, hlife, hcreated, hid, hactor, hexecutor, hreconciles, haccepts]
  obtain ⟨s, hrun, hs⟩ := Option.map_eq_some_iff.1 hview
  simp only [Prod.mk.injEq] at hs
  obtain ⟨hlog, hcheck, hrequest, hclock⟩ := hs
  refine ⟨fresh_enrolledState, s, hrun, ⟨0, mergeApproval, approvalLifetime + reconcileGrace, ?_, ?_⟩, 0, 0, mergeApproval,
    approvalLifetime + reconcileGrace + 1, hcheck, hrequest, ?_⟩
  · simp [hlog]
  · show approvalLifetime < approvalLifetime + reconcileGrace
    simp [reconcileGrace]
  · omega

end Passkey

end PolicySystem
