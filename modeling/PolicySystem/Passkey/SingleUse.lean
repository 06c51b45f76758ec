import PolicySystem.Faults.SingleUse
import PolicySystem.Passkey.Signing

/-!
# An approval is used once

* `Sound.step`: every step keeps the ledger of the approvals, and each request can show what it needs to go on;
* `approval_single_use`: in every run an approval's executor runs at most once, after an assertion of a credential of
  the approval's own actor verified against the challenge of that very row, and never after the approval was voided.
-/

namespace PolicySystem

namespace Passkey

open Interleaved SingleUse
open Text (Json)

variable {A R : Type}

/-! ## What has happened to an approval -/

def Fact.approval : Fact A → Approval
  | .verified _ a _ _ => a
  | .signed _ a _ => a
  | .voidedBySigner _ a _ => a
  | .voidedByReset _ a => a
  | .ran _ a => a

/-- The approval a fact voids. -/
def Fact.voids : Fact A → Option String
  | .voidedBySigner _ a _ => some a.id
  | .voidedByReset _ a => some a.id
  | _ => none

/-- The approval a fact turns from pending to signed. -/
def Fact.spends : Fact A → Option String
  | .signed _ a _ => some a.id
  | .voidedBySigner _ a _ => some a.id
  | .voidedByReset _ a => some a.id
  | _ => none

theorem Fact.spends_of_voids {f : Fact A} {id : String} (h : f.voids = some id) : f.spends = some id := by
  cases f <;> simp_all [Fact.voids, Fact.spends]

/-- The approval was inserted. -/
def State.Issued (s : State A R) (a : Approval) : Prop := ∃ held ∈ s.approvals, held.row.toApproval = a

/-- The approval a request has read. -/
def Progress.approval? : Progress A R → Option Approval
  | .idle | .arrived _ | .ended => none
  | .loaded _ row => some row.toApproval
  | .admitted _ a => some a
  | .resolved a _ _ => some a
  | .consenting a _ _ => some a
  | .consumed a _ _ => some a
  | .counted a => some a
  | .executing a _ => some a
  | .executed a _ => some a
  | .refusing a => some a
  | .refused a => some a
  | .enrolling a _ => some a

/-- Request `q` has an assertion verified for the approval. -/
def Attested (log : List (Fact A)) (q : ℕ) (a : Approval) : Prop :=
  ∃ assertion credential, Fact.verified q a assertion credential ∈ log

/-- Request `q` has turned the approval to signed. -/
def Signed (log : List (Fact A)) (q : ℕ) (a : Approval) : Prop := ∃ time, Fact.signed q a time ∈ log

/-- Request `q` has run no executor. -/
def NotRan (log : List (Fact A)) (q : ℕ) : Prop := ∀ a, Fact.ran q a ∉ log

/-- What a request can show for where it stands. -/
def Progress.Justified (log : List (Fact A)) (q : ℕ) : Progress A R → Prop
  | .consenting a _ _ => Attested log q a ∧ NotRan log q
  | .consumed a _ _ => Attested log q a ∧ Signed log q a ∧ NotRan log q
  | .counted a => Attested log q a ∧ Signed log q a ∧ NotRan log q
  | .executing _ _ | .executed _ _ | .refused _ | .ended => True
  | _ => NotRan log q

/-- The credential is the approval's actor's, and its assertion verifies against the challenge of the approval. -/
def Verifies (C : Ceremony A R) (a : Approval) (assertion : A) (credential : SigningCredentialRow) : Prop :=
  credential.actor = a.actor ∧
    (C.verifyAuthentication assertion (computeSignChallenge C a) credential.publicKey credential.signCount).isSome

/-- What a fact requires of the facts before it. -/
def Lawful (C : Ceremony A R) (past : List (Fact A)) : Fact A → Prop
  | .verified _ a assertion credential => Verifies C a assertion credential
  | .ran q a => Attested past q a ∧ Signed past q a ∧ NotRan past q
  | _ => True

/-! ## The invariant -/

/-- The approvals as rows that are used once. -/
abbrev ApprovalLedger (approvals : List (Held PendingApprovalRow)) (log : List (Fact A)) : Prop :=
  Ledger (fun held : Held PendingApprovalRow => held.row.id) (fun held => held.row.status = .pending) Fact.spends
    approvals log

structure Sound (C : Ceremony A R) (s : State A R) : Prop where
  ledger : ApprovalLedger s.approvals s.log
  /-- A reset holds pending approvals only. -/
  held : ∀ held ∈ s.approvals, held.heldBy ≠ none → held.row.status = .pending
  issued : ∀ q a, (s.requests q).approval? = some a → s.Issued a
  logged : ∀ f ∈ s.log, s.Issued f.approval
  justified : ∀ q, (s.requests q).Justified s.log q
  lawful : Throughout (Lawful C) s.log

theorem Progress.Justified.append {log facts : List (Fact A)} {q : ℕ} {p : Progress A R} (h : p.Justified log q)
    (hfacts : ∀ f ∈ facts, ∀ a, f ≠ .ran q a) : p.Justified (log ++ facts) q := by
  have hran : NotRan log q → NotRan (log ++ facts) q := by
    intro hn a ha
    rcases List.mem_append.1 ha with ha | ha
    · exact hn a ha
    · exact hfacts _ ha a rfl
  have hattested : ∀ a, Attested log q a → Attested (log ++ facts) q a := by
    intro a ⟨assertion, credential, hv⟩
    exact ⟨assertion, credential, List.mem_append_left _ hv⟩
  have hsigned : ∀ a, Signed log q a → Signed (log ++ facts) q a := by
    intro a ⟨time, hs⟩
    exact ⟨time, List.mem_append_left _ hs⟩
  cases p with
  | consenting a credential n => exact ⟨hattested a h.1, hran h.2⟩
  | consumed a credential n => exact ⟨hattested a h.1, hsigned a h.2.1, hran h.2.2⟩
  | counted a => exact ⟨hattested a h.1, hsigned a h.2.1, hran h.2.2⟩
  | executing a since => trivial
  | executed a outcome => trivial
  | refused a => trivial
  | ended => trivial
  | idle => exact hran h
  | arrived call => exact hran h
  | loaded call row => exact hran h
  | admitted ask a => exact hran h
  | resolved a assertion credential => exact hran h
  | refusing a => exact hran h
  | enrolling a credential => exact hran h

/-- What a step has to establish: request `q` alone moves, and facts are logged. -/
theorem Sound.of_step {C : Ceremony A R} {s s' : State A R} (h : Sound C s) {q : ℕ} {p : Progress A R}
    (facts : List (Fact A)) (hrequests : s'.requests = Function.update s.requests q p) (hlog : s'.log = s.log ++ facts)
    (hissued : ∀ a, s.Issued a → s'.Issued a) (hledger : ApprovalLedger s'.approvals s'.log)
    (hheld : ∀ held ∈ s'.approvals, held.heldBy ≠ none → held.row.status = .pending)
    (hp : p.Justified s'.log q) (hap : ∀ a, p.approval? = some a → s.Issued a)
    (hfacts : ∀ f ∈ facts, s.Issued f.approval ∧ ∀ q' a, f = .ran q' a → q' = q)
    (hlawful : Throughout (Lawful C) s'.log) : Sound C s' where
  ledger := hledger
  held := hheld
  issued := by
    intro q' a ha
    rw [hrequests] at ha
    by_cases hq : q' = q
    · rw [hq, Function.update_self] at ha
      exact hissued a (hap a ha)
    · rw [Function.update_of_ne hq] at ha
      exact hissued a (h.issued q' a ha)
  logged := by
    intro f hf
    rw [hlog] at hf
    rcases List.mem_append.1 hf with hf | hf
    · exact hissued _ (h.logged f hf)
    · exact hissued _ (hfacts f hf).1
  justified := by
    intro q'
    rw [hrequests]
    by_cases hq : q' = q
    · rw [hq, Function.update_self]
      exact hp
    · rw [Function.update_of_ne hq, hlog]
      refine (h.justified q').append ?_
      intro f hf a heq
      exact hq ((hfacts f hf).2 q' a heq)
  lawful := hlawful

/-- A request moves on and nothing is logged. -/
theorem Sound.moveTo {C : Ceremony A R} {s : State A R} (h : Sound C s) {q : ℕ} {p : Progress A R}
    (hp : p.Justified s.log q) (hap : ∀ a, p.approval? = some a → s.Issued a) : Sound C (s.moveTo q p) :=
  h.of_step [] rfl (List.append_nil _).symm (fun _ ha => ha) h.ledger h.held hp hap (by simp) h.lawful

theorem Sound.ended {C : Ceremony A R} {s : State A R} (h : Sound C s) (q : ℕ) : Sound C (s.moveTo q .ended) :=
  h.moveTo trivial (by simp [Progress.approval?])

/-- The credentials, the resets, the checks and the clock do not matter. -/
theorem Sound.congr {C : Ceremony A R} {s s' : State A R} (h : Sound C s) (happrovals : s'.approvals = s.approvals)
    (hrequests : s'.requests = s.requests) (hlog : s'.log = s.log) : Sound C s' := by
  obtain ⟨approvals, credentials, requests, resets, checks, clock, log⟩ := s
  obtain ⟨approvals', credentials', requests', resets', checks', clock', log'⟩ := s'
  simp only at happrovals hrequests hlog
  subst happrovals hrequests hlog
  exact ⟨h.ledger, h.held, h.issued, h.logged, h.justified, h.lawful⟩

/-! ## Steps -/

section Steps

variable {C : Ceremony A R} {s : State A R}

/-- An update of the approvals that keeps what their inserts fixed and makes none of them pending. -/
structure Keeps (g : Held PendingApprovalRow → Held PendingApprovalRow) : Prop where
  approval : ∀ held, (g held).row.toApproval = held.row.toApproval
  pending : ∀ held, (g held).row.status = .pending → held.row.status = .pending

theorem Keeps.id {g : Held PendingApprovalRow → Held PendingApprovalRow} (h : Keeps g) (held : Held PendingApprovalRow) :
    (g held).row.id = held.row.id :=
  congrArg Approval.id (h.approval held)

theorem keeps_markSigned (id : String) : Keeps (markSigned id) := by
  constructor
  · intro held
    unfold markSigned
    split <;> rfl
  · intro held
    unfold markSigned
    split
    · intro h
      cases h
    · intro h
      exact h

theorem keeps_setOutcome (id : String) (outcome : Json Double) : Keeps (setOutcome id outcome) := by
  constructor <;> intro held <;> unfold setOutcome
  · split <;> rfl
  · split <;> intro h <;> exact h

theorem keeps_voidPending (x : ℕ) (actor : String × String) : Keeps (voidPending x actor) := by
  constructor <;> intro held <;> unfold voidPending
  · split <;> rfl
  · split <;> intro h <;> exact h

theorem keeps_release (x : ℕ) : Keeps (release x) := by
  constructor <;> intro held <;> unfold release
  · split <;> rfl
  · split <;> intro h <;> exact h

theorem keeps_commitVoid (x : ℕ) : Keeps (commitVoid x) := by
  constructor
  · intro held
    unfold commitVoid
    split <;> rfl
  · intro held
    unfold commitVoid
    split
    · intro h
      cases h
    · intro h
      exact h

theorem Keeps.issued {g : Held PendingApprovalRow → Held PendingApprovalRow} (hg : Keeps g) {a : Approval}
    (h : s.Issued a) : (s.change g).Issued a := by
  obtain ⟨held, hmem, rfl⟩ := h
  exact ⟨g held, List.mem_map_of_mem hmem, hg.approval held⟩

/-- An update of the approvals alone. -/
theorem Sound.change (h : Sound C s) {g : Held PendingApprovalRow → Held PendingApprovalRow} (hg : Keeps g)
    (hheld : ∀ held ∈ s.approvals, (g held).heldBy ≠ none → (g held).row.status = .pending) : Sound C (s.change g) := by
  have hsame : (s.change g).requests = Function.update s.requests 0 (s.requests 0) := (Function.update_eq_self _ _).symm
  refine h.of_step [] hsame (List.append_nil _).symm (fun a ha => hg.issued ha)
    (h.ledger.update hg.id hg.pending) ?_ (h.justified 0) (h.issued 0) (by simp) h.lawful
  intro held hmem
  obtain ⟨held₀, hmem₀, rfl⟩ := List.mem_map.1 hmem
  exact hheld held₀ hmem₀

theorem Sound.setOutcome (h : Sound C s) (id : String) (outcome : Json Double) :
    Sound C (s.change (Passkey.setOutcome id outcome)) := by
  refine h.change (keeps_setOutcome id outcome) ?_
  intro held hmem
  unfold Passkey.setOutcome
  split <;> intro hne <;> exact h.held held hmem hne

theorem Sound.voidPending (h : Sound C s) (x : ℕ) (actor : String × String) :
    Sound C (s.change (Passkey.voidPending x actor)) := by
  refine h.change (keeps_voidPending x actor) ?_
  intro held hmem
  unfold Passkey.voidPending
  split
  · rename_i hpending
    intro _
    exact hpending.2
  · exact h.held held hmem

theorem Sound.release (h : Sound C s) (x : ℕ) : Sound C (s.change (Passkey.release x)) := by
  refine h.change (keeps_release x) ?_
  intro held hmem
  unfold Passkey.release
  split
  · intro hne
    exact absurd rfl hne
  · exact h.held held hmem

theorem pendingWith_some {id : String} {held : Held PendingApprovalRow} (h : pendingWith s id = some held) :
    held ∈ s.approvals ∧ held.row.id = id ∧ held.row.status = .pending := by
  have hprop := List.find?_some h
  simp only [Bool.and_eq_true, decide_eq_true_eq] at hprop
  exact ⟨List.mem_of_find?_eq_some h, hprop⟩

/-- **`mark_signed`.** Where it wins, the approval is spent by this request. -/
theorem Sound.markSignedStep (h : Sound C s) {q : ℕ} {answered : Bool} {a : Approval} {fact : Fact A}
    {next : Progress A R} {s' : State A R} (hstep : Passkey.markSignedStep s q answered a.id fact next = some s')
    (hissued : s.Issued a) (happroval : fact.approval = a) (hspends : fact.spends = some a.id)
    (hran : ∀ q' a', fact ≠ .ran q' a') (hlawful : Lawful C s.log fact) (hnext : next.Justified (s.log ++ [fact]) q)
    (hnexta : next.approval? = some a) : Sound C s' := by
  unfold Passkey.markSignedStep at hstep
  split at hstep
  · rename_i held hfind
    obtain ⟨hmem, hid, hpending⟩ := pendingWith_some hfind
    split at hstep
    · rename_i hfree
      cases hstep
      have hg := keeps_markSigned a.id
      have hclosed : ¬(Passkey.markSigned a.id held).row.status = .pending := by
        unfold Passkey.markSigned
        rw [if_pos ⟨hid, hpending⟩]
        simp
      refine h.of_step [fact] rfl rfl (fun a ha => hg.issued ha)
        (h.ledger.spend hg.id hg.pending hmem hpending (by rw [hspends, hid]) hclosed) ?_ ?_ ?_ ?_ (h.lawful.snoc hlawful)
      · intro held' hmem' hne
        obtain ⟨held₀, hmem₀, rfl⟩ := List.mem_map.1 hmem'
        -- the row flipped is the one found, which no reset holds
        unfold Passkey.markSigned at hne ⊢
        split at hne
        · rename_i hflip
          have hsame : held₀ = held := h.ledger.row_unique hmem₀ hmem (hflip.1.trans hid.symm)
          exact absurd (hsame ▸ hfree) hne
        · rename_i hkeep
          rw [if_neg hkeep]
          exact h.held held₀ hmem₀ hne
      · cases answered
        · exact trivial
        · exact hnext
      · cases answered
        · intro a' ha'
          cases ha'
        · intro a' ha'
          rw [if_pos rfl, hnexta] at ha'
          cases ha'
          exact hissued
      · intro f hf
        rw [List.mem_singleton.1 hf, happroval]
        exact ⟨hissued, fun q' a' heq => absurd heq (hran q' a')⟩
    · cases hstep
  · cases hstep
    exact h.ended q

/-- **The commit of a reset** spends what it held. -/
theorem Sound.commit (h : Sound C s) (x : ℕ) :
    Sound C ((s.change (commitVoid x)).note
      ((s.approvals.filter fun held => held.heldBy = some x).map fun held => .voidedByReset x held.row.toApproval)) := by
  have hg := keeps_commitVoid x
  have hsame : s.requests = Function.update s.requests 0 (s.requests 0) := (Function.update_eq_self _ _).symm
  have hfacts : ∀ f ∈ (s.approvals.filter fun held => held.heldBy = some x).map
      fun held => Fact.voidedByReset (A := A) x held.row.toApproval,
      ∃ held ∈ s.approvals, held.heldBy = some x ∧ f = .voidedByReset x held.row.toApproval := by
    intro f hf
    obtain ⟨held, hmem, rfl⟩ := List.mem_map.1 hf
    obtain ⟨hmem, hheld⟩ := List.mem_filter.1 hmem
    exact ⟨held, hmem, by simpa using hheld, rfl⟩
  have hledger := h.ledger.spendAll ((s.approvals.filter fun held => held.heldBy = some x).map
    fun held => .voidedByReset x held.row.toApproval) hg.id hg.pending ?_ ?_
  · refine h.of_step _ hsame rfl (fun a ha => hg.issued ha) hledger ?_ ?_ (h.issued 0) ?_ ?_
    · intro held hmem hne
      obtain ⟨held₀, hmem₀, rfl⟩ := List.mem_map.1 hmem
      unfold commitVoid at hne ⊢
      split at hne
      · exact absurd rfl hne
      · rename_i hother
        rw [if_neg hother]
        exact h.held held₀ hmem₀ hne
    · refine (h.justified 0).append ?_
      intro f hf a heq
      obtain ⟨held, -, -, hvoid⟩ := hfacts f hf
      rw [hvoid] at heq
      cases heq
    · intro f hf
      obtain ⟨held, hmem, -, rfl⟩ := hfacts f hf
      refine ⟨⟨held, hmem, rfl⟩, ?_⟩
      intro q' a heq
      cases heq
    · refine h.lawful.append ?_
      intro past f hf
      obtain ⟨held, -, -, rfl⟩ := hfacts f hf
      trivial
  · intro f hf
    obtain ⟨held, hmem, hheld, rfl⟩ := hfacts f hf
    refine ⟨held, hmem, h.held held hmem (by rw [hheld]; simp), rfl, ?_⟩
    unfold commitVoid
    rw [if_pos hheld]
    simp
  · rw [List.pairwise_map]
    have hdistinct : s.approvals.Pairwise fun held held' => held.row.id ≠ held'.row.id :=
      List.pairwise_map.1 h.ledger.distinct
    refine (hdistinct.filter _).imp ?_
    intro held held' hne heq
    exact hne (Option.some.inj heq)

theorem getById_some {id : String} {row : PendingApprovalRow} (h : s.getById id = some row) :
    s.Issued row.toApproval := by
  obtain ⟨held, hfind, rfl⟩ := Option.map_eq_some_iff.1 h
  exact ⟨held, List.mem_of_find?_eq_some hfind, rfl⟩

/-- A new approval is pending, and nothing has happened to it. -/
theorem Sound.create (h : Sound C s) {a : Approval} (hnew : ∀ held ∈ s.approvals, held.row.id ≠ a.id) :
    Sound C { s with approvals := s.approvals ++ [⟨⟨a, .pending, none⟩, none⟩] } := by
  have hsame : s.requests = Function.update s.requests 0 (s.requests 0) := (Function.update_eq_self _ _).symm
  refine h.of_step [] hsame (List.append_nil _).symm ?_ (h.ledger.issue hnew) ?_ (h.justified 0) (h.issued 0)
    (by simp) h.lawful
  · rintro a' ⟨held, hmem, rfl⟩
    exact ⟨held, List.mem_append_left _ hmem, rfl⟩
  · intro held hmem hne
    rcases List.mem_append.1 hmem with hmem | hmem
    · exact h.held held hmem hne
    · rw [List.mem_singleton.1 hmem]

theorem Sound.admitCall (h : Sound C s) {q : ℕ} {call : Call A R} {row : PendingApprovalRow}
    (hq : s.requests q = .loaded call row) : Sound C (admitStep C s q call row) := by
  have hissued : s.Issued row.toApproval := h.issued q _ (by rw [hq]; rfl)
  have hran : NotRan s.log q := by
    have := h.justified q
    rwa [hq] at this
  unfold admitStep
  split
  · split
    · exact h.ended q
    · exact h.ended q
    · exact h.ended q
    · refine h.moveTo hran ?_
      intro a ha
      cases ha
      exact hissued
    · split
      · refine h.moveTo hran ?_
        intro a ha
        cases ha
        exact hissued
      · exact h.ended q
  · exact h.ended q

theorem Sound.verify (h : Sound C s) {q : ℕ} {a : Approval} {assertion : A} {credential : SigningCredentialRow}
    (hq : s.requests q = .resolved a assertion credential) : Sound C (verifyStep C s q a assertion credential) := by
  have hissued : s.Issued a := h.issued q a (by rw [hq]; rfl)
  have hran : NotRan s.log q := by
    have := h.justified q
    rwa [hq] at this
  have happroval : ∀ {p : Progress A R}, p.approval? = some a → ∀ a', p.approval? = some a' → s.Issued a' := by
    intro p hp a' ha'
    rw [hp] at ha'
    cases ha'
    exact hissued
  simp only [verifyStep]
  split
  · rename_i hactor
    split
    · rename_i n hverified
      split
      · have hlawful : Lawful C s.log (.verified q a assertion credential) := ⟨hactor, by rw [hverified]; rfl⟩
        refine h.of_step [.verified q a assertion credential] rfl rfl (fun _ ha => ha) (h.ledger.note rfl) h.held
          ⟨⟨assertion, credential, List.mem_append_right _ List.mem_cons_self⟩, ?_⟩ (happroval rfl) ?_ (h.lawful.snoc hlawful)
        · intro a' ha'
          rcases List.mem_append.1 ha' with ha' | ha'
          · exact hran a' ha'
          · cases List.mem_singleton.1 ha'
        · intro f hf
          rw [List.mem_singleton.1 hf]
          refine ⟨hissued, ?_⟩
          intro q' a' heq
          cases heq
      · exact h.ended q
    · exact h.ended q
  · split
    · exact h.moveTo hran (happroval rfl)
    · exact h.ended q

/-- The executor begins: the request can show its assertion and its signature. -/
theorem Sound.execute (h : Sound C s) {q : ℕ} {a : Approval} (hq : s.requests q = .counted a) :
    Sound C ((s.note [.ran q a]).moveTo q (.executing a s.clock)) := by
  have hissued : s.Issued a := h.issued q a (by rw [hq]; rfl)
  have hjustified := h.justified q
  rw [hq] at hjustified
  refine h.of_step [.ran q a] rfl rfl (fun _ ha => ha) (h.ledger.note rfl) h.held trivial ?_ ?_
    (h.lawful.snoc hjustified)
  · intro a' ha'
    cases ha'
    exact hissued
  · intro f hf
    rw [List.mem_singleton.1 hf]
    refine ⟨hissued, ?_⟩
    intro q' a' heq
    cases heq
    rfl

/-- **Every step keeps the invariant.** -/
theorem Sound.step {e : Event A R} {s' : State A R} (h : Sound C s) (hstep : Passkey.step C s e = some s') : Sound C s' := by
  -- a request that moves on with the approval it has
  have hon : ∀ {q : ℕ} {p : Progress A R}, p.Justified s.log q → (∀ a, p.approval? = some a →
      (s.requests q).approval? = some a) → Sound C (s.moveTo q p) :=
    fun hp hap => h.moveTo hp fun a ha => h.issued _ a (hap a ha)
  cases e with
  | create a =>
    simp only [Passkey.step] at hstep
    split at hstep
    · rename_i hnew
      cases hstep
      exact h.create hnew.1
    · cases hstep
  | tick time =>
    simp only [Passkey.step] at hstep
    split at hstep
    · cases hstep
      exact h.congr rfl rfl rfl
    · cases hstep
  | arrive q call =>
    simp only [Passkey.step] at hstep
    split at hstep
    · rename_i hq
      cases hstep
      have hran := h.justified q
      rw [hq] at hran
      refine hon hran ?_
      intro a ha
      cases ha
    · cases hstep
  | load q =>
    simp only [Passkey.step] at hstep
    split at hstep
    · rename_i call hq
      cases hstep
      have hran := h.justified q
      rw [hq] at hran
      cases hrow : s.getById call.id with
      | none => exact h.ended q
      | some row =>
        refine h.moveTo hran ?_
        intro a ha
        cases ha
        exact getById_some hrow
    · cases hstep
  | admitCall q =>
    simp only [Passkey.step] at hstep
    split at hstep
    · rename_i call row hq
      cases hstep
      exact h.admitCall hq
    · cases hstep
  | resolve q =>
    simp only [Passkey.step] at hstep
    split at hstep
    · rename_i assertion a hq
      cases hstep
      have hran := h.justified q
      rw [hq] at hran
      cases hcredential : (C.rawId assertion).bind s.getByCredentialId with
      | none => exact h.ended q
      | some credential => exact hon hran (by rw [hq]; exact fun a ha => ha)
    · cases hstep
  | verify q =>
    simp only [Passkey.step] at hstep
    split at hstep
    · rename_i a assertion credential hq
      cases hstep
      exact h.verify hq
    · cases hstep
  | markSigned q answered =>
    simp only [Passkey.step] at hstep
    split at hstep
    · rename_i a credential n hq
      have hjustified := h.justified q
      rw [hq] at hjustified
      have hissued := h.issued q a (by rw [hq]; rfl)
      have hnotRan : ∀ q' a', Fact.signed q a s.clock ≠ .ran (A := A) q' a' := by simp
      have hnext : Progress.Justified (A := A) (R := R) (s.log ++ [.signed q a s.clock]) q (.consumed a credential n) := by
        have hother : ∀ f ∈ [Fact.signed (A := A) q a s.clock], ∀ a', f ≠ .ran q a' := by
          intro f hf a' heq
          rw [List.mem_singleton.1 hf] at heq
          cases heq
        have hkept := Progress.Justified.append (R := R) (p := .consenting a credential n) hjustified hother
        exact ⟨hkept.1, ⟨s.clock, List.mem_append_right _ List.mem_cons_self⟩, hkept.2⟩
      exact h.markSignedStep hstep hissued rfl rfl hnotRan trivial hnext rfl
    · rename_i a hq
      have hissued := h.issued q a (by rw [hq]; rfl)
      exact h.markSignedStep hstep hissued rfl rfl (by simp) trivial trivial rfl
    · cases hstep
  | updateSignCount q =>
    simp only [Passkey.step] at hstep
    split at hstep
    · rename_i a credential n hq
      split at hstep
      · cases hstep
        have hjustified := h.justified q
        rw [hq] at hjustified
        have hmoved : Sound C (s.moveTo q (.counted a)) := hon hjustified (by rw [hq]; exact fun a ha => ha)
        exact hmoved.congr rfl rfl rfl
      · cases hstep
    · cases hstep
  | execute q =>
    simp only [Passkey.step] at hstep
    split at hstep
    · rename_i a hq
      cases hstep
      exact h.execute hq
    · cases hstep
  | finish q outcome =>
    simp only [Passkey.step] at hstep
    split at hstep
    · rename_i a since hq
      cases hstep
      exact hon trivial (by rw [hq]; exact fun a ha => ha)
    · cases hstep
  | setOutcome q =>
    simp only [Passkey.step] at hstep
    split at hstep
    · cases hstep
      exact (h.setOutcome _ _).ended q
    · cases hstep
      exact (h.setOutcome _ _).ended q
    · cases hstep
  | insertCredential q =>
    simp only [Passkey.step] at hstep
    split at hstep
    · simp only [insertStep] at hstep
      split at hstep
      · split at hstep
        · cases hstep
          exact h.ended q
        · cases hstep
      · cases hstep
        exact (h.ended q).congr rfl rfl rfl
    · cases hstep
  | die q =>
    cases hstep
    exact h.ended q
  | voidPending x actor =>
    simp only [Passkey.step] at hstep
    split at hstep
    · split at hstep
      · cases hstep
        exact (h.voidPending x actor).congr rfl rfl rfl
      · cases hstep
    · cases hstep
  | deleteCredentials x =>
    simp only [Passkey.step] at hstep
    split at hstep
    · split at hstep
      · cases hstep
        exact h.congr rfl rfl rfl
      · cases hstep
    · cases hstep
  | commit x =>
    simp only [Passkey.step] at hstep
    split at hstep
    · cases hstep
      exact (h.commit x).congr rfl rfl rfl
    · cases hstep
  | rollback x =>
    simp only [Passkey.step] at hstep
    split at hstep
    · cases hstep
    · cases hstep
      exact (h.release x).congr rfl rfl rfl
  | look o id =>
    simp only [Passkey.step] at hstep
    split at hstep
    · split at hstep
      · cases hstep
        exact h.congr rfl rfl rfl
      · cases hstep
    · cases hstep
  | judge o =>
    simp only [Passkey.step] at hstep
    split at hstep
    · cases hstep
      exact h.congr rfl rfl rfl
    · cases hstep
  | settle o outcome =>
    simp only [Passkey.step] at hstep
    split at hstep
    · cases hstep
      exact (h.setOutcome _ _).congr rfl rfl rfl
    · cases hstep

end Steps

/-! ## Runs -/

/-- The system before its first request. -/
structure Fresh (s : State A R) : Prop where
  distinct : (s.approvals.map fun held => held.row.id).Nodup
  approvals : ∀ held ∈ s.approvals, held.heldBy = none
  credentials : ∀ held ∈ s.credentials, held.heldBy = none
  requests : ∀ q, s.requests q = .idle
  resets : ∀ x, s.resets x = .idle
  checks : ∀ o, s.checks o = .idle
  log : s.log = []

theorem Fresh.sound {C : Ceremony A R} {s : State A R} (h : Fresh s) : Sound C s where
  ledger := by
    rw [h.log]
    exact Ledger.nil h.distinct
  held := by
    intro held hmem hne
    exact absurd (h.approvals held hmem) hne
  issued := by
    intro q a ha
    rw [h.requests q] at ha
    cases ha
  logged := by
    rw [h.log]
    simp
  justified := by
    intro q
    rw [h.requests q, h.log]
    intro a ha
    cases ha
  lawful := by
    rw [h.log]
    intro past f later heq
    simp at heq

theorem Sound.run {C : Ceremony A R} {s₀ s : State A R} {history : List (Event A R)} (h₀ : Fresh s₀)
    (hrun : after (Passkey.step C) s₀ history = some s) : Sound C s :=
  after_keeps (I := Sound C) h₀.sound (fun _ _ _ h hstep => h.step hstep) hrun

/-! ## What a challenge is bound to -/

/-- One action of one actor, asked for once. -/
def SameAction (a b : Approval) : Prop :=
  a.toolName = b.toolName ∧ a.normalizedArgs = b.normalizedArgs ∧ a.actor = b.actor ∧ a.nonce = b.nonce

theorem Approval.sound_signPayload (a : Approval) : a.signPayload.Sound :=
  sound_dict (by simp [Json.Sound, a.argsSound])

theorem signText_injective {a b : Approval} (h : a.signText = b.signText) : SameAction a b := by
  have hlength : a.nonce.length = b.nonce.length := by rw [a.nonceBytes, b.nonceBytes]
  obtain ⟨htext, hnonce⟩ := List.append_inj' h hlength
  have hpayload : a.signPayload = b.signPayload :=
    canonicalText_injective a.sound_signPayload b.sound_signPayload htext
  have hkeys : (["tool_name", "normalized_args", "actor_subject", "actor_issuer"] : List String).Nodup := by decide
  have hitem : ∀ key x y, (key, x) ∈ [("tool_name", Json.str a.toolName), ("normalized_args", a.normalizedArgs),
        ("actor_subject", .str a.actorSubject), ("actor_issuer", .str a.actorIssuer)] →
      (key, y) ∈ [("tool_name", Json.str b.toolName), ("normalized_args", b.normalizedArgs),
        ("actor_subject", .str b.actorSubject), ("actor_issuer", .str b.actorIssuer)] → x = y :=
    fun _ _ _ hx hy => dict_item_eq hpayload hkeys hkeys hx hy
  have htool := hitem "tool_name" _ _ (by simp; rfl) (by simp; rfl)
  have hargs := hitem "normalized_args" _ _ (by simp; rfl) (by simp; rfl)
  have hsubject := hitem "actor_subject" _ _ (by simp; rfl) (by simp; rfl)
  have hissuer := hitem "actor_issuer" _ _ (by simp; rfl) (by simp; rfl)
  refine ⟨Json.str.inj htool, hargs, ?_, hnonce⟩
  exact Prod.ext (Json.str.inj hsubject) (Json.str.inj hissuer)

/-! ## Single use -/

/-- What precedes an executor's run: no run of the approval, a verified assertion that signs the challenge of this row and
of no other action, and nothing that voided the approval. -/
structure Warranted (C : Ceremony A R) (signedChallenge : A → Bytes) (s : State A R) (past : List (Fact A)) (q : ℕ)
    (a : Approval) : Prop where
  issued : s.Issued a
  first : ∀ q' a', Fact.ran q' a' ∈ past → a'.id ≠ a.id
  attested : ∃ assertion credential, Fact.verified q a assertion credential ∈ past ∧ Verifies C a assertion credential ∧
    signedChallenge assertion = computeSignChallenge C a ∧
    ∀ b, s.Issued b → computeSignChallenge C b = signedChallenge assertion → SameAction a b
  notVoided : ∀ f ∈ past, f.voids ≠ some a.id

/-- An entry of the log and what its past had to show. -/
theorem Sound.lawful_of_mem {C : Ceremony A R} {s : State A R} (h : Sound C s) {past later : List (Fact A)}
    (hlog : s.log = past ++ later) {f : Fact A} (hf : f ∈ past) : ∃ before, before ⊆ past ∧ Lawful C before f := by
  obtain ⟨before, after, rfl⟩ := List.append_of_mem hf
  refine ⟨before, fun g hg => List.mem_append_left _ hg, h.lawful before f (after ++ later) ?_⟩
  rw [hlog, List.append_assoc, List.cons_append]

theorem Sound.signed_once {C : Ceremony A R} {s : State A R} (h : Sound C s) {f : Fact A} {q : ℕ} {a : Approval} {time : ℕ}
    (hsigned : Fact.signed q a time ∈ s.log) (hf : f ∈ s.log) (hspends : f.spends = some a.id) : f = .signed q a time :=
  h.ledger.spent_once hf hsigned hspends rfl

/-- **An approval is used once, as signed.** Where the library accepts an assertion for the challenge it signs alone and no
two sign texts of the rows collide, each run of an executor is the first of its approval, comes after an assertion of a
credential of the row's own actor verified against the challenge of that row, and after nothing that voided it. -/
theorem approval_single_use (C : Ceremony A R) {signedChallenge : A → Bytes}
    (hsound : ∀ assertion challenge publicKey signCount n,
      C.verifyAuthentication assertion challenge publicKey signCount = some n → signedChallenge assertion = challenge)
    {s₀ s : State A R} {history : List (Event A R)} (h₀ : Fresh s₀) (hrun : after (step C) s₀ history = some s)
    (hfree : Set.InjOn C.sha256 {text | ∃ a, s.Issued a ∧ a.signText = text}) {past later : List (Fact A)} {q : ℕ}
    {a : Approval} (hran : s.log = past ++ .ran q a :: later) : Warranted C signedChallenge s past q a := by
  have h : Sound C s := Sound.run h₀ hrun
  obtain ⟨⟨assertion, credential, hverified⟩, ⟨time, hsigned⟩, hnotRan⟩ := h.lawful past _ later hran
  have hpast : ∀ f ∈ past, f ∈ s.log := by
    intro f hf
    rw [hran]
    exact List.mem_append_left _ hf
  have hissued : s.Issued a := h.logged _ (hpast _ hsigned)
  refine ⟨hissued, ?_, ?_, ?_⟩
  · -- an earlier run of the approval rests on the same flip, so it is a run of the same request
    intro q' a' hran' hid
    obtain ⟨before, hsub, -, ⟨time', hsigned'⟩, -⟩ := h.lawful_of_mem hran hran'
    have hsame : Fact.signed q' a' time' = .signed q a time :=
      h.signed_once (hpast _ hsigned) (hpast _ (hsub hsigned')) (by rw [← hid]; rfl)
    cases hsame
    exact hnotRan a hran'
  · obtain ⟨_, -, hactor, hsome⟩ := h.lawful_of_mem hran hverified
    obtain ⟨n, hn⟩ := Option.isSome_iff_exists.1 hsome
    have hchallenge := hsound _ _ _ _ _ hn
    refine ⟨assertion, credential, hverified, ⟨hactor, hsome⟩, hchallenge, ?_⟩
    intro b hb heq
    rw [hchallenge] at heq
    exact signText_injective (hfree ⟨a, hissued, rfl⟩ ⟨b, hb, rfl⟩ heq.symm)
  · intro f hf hvoids
    have hsame := h.signed_once (hpast _ hsigned) (hpast f hf) (Fact.spends_of_voids hvoids)
    rw [hsame] at hvoids
    cases hvoids

/-! ## A ceremony -/

/-- A library whose assertions are the challenge they sign with the key that signs it. -/
def plainCeremony : Ceremony (Bytes × Bytes) Unit where
  sha256 := fun text => text
  rawId := fun assertion => some assertion.2
  verifyAuthentication := fun assertion challenge publicKey signCount =>
    if assertion.1 = challenge ∧ assertion.2 = publicKey then some (signCount + 1) else none
  verifyRegistration := fun _ _ => none
  hasExecutor := fun _ => true
  hasRecorder := fun _ => true
  reconciles := fun _ => true

/-- An approval of a merge, asked for at time zero. -/
def mergeApproval : Approval where
  id := "a1"
  codeHash := [1]
  toolName := "merge-capabilities"
  normalizedArgs := dict [("absorbed_id", .str "c2"), ("survivor_id", .str "c1")]
  actorSubject := "ana"
  actorIssuer := "idp"
  nonce := List.replicate 32 0
  createdAt := 0
  expiresAt := approvalLifetime
  argsSound := sound_dict (by simp [Json.Sound])
  nonceBytes := rfl

/-- The approver has enrolled a passkey. -/
def enrolledState : State (Bytes × Bytes) Unit where
  approvals := []
  credentials := [⟨⟨"ana", "idp", [7], [7], 0⟩, none⟩]
  requests := fun _ => .idle
  resets := fun _ => .idle
  checks := fun _ => .idle
  clock := 0
  log := []

theorem fresh_enrolledState : Fresh enrolledState :=
  ⟨List.nodup_nil, by simp [enrolledState], by simp [enrolledState], fun _ => rfl, fun _ => rfl, fun _ => rfl, rfl⟩

/-- The assertion of the enrolled passkey. -/
def signedAssertion : Bytes × Bytes := (computeSignChallenge plainCeremony mergeApproval, [7])

/-- The approver signs and the action runs. -/
def signingHistory : List (Event (Bytes × Bytes) Unit) :=
  [.create mergeApproval, .arrive 0 ⟨"a1", [1], .signVerify signedAssertion⟩, .load 0, .admitCall 0, .resolve 0,
    .verify 0,
    .markSigned 0 true, .updateSignCount 0, .execute 0]

/-- The assertion verifies for the approval, which the ceremony reads as it was inserted. -/
theorem plainCeremony_accepts :
    plainCeremony.verifyAuthentication signedAssertion (computeSignChallenge plainCeremony mergeApproval) [7] 0 = some 1 ∧
      plainCeremony.rawId signedAssertion = some [7] ∧ plainCeremony.sha256 [1] = mergeApproval.codeHash ∧
      plainCeremony.hasExecutor mergeApproval.toolName = true ∧ plainCeremony.reconciles mergeApproval.toolName = true ∧
      (⟨"ana", "idp", [7], [7], 0⟩ : SigningCredentialRow).actor = mergeApproval.actor ∧ mergeApproval.id = "a1" ∧
      mergeApproval.createdAt = 0 ∧ mergeApproval.expiresAt = approvalLifetime := by
  refine ⟨?_, rfl, rfl, rfl, rfl, rfl, rfl, rfl, rfl⟩
  simp [plainCeremony, signedAssertion]

theorem signingHistory_log : (after (step plainCeremony) enrolledState signingHistory).map State.log =
    some [.verified 0 mergeApproval signedAssertion ⟨"ana", "idp", [7], [7], 0⟩, .signed 0 mergeApproval 0,
      .ran 0 mergeApproval] := by
  obtain ⟨haccepts, hraw, hcode, hexecutor, -, hactor, hid, hcreated, hlife⟩ := plainCeremony_accepts
  simp [signingHistory, enrolledState, step, admitStep, verifyStep, markSignedStep, State.moveTo, State.getById, verifyCode,
    requirePendingAndUnexpired, State.getByCredentialId, State.change, State.note, State.withCredentials, pendingWith,
    markSigned, hraw, hcode, hlife, hcreated, hid, hactor, hexecutor, haccepts]

theorem plainCeremony_sound (assertion : Bytes × Bytes) (challenge publicKey : Bytes) (signCount n : ℕ)
    (h : plainCeremony.verifyAuthentication assertion challenge publicKey signCount = some n) : assertion.1 = challenge := by
  by_contra hne
  simp [plainCeremony, hne] at h

/-- The run of a signed merge is warranted. -/
theorem approval_single_use_merge : ∃ s, after (step plainCeremony) enrolledState signingHistory = some s ∧
    Warranted plainCeremony Prod.fst s
      [.verified 0 mergeApproval signedAssertion ⟨"ana", "idp", [7], [7], 0⟩, .signed 0 mergeApproval 0] 0 mergeApproval := by
  obtain ⟨s, hrun, hlog⟩ := Option.map_eq_some_iff.1 signingHistory_log
  have hran : s.log = [.verified 0 mergeApproval signedAssertion ⟨"ana", "idp", [7], [7], 0⟩,
      .signed 0 mergeApproval 0] ++ .ran 0 mergeApproval :: [] := hlog
  have hwarranted := approval_single_use plainCeremony plainCeremony_sound fresh_enrolledState hrun
    (fun _ _ _ _ heq => heq) hran
  exact ⟨s, hrun, hwarranted⟩

end Passkey

end PolicySystem
