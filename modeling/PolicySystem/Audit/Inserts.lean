import Mathlib.Logic.Function.Basic
import Mathlib.Logic.Relation
import PolicySystem.Audit.VerifyChain

/-!
# Inserting transactions

The backfill, the chain trigger and the transactions that fire it. The first insert of a transaction locks the head's
row until the transaction ends or rolls back behind that insert; a failed statement has no effect.

* `Sound.step`: the committed trail is intact, and the open writes of the one transaction that holds the head continue it;
* `audit_chain_truthful_iff`: every run verifies intact, and every content is reported as it is exactly where it can be
  encoded.
-/

namespace PolicySystem

namespace AuditChain

open HashChain Text

section Writers

variable (sha256 : List UInt8 → Digest)

/-! ## The trigger and the backfill -/

/-- The row that follows the head, and the head that names it. -/
def chainRow (head : ChainHead) (e : AuditEvent) : Except SqlError (AuditRow × ChainHead) :=
  if h : head.lastChainSeq + 1 < 2 ^ 63 then do
    let canonical ← canonicalRow (head.lastChainSeq + 1) e
    let rowHash := chainHash sha256 head.lastRowHash canonical
    return (⟨e, head.lastChainSeq + 1, head.lastRowHash, rowHash, ⟨Nat.le_add_left 1 _, h⟩⟩,
      ⟨head.lastChainSeq + 1, rowHash⟩)
  else .error .bigintOutOfRange

/-- `audit_chain_head_guard`, of an update. -/
def headGuard (old new : ChainHead) : Except SqlError Unit :=
  if new.lastChainSeq = old.lastChainSeq + 1 then .ok () else .error .headGuard

/-- `audit_events_chain`, with the update of the head it makes. -/
def chainTrigger (head : ChainHead) (e : AuditEvent) : Except SqlError (AuditRow × ChainHead) := do
  let (row, next) ← chainRow sha256 head e
  headGuard head next
  return (row, next)

/-- The loop of the backfill. -/
def backfillRows : ChainHead → List AuditEvent → Except SqlError (List AuditRow × ChainHead)
  | head, [] => .ok ([], head)
  | head, e :: es => do
    let (row, next) ← chainRow sha256 head e
    let (rows, last) ← backfillRows next es
    return (row :: rows, last)

/-- The order of `timestamptz`. -/
def Timestamptz.le : Timestamptz → Timestamptz → Bool
  | .negInfinity, _ => true
  | .finite _, .negInfinity => false
  | .finite s, .finite t => s.micros ≤ t.micros
  | .finite _, .infinity => true
  | .infinity, t => t = .infinity

/-- `ORDER BY occurred_at, id`. -/
def AuditEvent.before (a b : AuditEvent) : Bool :=
  a.occurredAt.le b.occurredAt && (!b.occurredAt.le a.occurredAt || a.id.toNat ≤ b.id.toNat)

/-- **The trail the migration leaves.** -/
def Backfilled (events : List AuditEvent) (log : AuditLog) : Prop :=
  ∃ rows, backfillRows sha256 ⟨0, genesisHash⟩ (events.mergeSort AuditEvent.before) = .ok (rows, log.head) ∧
    log.rows.Perm rows

/-! ## Transactions -/

/-- What a transaction has written and not rolled back. It holds the head's row while it has a version of it. -/
structure Writes where
  rows : List AuditRow
  head : Option ChainHead

/-- A transaction and its savepoints, the innermost first. -/
structure Session where
  writes : Writes
  savepoints : List Writes

def Session.new : Session := ⟨⟨[], none⟩, []⟩

/-- The committed trail and the transactions. -/
structure Trail (T : Type) where
  committed : AuditLog
  session : T → Session

variable {T : Type} [DecidableEq T]

def Trail.set (s : Trail T) (t : T) (session : Session) : Trail T := { s with session := Function.update s.session t session }

/-- One statement of one transaction, or its end. -/
inductive Step (s : Trail T) : Trail T → Prop
  | insert (t : T) (e : AuditEvent) {row : AuditRow} {head : ChainHead}
      (hlock : ∀ other, other ≠ t → (s.session other).writes.head = none)
      (hrow : chainTrigger sha256 ((s.session t).writes.head.getD s.committed.head) e = .ok (row, head)) :
      Step s (s.set t ⟨⟨(s.session t).writes.rows ++ [row], some head⟩, (s.session t).savepoints⟩)
  | savepoint (t : T) :
      Step s (s.set t ⟨(s.session t).writes, (s.session t).writes :: (s.session t).savepoints⟩)
  | rollbackTo (t : T) {n : ℕ} {writes : Writes} {outer : List Writes}
      (hdrop : (s.session t).savepoints.drop n = writes :: outer) : Step s (s.set t ⟨writes, writes :: outer⟩)
  | release (t : T) {n : ℕ} {writes : Writes} {outer : List Writes}
      (hdrop : (s.session t).savepoints.drop n = writes :: outer) : Step s (s.set t ⟨(s.session t).writes, outer⟩)
  | commit (t : T) {log : AuditLog} (hrows : log.rows = s.committed.rows ++ (s.session t).writes.rows)
      (hhead : log.head = (s.session t).writes.head.getD s.committed.head) :
      Step s ⟨log, Function.update s.session t .new⟩
  | rollback (t : T) : Step s (s.set t .new)

/-- What a transaction sees: the committed trail and its own writes. -/
def Sees (s : Trail T) (t : T) (log : AuditLog) : Prop :=
  log.rows.Perm (s.committed.rows ++ (s.session t).writes.rows) ∧
    log.head = (s.session t).writes.head.getD s.committed.head

end Writers

/-! ## Rows in chain order -/

variable {sha256 : List UInt8 → Digest}

theorem chained_lt {tip : Tip Digest} {rows : List AuditRow}
    (h : Chained (rowDigest sha256) tip (rows.map AuditRow.link)) : rows.Pairwise fun a b => a.chainSeq < b.chainSeq := by
  rw [← List.pairwise_map (R := fun a b => a < b), (chained_rows_iff.1 h).1]
  exact List.pairwise_lt_range'

/-- The order of rows that form a chain. -/
theorem ordered_eq {log : AuditLog} {rows : List AuditRow} (hperm : log.rows.Perm rows)
    (hlt : rows.Pairwise fun a b => a.chainSeq < b.chainSeq) : log.ordered = rows := by
  refine List.Perm.eq_of_pairwise (fun a b _ _ hab hba => ?_) log.ordered_lt hlt (log.ordered_perm.trans hperm)
  exact absurd hba (Nat.lt_asymm hab)

theorem intact_of_rows {log : AuditLog} {rows : List AuditRow} (hperm : log.rows.Perm rows)
    (hchained : Unbroken sha256 rows) (hhead : log.head.tip = endOf rows) : Intact sha256 log := by
  have hordered := ordered_eq hperm (chained_lt hchained)
  rw [intact_iff, hordered]
  exact ⟨hchained, hhead⟩

/-- An intact trail can be encoded: its hashes recompute. -/
theorem Intact.encodable {log : AuditLog} (h : Intact sha256 log) : Encodable log := by
  intro pre e post hsplit t hnumber hfollows hat
  have hdigest := h.recomputed e (by rw [hsplit]; simp)
  by_contra hnot
  rw [rowDigest, canonicalRow_error hat hnot] at hdigest
  cases hdigest

theorem verify_of_intact {log : AuditLog} (h : Intact sha256 log) :
    verifyChain sha256 log = .ok ⟨true, log.rows.length, log.head.lastChainSeq, none⟩ := by
  obtain ⟨⟨intact, rowsChecked, headChainSeq, firstBreak⟩, hreport, htrue⟩ := verify_truthful.2 h.encodable
  obtain rfl : intact = true := htrue.intact.2 h
  obtain rfl : rowsChecked = log.rows.length := htrue.rowsChecked
  obtain rfl : headChainSeq = log.head.lastChainSeq := htrue.headChainSeq
  have hnone : firstBreak = none := by
    cases hbreak : firstBreak with
    | none => rfl
    | some b =>
      have hof := htrue.firstBreak
      rw [hbreak] at hof
      cases hof with
      | row hsplit hbefore hbreaks =>
        have hall := (intact_iff.1 h).1
        rw [hsplit, Unbroken, List.map_append, Chained, along_append] at hall
        exact absurd hall.2.1 hbreaks.not_extends
      | head hrows hhead => exact absurd (intact_iff.1 h).2 hhead
  rw [hreport, hnone]

/-! ## What the trigger writes -/

theorem chainRow_ok {head next : ChainHead} {e : AuditEvent} {row : AuditRow}
    (h : chainRow sha256 head e = .ok (row, next)) :
    Extends (rowDigest sha256) head.tip row.link ∧ next.tip = row.link.tip := by
  unfold chainRow at h
  split at h
  · cases hcanonical : canonicalRow (head.lastChainSeq + 1) e with
    | error err =>
      rw [hcanonical] at h
      cases h
    | ok canonical =>
      rw [hcanonical] at h
      obtain ⟨rfl, rfl⟩ := Prod.mk.inj (Except.ok.inj h)
      refine ⟨extends_iff.2 ⟨rfl, rfl, ?_⟩, rfl⟩
      rw [rowDigest, hcanonical]
      rfl
  · cases h

/-- The head's guard never stops the trigger. -/
theorem chainTrigger_eq (head : ChainHead) (e : AuditEvent) : chainTrigger sha256 head e = chainRow sha256 head e := by
  unfold chainTrigger
  cases hrow : chainRow sha256 head e with
  | error err => rfl
  | ok result =>
    obtain ⟨row, next⟩ := result
    obtain ⟨hextends, htip⟩ := chainRow_ok hrow
    have hnext : next.lastChainSeq = head.lastChainSeq + 1 := (congrArg Tip.number htip).trans hextends.number
    simp only [bind, Except.bind, headGuard, hnext, if_true]
    rfl

theorem backfillRows_ok {head last : ChainHead} {events : List AuditEvent} {rows : List AuditRow}
    (h : backfillRows sha256 head events = .ok (rows, last)) :
    Chained (rowDigest sha256) head.tip (rows.map AuditRow.link) ∧
      last.tip = tipAfter head.tip (rows.map AuditRow.link) := by
  induction events generalizing head rows with
  | nil =>
    cases h
    exact ⟨trivial, rfl⟩
  | cons e events ih =>
    rw [backfillRows] at h
    cases hrow : chainRow sha256 head e with
    | error err =>
      rw [hrow] at h
      cases h
    | ok result =>
      obtain ⟨row, next⟩ := result
      rw [hrow] at h
      cases hrest : backfillRows sha256 next events with
      | error err =>
        simp only [bind, Except.bind, hrest] at h
        cases h
      | ok rest =>
        simp only [bind, Except.bind, hrest] at h
        obtain ⟨rfl, rfl⟩ := Prod.mk.inj (Except.ok.inj h)
        obtain ⟨hextends, htip⟩ := chainRow_ok hrow
        obtain ⟨hchained, hlast⟩ := ih hrest
        rw [htip] at hchained hlast
        exact ⟨⟨hextends, hchained⟩, hlast⟩

theorem Backfilled.intact {events : List AuditEvent} {log : AuditLog} (h : Backfilled sha256 events log) :
    Intact sha256 log := by
  obtain ⟨rows, hrows, hperm⟩ := h
  obtain ⟨hchained, hhead⟩ := backfillRows_ok hrows
  exact intact_of_rows hperm hchained hhead

/-! ## The invariant -/

/-- Open writes continue the committed trail, and the version of the head names their end. -/
def WritesSound (sha256 : List UInt8 → Digest) (head : ChainHead) (w : Writes) : Prop :=
  match w.head with
    | none => w.rows = []
    | some last => Chained (rowDigest sha256) head.tip (w.rows.map AuditRow.link) ∧
        last.tip = tipAfter head.tip (w.rows.map AuditRow.link)

theorem WritesSound.chained {head : ChainHead} {w : Writes} (h : WritesSound sha256 head w) :
    Chained (rowDigest sha256) head.tip (w.rows.map AuditRow.link) ∧
      (w.head.getD head).tip = tipAfter head.tip (w.rows.map AuditRow.link) := by
  unfold WritesSound at h
  cases hhead : w.head with
  | none =>
    rw [hhead] at h
    rw [h]
    exact ⟨trivial, rfl⟩
  | some last =>
    rw [hhead] at h
    exact h

/-- Writes without the lock are none, whatever is committed. -/
theorem WritesSound.of_unlocked {head head' : ChainHead} {w : Writes} (h : WritesSound sha256 head w)
    (hnone : w.head = none) : WritesSound sha256 head' w := by
  unfold WritesSound at h ⊢
  rw [hnone] at h ⊢
  exact h

/-- A transaction's writes and what its savepoints would bring back: an outer one holds the lock only if every inner one
does. -/
structure SessionSound (sha256 : List UInt8 → Digest) (head : ChainHead) (session : Session) : Prop where
  sound : ∀ w ∈ session.writes :: session.savepoints, WritesSound sha256 head w
  nested : (session.writes :: session.savepoints).Pairwise fun inner outer => inner.head = none → outer.head = none

theorem SessionSound.new (head : ChainHead) : SessionSound sha256 head .new := by
  refine ⟨fun w hw => ?_, by simp [Session.new]⟩
  rw [List.mem_singleton.1 hw]
  rfl

/-- A transaction that does not hold the lock is sound over any head. -/
theorem SessionSound.of_unlocked {head head' : ChainHead} {session : Session} (h : SessionSound sha256 head session)
    (hnone : session.writes.head = none) : SessionSound sha256 head' session := by
  refine ⟨fun w hw => (h.sound w hw).of_unlocked ?_, h.nested⟩
  rcases List.mem_cons.1 hw with rfl | hw
  · exact hnone
  · exact (List.pairwise_cons.1 h.nested).1 w hw hnone

/-- Another stack of the same writes, each once or twice, is sound too. -/
theorem SessionSound.restack {head : ChainHead} {session : Session} (h : SessionSound sha256 head session)
    {w : Writes} {outer : List Writes} (hstack : (w :: outer).Sublist (session.writes :: session.savepoints)) :
    SessionSound sha256 head ⟨w, outer⟩ ∧ SessionSound sha256 head ⟨w, w :: outer⟩ := by
  have hsound : ∀ v ∈ w :: outer, WritesSound sha256 head v := fun v hv => h.sound v (hstack.subset hv)
  have hnested := h.nested.sublist hstack
  refine ⟨⟨hsound, hnested⟩, ⟨fun v hv => ?_, List.pairwise_cons.2 ⟨fun v hv => ?_, hnested⟩⟩⟩
  · rcases List.mem_cons.1 hv with rfl | hv
    · exact hsound _ List.mem_cons_self
    · exact hsound v hv
  · rcases List.mem_cons.1 hv with rfl | hv
    · exact id
    · exact (List.pairwise_cons.1 hnested).1 v hv

variable {T : Type}

/-- **The invariant**: the committed trail is intact, the open writes continue it, and one transaction has any. -/
structure Sound (sha256 : List UInt8 → Digest) (s : Trail T) : Prop where
  committed : Intact sha256 s.committed
  sessions : ∀ t, SessionSound sha256 s.committed.head (s.session t)
  alone : ∀ t t', (s.session t).writes.head ≠ none → (s.session t').writes.head ≠ none → t = t'

/-- The others hold no lock while this one does. -/
theorem Sound.others {s : Trail T} (h : Sound sha256 s) {t : T} (hheld : (s.session t).writes.head ≠ none) :
    ∀ other, other ≠ t → (s.session other).writes.head = none := by
  intro other hne
  by_contra hother
  exact hne (h.alone other t hother hheld)

/-- What a transaction sees is intact. -/
theorem Sound.sees {s : Trail T} (h : Sound sha256 s) {t : T} {log : AuditLog} (hsees : Sees s t log) :
    Intact sha256 log := by
  obtain ⟨hperm, hhead⟩ := hsees
  obtain ⟨hcommitted, hend⟩ := intact_iff.1 h.committed
  obtain ⟨hchained, hlast⟩ := ((h.sessions t).sound _ List.mem_cons_self).chained
  have hrows : Unbroken sha256 (s.committed.ordered ++ (s.session t).writes.rows) := by
    rw [Unbroken, List.map_append, Chained, along_append, ← endOf, ← hend]
    exact ⟨hcommitted, hchained⟩
  refine intact_of_rows (hperm.trans (s.committed.ordered_perm.symm.append_right _)) hrows ?_
  rw [hhead, hlast, hend, endOf, endOf, List.map_append, tipAfter_append]

variable [DecidableEq T]

theorem Trail.set_session (s : Trail T) (t u : T) (session : Session) :
    (s.set t session).session u = if u = t then session else s.session u := Function.update_apply _ _ _ _

/-- A session replaced by a sound one that holds the lock only if it held it. -/
theorem Sound.set {s : Trail T} (h : Sound sha256 s) {t : T} {session : Session}
    (hsession : SessionSound sha256 s.committed.head session)
    (hlock : session.writes.head ≠ none → ∀ other, other ≠ t → (s.session other).writes.head = none) :
    Sound sha256 (s.set t session) := by
  refine ⟨h.committed, fun u => ?_, fun u u' hu hu' => ?_⟩
  · rw [Trail.set_session]
    split
    · exact hsession
    · exact h.sessions u
  · rw [Trail.set_session] at hu hu'
    split at hu
    · rename_i heq
      split at hu'
      · rename_i heq'
        rw [heq, heq']
      · rename_i hne
        exact absurd (hlock hu u' hne) hu'
    · rename_i hne
      split at hu'
      · rename_i heq'
        exact absurd (hlock hu' u hne) hu
      · exact h.alone u u' hu hu'

theorem WritesSound.insert {head next : ChainHead} {w : Writes} {e : AuditEvent} {row : AuditRow}
    (h : WritesSound sha256 head w) (hrow : chainTrigger sha256 (w.head.getD head) e = .ok (row, next)) :
    WritesSound sha256 head ⟨w.rows ++ [row], some next⟩ := by
  rw [chainTrigger_eq] at hrow
  obtain ⟨hextends, htip⟩ := chainRow_ok hrow
  obtain ⟨hchained, hend⟩ := h.chained
  rw [hend] at hextends
  refine ⟨?_, ?_⟩
  · rw [List.map_append, List.map_singleton, chained_concat]
    exact ⟨hchained, hextends⟩
  · rw [List.map_append, List.map_singleton, tipAfter_concat]
    exact htip

/-- **One step keeps the invariant.** -/
theorem Sound.step {s s' : Trail T} (h : Sound sha256 s) (hstep : Step sha256 s s') : Sound sha256 s' := by
  cases hstep with
  | @insert t e row head hlock hrow =>
    refine h.set ⟨fun w hw => ?_, ?_⟩ fun _ => hlock
    · rcases List.mem_cons.1 hw with rfl | hw
      · exact ((h.sessions t).sound _ List.mem_cons_self).insert hrow
      · exact (h.sessions t).sound w (List.mem_cons_of_mem _ hw)
    · refine List.pairwise_cons.2 ⟨fun w _ hnone => ?_, (List.pairwise_cons.1 (h.sessions t).nested).2⟩
      exact absurd hnone (Option.some_ne_none head)
  | savepoint t => exact h.set ((h.sessions t).restack (List.Sublist.refl _)).2 fun hheld => h.others hheld
  | @rollbackTo t n writes outer hdrop =>
    have hstack : (writes :: outer).Sublist ((s.session t).writes :: (s.session t).savepoints) := by
      rw [← hdrop]
      exact (List.drop_sublist _ _).cons _
    refine h.set ((h.sessions t).restack hstack).2 fun hheld => h.others fun hnone => hheld ?_
    -- what comes back was written under the lock the transaction still holds
    have hmem : writes ∈ (s.session t).savepoints := by
      refine (List.drop_sublist n _).subset ?_
      rw [hdrop]
      exact List.mem_cons_self
    exact (List.pairwise_cons.1 (h.sessions t).nested).1 writes hmem hnone
  | @release t n writes outer hdrop =>
    have hstack : ((s.session t).writes :: outer).Sublist ((s.session t).writes :: (s.session t).savepoints) := by
      refine List.Sublist.cons_cons _ (List.Sublist.trans ?_ (List.drop_sublist n _))
      rw [hdrop]
      exact List.sublist_cons_self _ _
    exact h.set ((h.sessions t).restack hstack).1 fun hheld => h.others hheld
  | @commit t log hrows hhead =>
    have hintact : Intact sha256 log := h.sees ⟨by rw [hrows], hhead⟩
    refine ⟨hintact, fun u => ?_, fun u u' hu hu' => ?_⟩
    · simp only [Function.update_apply]
      split
      · exact .new _
      · rename_i hne
        -- another open transaction has written nothing, or nothing was committed
        by_cases hheld : (s.session t).writes.head = none
        · rw [hheld, Option.getD_none] at hhead
          rw [hhead]
          exact h.sessions u
        · exact (h.sessions u).of_unlocked (h.others hheld u hne)
    · simp only [Function.update_apply] at hu hu'
      split at hu
      · exact absurd rfl hu
      · split at hu'
        · exact absurd rfl hu'
        · exact h.alone u u' hu hu'
  | rollback t => exact h.set (.new _) fun hheld => absurd rfl hheld

/-- A run from the trail the migration leaves, with no transaction open. -/
def Run (sha256 : List UInt8 → Digest) (events : List AuditEvent) (s : Trail T) : Prop :=
  ∃ log, Backfilled sha256 events log ∧ Relation.ReflTransGen (Step sha256) ⟨log, fun _ => .new⟩ s

/-- **So does a run.** -/
theorem Sound.run {events : List AuditEvent} {s : Trail T} (hrun : Run sha256 events s) : Sound sha256 s := by
  obtain ⟨log, hlog, hsteps⟩ := hrun
  induction hsteps with
  | refl => exact ⟨hlog.intact, fun t => .new _, fun t t' ht => absurd rfl ht⟩
  | tail _ hstep ih => exact ih.step hstep

/-! ## The audit chain -/

/-- **The audit chain.** Every run of inserting transactions verifies intact, for each of them. Every content of table
and head is reported as it is exactly when each row that is numbered and linked right has a time that can be encoded.
Where no hashed texts collide, a change of the rows under an unchanged head is never reported intact, and what is
reported is the lowest break. Distinct rows never share a canonical form. -/
theorem audit_chain_truthful_iff (sha256 : List UInt8 → Digest) (T : Type) [DecidableEq T] :
    (∀ (events : List AuditEvent) (s : Trail T), Run sha256 events s → ∀ t log, Sees s t log →
      verifyChain sha256 log = .ok ⟨true, log.rows.length, log.head.lastChainSeq, none⟩) ∧
    (∀ log, (∃ report, verifyChain sha256 log = .ok report ∧ Truthful sha256 log report) ↔ Encodable log) ∧
    (∀ log log', Intact sha256 log → log'.head = log.head → Set.InjOn sha256 (hashedTexts log ∪ hashedTexts log') →
      ¬ log.rows.Perm log'.rows → ∀ report, verifyChain sha256 log' = .ok report →
        report.intact = false ∧ ∃ b, report.firstBreak = some b ∧ BreakOf sha256 log' (some b)) ∧
    ∀ seq seq' e e' bytes, canonicalRow seq e = .ok bytes → canonicalRow seq' e' = .ok bytes → seq = seq' ∧ e = e' := by
  refine ⟨fun events s hrun t log hsees => verify_of_intact ((Sound.run hrun).sees hsees), fun log => verify_truthful,
    fun log log' hintact hhead hfree hchanged report hreport => ?_,
    fun seq seq' e e' bytes h h' => canonicalRow_injective h h'⟩
  have hbroken : ¬ Intact sha256 log' := fun hintact' =>
    hchanged (rows_determined hintact hintact' hhead.symm hfree)
  obtain ⟨report', hreport', htrue⟩ := verify_truthful.2 (encodable_of_verified hreport)
  obtain rfl : report = report' := Except.ok.inj (hreport.symm.trans hreport')
  refine ⟨by simpa using mt htrue.intact.1 hbroken, ?_⟩
  cases hbreak : report.firstBreak with
  | none =>
    have hof := htrue.firstBreak
    rw [hbreak] at hof
    cases hof with
    | intact h => exact absurd h hbroken
  | some b => exact ⟨b, rfl, hbreak ▸ htrue.firstBreak⟩

/-! ## One row -/

/-- The first event of a trail. -/
def firstEvent : AuditEvent :=
  ⟨1, .finite ⟨0, by decide⟩, "alice", "idp", "capability.merge", "capability", "c1", .applied, "{}"⟩

def firstCanonical : List UInt8 := utf8 "ps-audit-v1" ++ (canonicalFields 1 0 firstEvent).flatMap canonicalField

/-- SHA-256 on the one text that is hashed here. -/
def firstSha256 (bytes : List UInt8) : Digest :=
  if bytes = hashedBytes genesisHash firstCanonical then
    0x1ae1273dce09a7ff3128a23e53b4226ed10a57ed1405d16fbf04ac91efaceaf9
  else 0

def firstRow : AuditRow := ⟨firstEvent, 1, genesisHash, chainHash firstSha256 genesisHash firstCanonical, by decide⟩

def firstHead : ChainHead := ⟨1, firstRow.rowHash⟩

def emptyLog : AuditLog := ⟨[], ⟨0, genesisHash⟩, List.nodup_nil⟩

def firstLog : AuditLog := ⟨[firstRow], firstHead, List.nodup_singleton _⟩

/-- The row is deleted. -/
def truncatedLog : AuditLog := ⟨[], firstHead, List.nodup_nil⟩

theorem canonicalRow_first : canonicalRow firstRow.chainSeq firstRow.toAuditEvent = .ok firstCanonical := rfl

theorem run_first : Run firstSha256 [] (⟨firstLog, fun _ => .new⟩ : Trail Unit) := by
  have hrow : chainTrigger firstSha256 ⟨0, genesisHash⟩ firstEvent = .ok (firstRow, firstHead) := by
    rw [chainTrigger_eq]
    rfl
  refine ⟨emptyLog, ⟨[], by rw [List.mergeSort_nil]; rfl, List.Perm.refl _⟩, ?_⟩
  refine .tail (.single (.insert () firstEvent (fun other hother => absurd rfl hother) hrow)) ?_
  have hnew : (fun _ : Unit => Session.new) = Function.update ((⟨emptyLog, fun _ => .new⟩ : Trail Unit).set ()
      ⟨⟨[] ++ [firstRow], some firstHead⟩, []⟩).session () .new := by
    funext u
    rw [Function.update_self]
  rw [hnew]
  exact .commit () (by rw [Trail.set_session]; rfl) (by rw [Trail.set_session]; rfl)

/-- One row, inserted and committed, verifies; with the row removed, the head betrays it. -/
theorem audit_chain_truthful_iff_first :
    verifyChain firstSha256 firstLog = .ok ⟨true, 1, 1, none⟩ ∧
      ∀ report, verifyChain firstSha256 truncatedLog = .ok report → report.intact = false := by
  have hverified := (audit_chain_truthful_iff firstSha256 Unit).1 [] _ run_first () firstLog ⟨List.Perm.refl _, rfl⟩
  refine ⟨hverified, fun report hreport => ?_⟩
  have hintact : Intact firstSha256 firstLog := (Sound.run run_first).committed
  have htexts : hashedTexts firstLog ∪ hashedTexts truncatedLog ⊆
      {hashedBytes genesisHash firstCanonical} := by
    rintro bytes (⟨e, he, canonical, hcanonical, hbytes⟩ | ⟨e, he, -⟩)
    · have hfirst : e = firstRow := List.mem_singleton.1 he
      rw [hfirst, canonicalRow_first] at hcanonical
      rw [hbytes, hfirst, ← Except.ok.inj hcanonical]
      exact Set.mem_singleton _
    · exact absurd he List.not_mem_nil
  have hfree := (Set.injOn_singleton firstSha256 _).mono htexts
  have hchanged : ¬ firstLog.rows.Perm [] := fun h => absurd h.length_eq (by decide)
  exact ((audit_chain_truthful_iff firstSha256 Unit).2.2.1 firstLog truncatedLog hintact rfl hfree hchanged report
    hreport).1

/-- The first microsecond that is no `bigint`: 294247-01-10 04:00:54.775808 UTC. -/
def pastBigint : Timestamptz := .finite ⟨9223372036854775808, by decide⟩

/-- A first row with a wrong link, and a second one at that time that continues it. -/
def hiddenRows : List AuditRow :=
  [⟨firstEvent, 1, 1, 2, by decide⟩, ⟨{ firstEvent with id := 2, occurredAt := pastBigint }, 2, 2, 3, by decide⟩]

/-- **A break is hidden**: a row whose time was rewritten raises, so nothing is reported, not even the earlier break. -/
theorem verify_chain_raises :
    ¬ ∀ (sha256 : List UInt8 → Digest) (log : AuditLog),
      ∃ report, verifyChain sha256 log = .ok report ∧ Truthful sha256 log report := by
  intro h
  have hunique : (hiddenRows.map AuditRow.chainSeq).Nodup := by decide
  obtain ⟨report, hreport, -⟩ := h (fun _ => 0) ⟨hiddenRows, ⟨2, 3⟩, hunique⟩
  have hordered : AuditLog.ordered ⟨hiddenRows, ⟨2, 3⟩, hunique⟩ = hiddenRows :=
    ordered_eq (List.Perm.refl _) (by decide)
  have hencodable := encodable_of_verified hreport [hiddenRows[0]] hiddenRows[1] [] hordered _ rfl rfl rfl
  exact absurd hencodable (by decide)

end AuditChain

end PolicySystem
