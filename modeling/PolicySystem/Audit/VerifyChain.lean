import PolicySystem.Audit.Canonical

/-!
# Verifying the audit chain

`verify_chain` walks the table in `chain_seq` order, recomputes each row and compares the last one with the head. It
is modelled on one snapshot; the check of the isolation level is left out.

* `verify_truthful_iff`: it reports what is so, the lowest broken position included, exactly when no row that is
  numbered and linked right holds a finite time whose microseconds are no `bigint`;
* `rows_determined`: where no two hashed texts collide, two intact tables with one head hold the same rows.
-/

namespace PolicySystem

namespace AuditChain

open HashChain Text

/-- The audit table and the head. -/
structure AuditLog where
  rows : List AuditRow
  head : ChainHead
  /-- `UNIQUE (chain_seq)`. -/
  unique : (rows.map AuditRow.chainSeq).Nodup

/-- `ORDER BY chain_seq`. -/
def AuditLog.ordered (log : AuditLog) : List AuditRow := log.rows.mergeSort fun a b => a.chainSeq ≤ b.chainSeq

inductive BreakKind where
  | sequenceGap
  | prevHashMismatch
  | rowHashMismatch
  | headMismatch
  deriving DecidableEq

structure ChainBreak where
  kind : BreakKind
  chainSeq : Option ℕ
  id : Option (BitVec 128)
  occurredAt : Option Instant
  deriving DecidableEq

/-- The row `verify_chain` returns. -/
structure ChainReport where
  intact : Bool
  rowsChecked : ℕ
  headChainSeq : ℕ
  firstBreak : Option ChainBreak
  deriving DecidableEq

section Verify

variable (sha256 : List UInt8 → Digest)

/-- The `kind` of a row of `walk`; `lag` is the row before it. -/
def rowKind (lag : Option AuditRow) (e : AuditRow) : Except SqlError (Option BreakKind) := do
  let next ← nextSeq (lag.elim 0 AuditRow.chainSeq)
  if e.chainSeq ≠ next then return some .sequenceGap
  if e.prevRowHash ≠ lag.elim genesisHash AuditRow.rowHash then return some .prevHashMismatch
  if e.occurredAt.finite?.isNone then return some .rowHashMismatch
  let canonical ← canonicalRow e.chainSeq e.toAuditEvent
  if e.rowHash ≠ chainHash sha256 e.prevRowHash canonical then return some .rowHashMismatch
  return none

/-- `walk`: every row is computed, whatever the rows before it are. -/
def walk : Option AuditRow → List AuditRow → Except SqlError (List (AuditRow × Option BreakKind))
  | _, [] => .ok []
  | lag, e :: es => do
    let kind ← rowKind sha256 lag e
    let rest ← walk (some e) es
    return (e, kind) :: rest

/-- `first_bad`. -/
def firstBad (walked : List (AuditRow × Option BreakKind)) : Option (AuditRow × BreakKind) :=
  walked.findSome? fun item => item.2.map fun kind => (item.1, kind)

/-- `verify_chain`. -/
def verifyChain (log : AuditLog) : Except SqlError ChainReport := do
  let walked ← walk sha256 none log.ordered
  let lastSeq := walked.getLast?.elim 0 fun item => item.1.chainSeq
  let lastHash := walked.getLast?.elim genesisHash fun item => item.1.rowHash
  match firstBad walked with
  | some (e, kind) =>
    return ⟨false, walked.length, log.head.lastChainSeq,
      some ⟨kind, some e.chainSeq, some e.id, e.occurredAt.finite?⟩⟩
  | none =>
    if lastSeq ≠ log.head.lastChainSeq ∨ lastHash ≠ log.head.lastRowHash then
      return ⟨false, walked.length, log.head.lastChainSeq, some ⟨.headMismatch, none, none, none⟩⟩
    else return ⟨true, walked.length, log.head.lastChainSeq, none⟩

/-! ## What a report should say -/

/-- The hash of a row, where its columns can be encoded. -/
def rowDigest (prev : Digest) (seq : ℕ) (e : AuditEvent) : Option Digest :=
  (canonicalRow seq e).toOption.map (chainHash sha256 prev)

/-- **An intact trail**: numbered 1 to n, each row linked to the one before and the first to the genesis, each hash
recomputed from its row, and the head naming the last row. -/
structure Intact (log : AuditLog) : Prop where
  numbered : log.ordered.map AuditRow.chainSeq = List.range' 1 log.ordered.length
  linked : log.ordered.map AuditRow.prevRowHash =
    (genesisHash :: log.ordered.map AuditRow.rowHash).take log.ordered.length
  recomputed : ∀ e ∈ log.ordered, rowDigest sha256 e.prevRowHash e.chainSeq e.toAuditEvent = some e.rowHash
  head : log.head = (log.ordered.getLast?.elim ⟨0, genesisHash⟩ fun e => ⟨e.chainSeq, e.rowHash⟩ : ChainHead)

/-- A row as a link of the chain. -/
def AuditRow.link (e : AuditRow) : Link Digest AuditEvent := ⟨e.chainSeq, e.prevRowHash, e.rowHash, e.toAuditEvent⟩

def genesisTip : Tip Digest := ⟨0, genesisHash⟩

def ChainHead.tip (head : ChainHead) : Tip Digest := ⟨head.lastChainSeq, head.lastRowHash⟩

/-- Where rows end. -/
def endOf (rows : List AuditRow) : Tip Digest := tipAfter genesisTip (rows.map AuditRow.link)

/-- Rows that continue the chain from the genesis on. -/
def Unbroken (rows : List AuditRow) : Prop := Chained (rowDigest sha256) genesisTip (rows.map AuditRow.link)

/-- The first kind that applies to a row. -/
def Breaks (tip : Tip Digest) (e : AuditRow) : BreakKind → Prop
  | .sequenceGap => e.chainSeq ≠ tip.number + 1
  | .prevHashMismatch => e.chainSeq = tip.number + 1 ∧ e.prevRowHash ≠ tip.hash
  | .rowHashMismatch => e.chainSeq = tip.number + 1 ∧ e.prevRowHash = tip.hash ∧
      rowDigest sha256 e.prevRowHash e.chainSeq e.toAuditEvent ≠ some e.rowHash
  | .headMismatch => False

/-- The break to report: the lowest broken position, or else the head. -/
inductive BreakOf (log : AuditLog) : Option ChainBreak → Prop
  | intact (h : Intact sha256 log) : BreakOf log none
  | row {pre post : List AuditRow} {e : AuditRow} {kind : BreakKind} (hsplit : log.ordered = pre ++ e :: post)
      (hbefore : Unbroken sha256 pre) (hbreaks : Breaks sha256 (endOf pre) e kind) :
      BreakOf log (some ⟨kind, some e.chainSeq, some e.id, e.occurredAt.finite?⟩)
  | head (hrows : Unbroken sha256 log.ordered) (hhead : log.head.tip ≠ endOf log.ordered) :
      BreakOf log (some ⟨.headMismatch, none, none, none⟩)

/-- **A report that says what is so.** -/
structure Truthful (log : AuditLog) (report : ChainReport) : Prop where
  intact : report.intact = true ↔ Intact sha256 log
  rowsChecked : report.rowsChecked = log.rows.length
  headChainSeq : report.headChainSeq = log.head.lastChainSeq
  firstBreak : BreakOf sha256 log report.firstBreak

/-- A row numbered and linked right, at a finite time, has microseconds that are a `bigint`. -/
def EncodableAt (tip : Tip Digest) (e : AuditRow) : Prop :=
  ∀ t, e.chainSeq = tip.number + 1 → e.prevRowHash = tip.hash → e.occurredAt = .finite t → t.micros < 2 ^ 63

/-- So has every row. -/
def Encodable (log : AuditLog) : Prop :=
  ∀ pre e post, log.ordered = pre ++ e :: post → EncodableAt (endOf pre) e

end Verify

/-! ## The order -/

variable {sha256 : List UInt8 → Digest}

theorem AuditLog.ordered_perm (log : AuditLog) : log.ordered.Perm log.rows := List.mergeSort_perm _ _

/-- Chain numbers are unique, so the order is strict. -/
theorem AuditLog.ordered_lt (log : AuditLog) : log.ordered.Pairwise fun a b => a.chainSeq < b.chainSeq := by
  have hle : log.ordered.Pairwise fun a b => a.chainSeq ≤ b.chainSeq := by
    have hsorted := @List.pairwise_mergeSort _ (fun a b : AuditRow => decide (a.chainSeq ≤ b.chainSeq))
      (fun a b c hab hbc => decide_eq_true (le_trans (of_decide_eq_true hab) (of_decide_eq_true hbc)))
      (fun a b => by
        rcases le_total a.chainSeq b.chainSeq with h | h
        · simp [h]
        · simp [h])
      log.rows
    exact hsorted.imp fun h => of_decide_eq_true h
  have hne : log.ordered.Pairwise fun a b => a.chainSeq ≠ b.chainSeq :=
    List.pairwise_map.1 ((log.ordered_perm.map AuditRow.chainSeq).nodup_iff.2 log.unique)
  exact hle.imp₂ (fun a b hab hne => lt_of_le_of_ne hab hne) hne

/-! ## One row -/

/-- The end of the chain that `lag` stands for. -/
def lagTip (lag : Option AuditRow) : Tip Digest := lag.elim genesisTip fun e => e.link.tip

theorem lag_columns (lag : Option AuditRow) :
    lag.elim 0 AuditRow.chainSeq = (lagTip lag).number ∧ lag.elim genesisHash AuditRow.rowHash = (lagTip lag).hash := by
  cases lag <;> exact ⟨rfl, rfl⟩

theorem extends_iff {tip : Tip Digest} {e : AuditRow} : Extends (rowDigest sha256) tip e.link ↔
    e.chainSeq = tip.number + 1 ∧ e.prevRowHash = tip.hash ∧
      rowDigest sha256 e.prevRowHash e.chainSeq e.toAuditEvent = some e.rowHash :=
  ⟨fun h => ⟨h.number, h.follows, h.hash⟩, fun ⟨hnumber, hfollows, hhash⟩ => ⟨hnumber, hfollows, hhash⟩⟩

theorem Breaks.not_extends {tip : Tip Digest} {e : AuditRow} {kind : BreakKind} (h : Breaks sha256 tip e kind) :
    ¬ Extends (rowDigest sha256) tip e.link := by
  rw [extends_iff]
  rintro ⟨hnumber, hfollows, hhash⟩
  cases kind with
  | sequenceGap => exact h hnumber
  | prevHashMismatch => exact h.2 hfollows
  | rowHashMismatch => exact h.2.2 hhash
  | headMismatch => exact h

theorem canonicalRow_ok {seq : ℕ} {e : AuditEvent} {t : Instant} (htime : e.occurredAt = .finite t)
    (ht : t.micros < 2 ^ 63) : ∃ bytes, canonicalRow seq e = .ok bytes := by
  have hmicros : epochMicros e.occurredAt = .ok t.micros := by
    have hlow := t.range.1
    rw [htime, epochMicros, bigint, if_pos (by omega)]
  rw [canonicalRow, hmicros]
  exact ⟨_, rfl⟩

theorem canonicalRow_error {seq : ℕ} {e : AuditEvent} {t : Instant} (htime : e.occurredAt = .finite t)
    (ht : ¬ t.micros < 2 ^ 63) : canonicalRow seq e = .error .bigintOutOfRange := by
  have hmicros : epochMicros e.occurredAt = .error .bigintOutOfRange := by
    rw [htime, epochMicros, bigint, if_neg (by omega)]
  rw [canonicalRow, hmicros]
  rfl

/-- **One row of the walk**, where it is encodable. -/
theorem rowKind_ok {lag : Option AuditRow} {e : AuditRow} (hlt : (lagTip lag).number < e.chainSeq)
    (hencodable : EncodableAt (lagTip lag) e) :
    ∃ kind, rowKind sha256 lag e = .ok kind ∧ (kind = none → Extends (rowDigest sha256) (lagTip lag) e.link) ∧
      ∀ k, kind = some k → Breaks sha256 (lagTip lag) e k := by
  obtain ⟨hseq, hhash⟩ := lag_columns lag
  have hnext := @nextSeq_ok (lagTip lag).number (by have := e.range.2; omega)
  have hbroken : ∀ k, Breaks sha256 (lagTip lag) e k → (some k = none → Extends (rowDigest sha256) (lagTip lag) e.link) ∧
      ∀ k', some k = some k' → Breaks sha256 (lagTip lag) e k' := by
    intro k hk
    refine ⟨fun h => absurd h (Option.some_ne_none k), fun k' h => ?_⟩
    cases h
    exact hk
  rw [rowKind, hseq, hhash, hnext]
  simp only [bind, Except.bind, pure, Except.pure]
  by_cases hnumber : e.chainSeq = (lagTip lag).number + 1
  · rw [if_neg (not_not.2 hnumber)]
    by_cases hfollows : e.prevRowHash = (lagTip lag).hash
    · rw [if_neg (not_not.2 hfollows)]
      cases hat : e.occurredAt with
      | finite t =>
        obtain ⟨bytes, hbytes⟩ := @canonicalRow_ok e.chainSeq _ _ hat (hencodable t hnumber hfollows hat)
        have hdigest : rowDigest sha256 e.prevRowHash e.chainSeq e.toAuditEvent =
            some (chainHash sha256 e.prevRowHash bytes) := by
          rw [rowDigest, hbytes]
          rfl
        rw [hbytes]
        by_cases hrow : e.rowHash = chainHash sha256 e.prevRowHash bytes
        · refine ⟨none, by simp [Timestamptz.finite?, hrow], fun _ => ?_, fun k hk => absurd hk.symm (Option.some_ne_none k)⟩
          rw [extends_iff, hdigest, hrow]
          exact ⟨hnumber, hfollows, rfl⟩
        · refine ⟨some .rowHashMismatch, by simp [Timestamptz.finite?, hrow], hbroken _ ⟨hnumber, hfollows, fun heq => hrow ?_⟩⟩
          rw [hdigest] at heq
          exact (Option.some.inj heq).symm
      | negInfinity =>
        refine ⟨_, rfl, hbroken _ ⟨hnumber, hfollows, ?_⟩⟩
        rw [rowDigest, canonicalRow, hat]
        exact fun h => (Option.some_ne_none _) h.symm
      | infinity =>
        refine ⟨_, rfl, hbroken _ ⟨hnumber, hfollows, ?_⟩⟩
        rw [rowDigest, canonicalRow, hat]
        exact fun h => (Option.some_ne_none _) h.symm
    · rw [if_pos hfollows]
      exact ⟨_, rfl, hbroken _ ⟨hnumber, hfollows⟩⟩
  · rw [if_pos hnumber]
    exact ⟨_, rfl, hbroken _ hnumber⟩

/-- **A row that cannot be encoded stops the walk.** -/
theorem rowKind_error {lag : Option AuditRow} {e : AuditRow} (hencodable : ¬ EncodableAt (lagTip lag) e) :
    rowKind sha256 lag e = .error .bigintOutOfRange := by
  simp only [EncodableAt, not_forall, exists_prop] at hencodable
  obtain ⟨t, hnumber, hfollows, hat, ht⟩ := hencodable
  obtain ⟨hseq, hhash⟩ := lag_columns lag
  have hnext := @nextSeq_ok (lagTip lag).number (by have := e.range.2; omega)
  have hfinite : e.occurredAt.finite? = some t := by rw [hat]; rfl
  rw [rowKind, hseq, hhash, hnext]
  simp only [bind, Except.bind, pure, Except.pure, hfinite, canonicalRow_error hat ht]
  rw [if_neg (not_not.2 hnumber), if_neg (not_not.2 hfollows)]
  rfl

/-! ## The walk -/

theorem walk_cons {lag : Option AuditRow} {e : AuditRow} {es : List AuditRow} {kind : Option BreakKind}
    {rest : List (AuditRow × Option BreakKind)} (hkind : rowKind sha256 lag e = .ok kind)
    (hrest : walk sha256 (some e) es = .ok rest) : walk sha256 lag (e :: es) = .ok ((e, kind) :: rest) := by
  rw [walk, hkind]
  simp only [bind, Except.bind, hrest]
  rfl

theorem walk_ok {lag : Option AuditRow} {rows : List AuditRow}
    (hsorted : rows.Pairwise fun a b => a.chainSeq < b.chainSeq) (hlag : ∀ e ∈ rows, (lagTip lag).number < e.chainSeq)
    (hencodable : ∀ pre e post, rows = pre ++ e :: post →
      EncodableAt (tipAfter (lagTip lag) (pre.map AuditRow.link)) e) :
    ∃ walked, walk sha256 lag rows = .ok walked ∧ walked.map Prod.fst = rows ∧
      (firstBad walked = none → Chained (rowDigest sha256) (lagTip lag) (rows.map AuditRow.link)) ∧
      ∀ e k, firstBad walked = some (e, k) → ∃ pre post, rows = pre ++ e :: post ∧
        Chained (rowDigest sha256) (lagTip lag) (pre.map AuditRow.link) ∧
        Breaks sha256 (tipAfter (lagTip lag) (pre.map AuditRow.link)) e k := by
  induction rows generalizing lag with
  | nil => exact ⟨[], rfl, rfl, fun _ => trivial, fun e k h => by cases h⟩
  | cons e rows ih =>
    obtain ⟨hfirst, hrows⟩ := List.pairwise_cons.1 hsorted
    obtain ⟨kind, hkind, hnone, hsome⟩ := @rowKind_ok sha256 _ _ (hlag e List.mem_cons_self)
      (hencodable [] e rows rfl)
    obtain ⟨rest, hrest, hfst, hchained, hbroken⟩ := @ih (some e) hrows hfirst fun pre e' post heq =>
      hencodable (e :: pre) e' post (by rw [heq, List.cons_append])
    refine ⟨_, walk_cons hkind hrest, by rw [List.map_cons, hfst], fun hbad => ?_, fun e' k hbad => ?_⟩
    · cases kind with
      | none =>
        rw [firstBad, List.findSome?_cons] at hbad
        exact ⟨hnone rfl, hchained hbad⟩
      | some k => cases hbad
    · cases kind with
      | none =>
        rw [firstBad, List.findSome?_cons] at hbad
        obtain ⟨pre, post, rfl, hpre, hbreaks⟩ := hbroken e' k hbad
        exact ⟨e :: pre, post, rfl, ⟨hnone rfl, hpre⟩, hbreaks⟩
      | some k' =>
        cases hbad
        exact ⟨[], rows, rfl, trivial, hsome _ rfl⟩

/-- One row that cannot be encoded, and nothing is reported. -/
theorem walk_error {lag : Option AuditRow} {pre post : List AuditRow} {e : AuditRow}
    (hencodable : ¬ EncodableAt (tipAfter (lagTip lag) (pre.map AuditRow.link)) e) :
    ∃ err, walk sha256 lag (pre ++ e :: post) = .error err := by
  induction pre generalizing lag with
  | nil =>
    rw [List.nil_append, walk, rowKind_error hencodable]
    exact ⟨_, rfl⟩
  | cons a pre ih =>
    obtain ⟨err, herr⟩ := @ih (some a) hencodable
    rw [List.cons_append, walk]
    cases hkind : rowKind sha256 lag a with
    | error err' => exact ⟨_, rfl⟩
    | ok kind =>
      simp only [bind, Except.bind, herr]
      exact ⟨_, rfl⟩

/-! ## Intact -/

theorem chained_rows_iff {tip : Tip Digest} {rows : List AuditRow} :
    Chained (rowDigest sha256) tip (rows.map AuditRow.link) ↔
      rows.map AuditRow.chainSeq = List.range' (tip.number + 1) rows.length ∧
        rows.map AuditRow.prevRowHash = (tip.hash :: rows.map AuditRow.rowHash).take rows.length ∧
        ∀ e ∈ rows, rowDigest sha256 e.prevRowHash e.chainSeq e.toAuditEvent = some e.rowHash := by
  induction rows generalizing tip with
  | nil => simp [Chained, Along]
  | cons e rows ih =>
    have hcons : Chained (rowDigest sha256) tip ((e :: rows).map AuditRow.link) ↔
        Extends (rowDigest sha256) tip e.link ∧ Chained (rowDigest sha256) e.link.tip (rows.map AuditRow.link) := Iff.rfl
    rw [hcons, extends_iff, ih]
    simp only [List.map_cons, List.length_cons, List.range'_succ, List.cons.injEq, List.take_succ_cons, List.forall_mem_cons]
    have htip : e.link.tip.number = e.chainSeq ∧ e.link.tip.hash = e.rowHash := ⟨rfl, rfl⟩
    rw [htip.1, htip.2]
    constructor
    · rintro ⟨⟨hnumber, hfollows, hhash⟩, hnumbers, hlinks, hhashes⟩
      exact ⟨⟨hnumber, hnumber ▸ hnumbers⟩, ⟨hfollows, hlinks⟩, hhash, hhashes⟩
    · rintro ⟨⟨hnumber, hnumbers⟩, ⟨hfollows, hlinks⟩, hhash, hhashes⟩
      exact ⟨⟨hnumber, hfollows, hhash⟩, hnumber ▸ hnumbers, hlinks, hhashes⟩

theorem endOf_eq (rows : List AuditRow) : endOf rows = rows.getLast?.elim genesisTip fun e => e.link.tip := by
  obtain rfl | ⟨init, e, rfl⟩ := rows.eq_nil_or_concat'
  · rfl
  · rw [endOf, List.map_append, List.map_singleton, tipAfter_concat, List.getLast?_concat]
    rfl

theorem ChainHead.tip_injective {a b : ChainHead} (h : a.tip = b.tip) : a = b := by
  obtain ⟨hseq, hhash⟩ := Tip.mk.inj h
  cases a
  cases b
  simp only at hseq hhash
  rw [hseq, hhash]

/-- An intact trail is an unbroken chain that ends at the head. -/
theorem intact_iff {log : AuditLog} : Intact sha256 log ↔ Unbroken sha256 log.ordered ∧ log.head.tip = endOf log.ordered := by
  have hhead : log.head = (log.ordered.getLast?.elim ⟨0, genesisHash⟩ fun e => ⟨e.chainSeq, e.rowHash⟩ : ChainHead) ↔
      log.head.tip = endOf log.ordered := by
    have htip : (log.ordered.getLast?.elim ⟨0, genesisHash⟩ fun e => ⟨e.chainSeq, e.rowHash⟩ : ChainHead).tip =
        endOf log.ordered := by
      rw [endOf_eq]
      cases log.ordered.getLast? <;> rfl
    rw [← htip]
    exact ⟨congrArg _, ChainHead.tip_injective⟩
  rw [Unbroken, chained_rows_iff]
  constructor
  · rintro ⟨hnumbered, hlinked, hrecomputed, hnamed⟩
    exact ⟨⟨hnumbered, hlinked, hrecomputed⟩, hhead.1 hnamed⟩
  · rintro ⟨⟨hnumbered, hlinked, hrecomputed⟩, hnamed⟩
    exact ⟨hnumbered, hlinked, hrecomputed, hhead.2 hnamed⟩

theorem encodable_of_verified {log : AuditLog} {report : ChainReport} (h : verifyChain sha256 log = .ok report) :
    Encodable log := by
  intro pre e post hsplit
  by_contra hnot
  obtain ⟨err, herr⟩ := @walk_error sha256 none _ post _ hnot
  rw [verifyChain, hsplit, herr] at h
  cases h

/-- **The report says what is so** exactly when every row that is numbered and linked right can be encoded. -/
theorem verify_truthful {log : AuditLog} :
    (∃ report, verifyChain sha256 log = .ok report ∧ Truthful sha256 log report) ↔ Encodable log := by
  constructor
  · rintro ⟨report, hreport, -⟩
    exact encodable_of_verified hreport
  · intro hencodable
    obtain ⟨walked, hwalked, hfst, hchained, hbroken⟩ := @walk_ok sha256 none _ log.ordered_lt
      (fun e _ => e.range.1) hencodable
    have hlength : walked.length = log.rows.length := by
      rw [← log.ordered_perm.length_eq, ← hfst, List.length_map]
    have hlast : walked.getLast?.map Prod.fst = log.ordered.getLast? := by rw [← hfst, List.getLast?_map]
    rw [verifyChain, hwalked]
    simp only [bind, Except.bind, pure, Except.pure]
    cases hbad : firstBad walked with
    | some item =>
      obtain ⟨e, kind⟩ := item
      obtain ⟨pre, post, hsplit, hpre, hbreaks⟩ := hbroken e kind hbad
      refine ⟨_, rfl, ⟨?_, hlength, rfl, .row hsplit hpre hbreaks⟩⟩
      refine iff_of_false Bool.false_ne_true fun hintact => hbreaks.not_extends ?_
      have hall := (intact_iff.1 hintact).1
      rw [hsplit, Unbroken, List.map_append, Chained, along_append] at hall
      exact hall.2.1
    | none =>
      have hrows : Unbroken sha256 log.ordered := hchained hbad
      have htip : log.head.tip = endOf log.ordered ↔
          ¬ (walked.getLast?.elim 0 (fun item => item.1.chainSeq) ≠ log.head.lastChainSeq ∨
            walked.getLast?.elim genesisHash (fun item => item.1.rowHash) ≠ log.head.lastRowHash) := by
        rw [endOf_eq, ← hlast, not_or, not_not, not_not]
        cases walked.getLast? with
        | none => exact ⟨fun h => ⟨(congrArg Tip.number h).symm, (congrArg Tip.hash h).symm⟩,
            fun h => Tip.ext h.1.symm h.2.symm⟩
        | some item => exact ⟨fun h => ⟨(congrArg Tip.number h).symm, (congrArg Tip.hash h).symm⟩,
            fun h => Tip.ext h.1.symm h.2.symm⟩
      dsimp only
      split
      · rename_i hmismatch
        have hne : log.head.tip ≠ endOf log.ordered := fun heq => htip.1 heq hmismatch
        refine ⟨_, rfl, ⟨iff_of_false Bool.false_ne_true fun hintact => ?_, hlength, rfl, .head hrows hne⟩⟩
        exact hne (intact_iff.1 hintact).2
      · rename_i hmatch
        have hintact : Intact sha256 log := intact_iff.2 ⟨hrows, htip.2 hmatch⟩
        exact ⟨_, rfl, ⟨iff_of_true rfl hintact, hlength, rfl, .intact hintact⟩⟩

/-! ## Tampering -/

/-- The bytes that are hashed for the rows of a trail. -/
def hashedTexts (log : AuditLog) : Set (List UInt8) :=
  {bytes | ∃ e ∈ log.rows, ∃ canonical, canonicalRow e.chainSeq e.toAuditEvent = .ok canonical ∧
    bytes = hashedBytes e.prevRowHash canonical}

theorem hashedBytes_injective {prev prev' : Digest} {canonical canonical' : List UInt8}
    (h : hashedBytes prev canonical = hashedBytes prev' canonical') : prev = prev' ∧ canonical = canonical' := by
  have hlength : (utf8 prev.text).length = (utf8 prev'.text).length := by
    rw [Digest.text, Digest.text, length_utf8_hex, length_utf8_hex]
  obtain ⟨hprev, hcanonical⟩ := List.append_inj h hlength
  exact ⟨Digest.text_injective (utf8_injective hprev), hcanonical⟩

theorem AuditRow.link_injective {a b : AuditRow} (h : a.link = b.link) : a = b := by
  obtain ⟨hseq, hprev, hhash, hevent⟩ := Link.mk.inj h
  cases a
  cases b
  simp only at hseq hprev hhash hevent
  subst hseq hprev hhash hevent
  rfl

/-- **Two intact trails with one head hold the same rows**, where no two of their hashed texts collide. -/
theorem rows_determined {log log' : AuditLog} (hintact : Intact sha256 log) (hintact' : Intact sha256 log')
    (hhead : log.head = log'.head) (hfree : Set.InjOn sha256 (hashedTexts log ∪ hashedTexts log')) :
    log.rows.Perm log'.rows := by
  obtain ⟨hchained, hend⟩ := intact_iff.1 hintact
  obtain ⟨hchained', hend'⟩ := intact_iff.1 hintact'
  have htext : ∀ (l : AuditLog), Intact sha256 l → ∀ e ∈ l.ordered, ∃ canonical,
      canonicalRow e.chainSeq e.toAuditEvent = .ok canonical ∧ hashedBytes e.prevRowHash canonical ∈ hashedTexts l ∧
        rowDigest sha256 e.prevRowHash e.chainSeq e.toAuditEvent = some (sha256 (hashedBytes e.prevRowHash canonical)) := by
    intro l hl e he
    have hdigest := hl.recomputed e he
    cases hcanonical : canonicalRow e.chainSeq e.toAuditEvent with
    | error err =>
      rw [rowDigest, hcanonical] at hdigest
      cases hdigest
    | ok canonical =>
      refine ⟨canonical, rfl, ⟨e, l.ordered_perm.mem_iff.1 he, canonical, hcanonical, rfl⟩, ?_⟩
      rw [rowDigest, hcanonical]
      rfl
  have hlinks : log.ordered.map AuditRow.link = log'.ordered.map AuditRow.link := by
    refine hchained.unique hchained' (fun x hx y hy hsame => ?_) (hend.symm.trans ((congrArg _ hhead).trans hend'))
    obtain ⟨e, he, rfl⟩ := List.mem_map.1 hx
    obtain ⟨e', he', rfl⟩ := List.mem_map.1 hy
    obtain ⟨canonical, hcanonical, hmem, hdigest⟩ := htext log hintact e he
    obtain ⟨canonical', hcanonical', hmem', hdigest'⟩ := htext log' hintact' e' he'
    have hhash := hdigest.symm.trans (hsame.trans hdigest')
    obtain ⟨hprev, hbytes⟩ := hashedBytes_injective (hfree (.inl hmem) (.inr hmem') (Option.some.inj hhash))
    obtain ⟨hseq, hevent⟩ := canonicalRow_injective hcanonical (hbytes ▸ hcanonical')
    exact ⟨hprev, hseq, hevent⟩
  have hordered := List.map_injective_iff.2 (fun _ _ => AuditRow.link_injective) hlinks
  exact log.ordered_perm.symm.trans (hordered ▸ log'.ordered_perm)

end AuditChain

end PolicySystem
