import Mathlib.Data.BitVec
import PolicySystem.Chain.HashChain
import PolicySystem.Text.Netstring

/-!
# The audit trail and its canonical form

The columns of `audit_log.audit_events`, the canonical form `ps-audit-v1` and the chain hash
(`0001_audit_log_insert_only_hash_chain.sql`). A `jsonb` is kept as the text it is shown as, a hash of 64 hexadecimal
digits as its 256 bits.

* `canonicalRow_injective`: distinct rows never share a canonical form.
-/

namespace PolicySystem

namespace AuditChain

open HashChain Text

/-! ## Columns -/

/-- A finite `timestamptz`: its microseconds in the Unix epoch, from 4713 BC to the end of the year 294276. -/
structure Instant where
  micros : ℤ
  range : -210866803200000000 ≤ micros ∧ micros < 9224318016000000000
  deriving DecidableEq

inductive Timestamptz where
  | negInfinity
  | finite (t : Instant)
  | infinity
  deriving DecidableEq

/-- `isfinite`, with the time. -/
def Timestamptz.finite? : Timestamptz → Option Instant
  | finite t => some t
  | _ => none

/-- `CHECK (outcome IN ('applied', 'rejected', 'failed'))`. -/
inductive AuditOutcome where
  | applied
  | rejected
  | failed
  deriving DecidableEq

def AuditOutcome.text : AuditOutcome → String
  | applied => "applied"
  | rejected => "rejected"
  | failed => "failed"

theorem AuditOutcome.text_injective {a b : AuditOutcome} (h : a.text = b.text) : a = b := by
  revert h
  cases a <;> cases b <;> decide

/-- The columns a row is written with. -/
structure AuditEvent where
  id : BitVec 128
  occurredAt : Timestamptz
  actorSubject : String
  actorIssuer : String
  action : String
  resourceType : String
  resourceId : String
  outcome : AuditOutcome
  /-- `details::text`. -/
  details : String
  deriving DecidableEq

/-- A SHA-256 digest; its text is 64 lower-case hexadecimal digits. -/
abbrev Digest := BitVec 256

def Digest.text (d : Digest) : String := String.ofList (hex 64 d.toNat)

/-- `genesis_hash`. -/
def genesisHash : Digest := 0

/-- A row of `audit_log.audit_events`. -/
structure AuditRow extends AuditEvent where
  chainSeq : ℕ
  prevRowHash : Digest
  rowHash : Digest
  /-- `CHECK (chain_seq >= 1)`, of a `bigint`. -/
  range : 1 ≤ chainSeq ∧ chainSeq < 2 ^ 63
  deriving DecidableEq

/-- `audit_chain_head`. -/
structure ChainHead where
  lastChainSeq : ℕ
  lastRowHash : Digest
  deriving DecidableEq

/-- What a query raises. -/
inductive SqlError where
  /-- "bigint out of range" -/
  | bigintOutOfRange
  /-- "cannot convert infinity to bigint" -/
  | infinityToBigint
  /-- `restrict_violation` of the head's guard. -/
  | headGuard
  deriving DecidableEq

/-- `::bigint`. -/
def bigint (n : ℤ) : Except SqlError ℤ := if -2 ^ 63 ≤ n ∧ n < 2 ^ 63 then .ok n else .error .bigintOutOfRange

/-- The `bigint` after a chain number. -/
def nextSeq (seq : ℕ) : Except SqlError ℕ := (bigint (seq + 1)).map Int.toNat

theorem nextSeq_ok {seq : ℕ} (h : seq + 1 < 2 ^ 63) : nextSeq seq = .ok (seq + 1) := by
  rw [nextSeq, bigint, if_pos (by omega)]
  rfl

/-! ## The canonical form -/

/-- `floor(extract(epoch FROM ...) * 1000000)::bigint`. -/
def epochMicros : Timestamptz → Except SqlError ℤ
  | .finite t => bigint t.micros
  | _ => .error .infinityToBigint

/-- `uuid::text`, in lower case as it is. -/
def uuidText (id : BitVec 128) : String :=
  let digits := hex 32 id.toNat
  String.ofList (digits.take 8 ++ '-' :: ((digits.drop 8).take 4 ++ '-' :: ((digits.drop 12).take 4 ++
    '-' :: ((digits.drop 16).take 4 ++ '-' :: digits.drop 20))))

/-- `canonical_field`. -/
def canonicalField (s : String) : List UInt8 := netstring (utf8 s)

/-- The ten fields. -/
def canonicalFields (seq : ℕ) (micros : ℤ) (e : AuditEvent) : List String :=
  [String.ofList (decimal seq), uuidText e.id, String.ofList (signed micros), e.actorSubject, e.actorIssuer, e.action,
    e.resourceType, e.resourceId, e.outcome.text, e.details]

/-- `canonical_row`. No column is nullable. -/
def canonicalRow (seq : ℕ) (e : AuditEvent) : Except SqlError (List UInt8) := do
  let micros ← epochMicros e.occurredAt
  return utf8 "ps-audit-v1" ++ (canonicalFields seq micros e).flatMap canonicalField

/-- The bytes a row's hash is taken of. -/
def hashedBytes (prev : Digest) (canonical : List UInt8) : List UInt8 := utf8 prev.text ++ canonical

/-- `chain_hash`. -/
def chainHash (sha256 : List UInt8 → Digest) (prev : Digest) (canonical : List UInt8) : Digest :=
  sha256 (hashedBytes prev canonical)

/-! ## Its text determines a row -/

/-- Its digits are those of the number. -/
theorem uuidText_digits (id : BitVec 128) : (uuidText id).toList.filter (· ≠ '-') = hex 32 id.toNat := by
  have hkeep : ∀ part : List Char, part.Sublist (hex 32 id.toNat) → part.filter (· ≠ '-') = part := by
    intro part hsub
    refine List.filter_eq_self.2 fun c hc => ?_
    simp only [decide_eq_true_eq]
    rintro rfl
    exact hyphen_not_mem_hex _ _ (hsub.subset hc)
  simp only [uuidText, String.toList_ofList, List.filter_append, List.filter_cons, ne_eq, not_true, decide_false,
    Bool.false_eq_true, if_false]
  have hrest : ∀ n, ((hex 32 id.toNat).drop n).take 4 ++ (hex 32 id.toNat).drop (n + 4) = (hex 32 id.toNat).drop n := by
    intro n
    have hsplit := List.take_append_drop 4 ((hex 32 id.toNat).drop n)
    rwa [List.drop_drop] at hsplit
  rw [hkeep _ (List.take_sublist _ _), hkeep _ ((List.take_sublist _ _).trans (List.drop_sublist _ _)),
    hkeep _ ((List.take_sublist _ _).trans (List.drop_sublist _ _)),
    hkeep _ ((List.take_sublist _ _).trans (List.drop_sublist _ _)), hkeep _ (List.drop_sublist _ _), hrest 16, hrest 12,
    hrest 8, List.take_append_drop]

theorem uuidText_injective {a b : BitVec 128} (h : uuidText a = uuidText b) : a = b := by
  have hhex := (uuidText_digits a).symm.trans ((congrArg (fun s => s.toList.filter (· ≠ '-')) h).trans (uuidText_digits b))
  exact BitVec.eq_of_toNat_eq (hex_injective a.isLt b.isLt hhex)

theorem Digest.text_injective {a b : Digest} (h : a.text = b.text) : a = b := by
  have hhex : hex 64 a.toNat = hex 64 b.toNat := String.ofList_injective h
  exact BitVec.eq_of_toNat_eq (hex_injective a.isLt b.isLt hhex)

theorem epochMicros_injective {a b : Timestamptz} {micros : ℤ} (ha : epochMicros a = .ok micros)
    (hb : epochMicros b = .ok micros) : a = b := by
  have hfinite : ∀ t, epochMicros t = .ok micros → ∃ i : Instant, t = .finite i ∧ i.micros = micros := by
    intro t ht
    cases t with
    | finite i =>
      simp only [epochMicros, bigint] at ht
      split at ht
      · exact ⟨i, rfl, Except.ok.inj ht⟩
      · cases ht
    | negInfinity => cases ht
    | infinity => cases ht
  obtain ⟨i, rfl, hi⟩ := hfinite a ha
  obtain ⟨j, rfl, hj⟩ := hfinite b hb
  cases i
  cases j
  simp only at hi hj
  simp only [hi, hj]

/-- **Distinct rows never share a canonical form.** -/
theorem canonicalRow_injective {seq seq' : ℕ} {e e' : AuditEvent} {bytes : List UInt8}
    (h : canonicalRow seq e = .ok bytes) (h' : canonicalRow seq' e' = .ok bytes) : seq = seq' ∧ e = e' := by
  have hshape : ∀ {seq : ℕ} {e : AuditEvent}, canonicalRow seq e = .ok bytes → ∃ micros,
      epochMicros e.occurredAt = .ok micros ∧
        utf8 "ps-audit-v1" ++ ((canonicalFields seq micros e).map utf8).flatMap netstring = bytes := by
    intro seq e hrow
    cases hmicros : epochMicros e.occurredAt with
    | error err =>
      rw [canonicalRow, hmicros] at hrow
      cases hrow
    | ok micros =>
      rw [canonicalRow, hmicros] at hrow
      refine ⟨micros, rfl, ?_⟩
      rw [List.flatMap_map]
      exact Except.ok.inj hrow
  obtain ⟨micros, hmicros, hbytes⟩ := hshape h
  obtain ⟨micros', hmicros', hbytes'⟩ := hshape h'
  have hfields : canonicalFields seq micros e = canonicalFields seq' micros' e' := by
    refine List.map_injective_iff.2 (fun _ _ => utf8_injective) ?_
    exact netstrings_injective (List.append_cancel_left (hbytes.trans hbytes'.symm))
  simp only [canonicalFields, List.cons.injEq, and_true] at hfields
  obtain ⟨hseq, hid, hat, hsubject, hissuer, haction, htype, hresource, houtcome, hdetails⟩ := hfields
  refine ⟨decimal_injective (String.ofList_injective hseq), ?_⟩
  have htime : e.occurredAt = e'.occurredAt := by
    rw [← signed_injective (String.ofList_injective hat)] at hmicros'
    exact epochMicros_injective hmicros hmicros'
  cases e
  cases e'
  simp only at hid htime hsubject hissuer haction htype hresource houtcome hdetails
  rw [uuidText_injective hid, htime, hsubject, hissuer, haction, htype, hresource, AuditOutcome.text_injective houtcome,
    hdetails]

end AuditChain

end PolicySystem
