import Mathlib

/-!
# Transactions under READ COMMITTED

A table of rows under a unique key and an append-only log, written by concurrent transactions. A statement sees the rows
committed when it starts; a row that a transaction inserted or deleted is locked until the transaction ends, and so are
the named locks it took and the end of the log once it appended. An update of a statement that finds a row locked waits,
that is, is not enabled.

* `Db.insert`, `Db.delete`, `Db.append`, `Db.acquire`, `Db.commit`, `Db.rollback`: what a transaction does;
* `Db.Sound`: locks and pending changes agree, and the log's entries stand at their positions;
* `Db.mem_commit`: what a commit makes of the rows.
-/

namespace Sql

/-- A pending change of a row. -/
inductive Change where
  | insert
  | delete
  deriving DecidableEq

/-- What a transaction has changed and appended, not yet committed. An entry of the log has its position. -/
structure Tx (κ ε : Type) where
  pending : List (κ × Change) := []
  appended : List (ℕ × ε) := []

/-- The committed rows with the version of each key, the committed log, the locks and the open transactions. -/
structure Db (κ ε ι : Type) where
  rows : Finset κ
  version : κ → ℕ
  log : List (ℕ × ε)
  rowLock : κ → Option ℕ
  logLock : Option ℕ
  lock : ι → Option ℕ
  tx : ℕ → Tx κ ε

set_option linter.unusedSectionVars false

variable {κ ε ι : Type} [DecidableEq κ] [DecidableEq ι]

namespace Db

/-- A database without rows. -/
def empty : Db κ ε ι := ⟨∅, fun _ => 0, [], fun _ => none, none, fun _ => none, fun _ => {}⟩

/-- What a statement that starts now sees of a key: the version of its row. -/
def seen (db : Db κ ε ι) (k : κ) : Option ℕ := if k ∈ db.rows then some (db.version k) else none

/-- Change a row in a transaction. -/
def change (db : Db κ ε ι) (i : ℕ) (k : κ) (c : Change) : Db κ ε ι :=
  { db with
    rowLock := Function.update db.rowLock k (some i)
    tx := Function.update db.tx i { db.tx i with pending := (db.tx i).pending ++ [(k, c)] } }

/-- `INSERT … ON CONFLICT DO NOTHING`: it waits for the row's lock and leaves a row that is there. -/
def insert (db : Db κ ε ι) (i : ℕ) (k : κ) : Option (Db κ ε ι) :=
  match db.rowLock k with
  | some _ => none
  | none => if k ∈ db.rows then some db else some (db.change i k .insert)

/-- `DELETE` of a key, of the row version it saw when it started: it waits for that row's lock, and deletes nothing where
there was no row or the row is gone. -/
def delete (db : Db κ ε ι) (i : ℕ) (k : κ) (saw : Option ℕ) : Option (Db κ ε ι) :=
  if saw ≠ none ∧ db.seen k = saw then
    match db.rowLock k with
    | some _ => none
    | none => some (db.change i k .delete)
  else some db

/-- Take a named lock, held to the end of the transaction. -/
def acquire (db : Db κ ε ι) (i : ℕ) (l : ι) : Option (Db κ ε ι) :=
  match db.lock l with
  | some _ => none
  | none => some { db with lock := Function.update db.lock l (some i) }

/-- Append to the log under the lock of its end. -/
def append (db : Db κ ε ι) (i : ℕ) (e : ε) : Option (Db κ ε ι) :=
  if db.logLock = none ∨ db.logLock = some i then
    let entry := (db.log.length + (db.tx i).appended.length + 1, e)
    some { db with
      logLock := some i
      tx := Function.update db.tx i { db.tx i with appended := (db.tx i).appended ++ [entry] } }
  else none

/-- End a transaction: its locks are released. -/
def release (db : Db κ ε ι) (i : ℕ) : Db κ ε ι :=
  { db with
    rowLock := fun k => if db.rowLock k = some i then none else db.rowLock k
    logLock := if db.logLock = some i then none else db.logLock
    lock := fun l => if db.lock l = some i then none else db.lock l
    tx := Function.update db.tx i {} }

def rollback (db : Db κ ε ι) (i : ℕ) : Db κ ε ι := db.release i

/-- The rows with a transaction's changes. -/
def apply (pending : List (κ × Change)) (rows : Finset κ) : Finset κ :=
  rows.filter (fun k => (k, Change.delete) ∉ pending) ∪ ((pending.filter (·.2 = .insert)).map Prod.fst).toFinset

/-- Its changes and entries take effect, and the transaction ends. -/
def commit (db : Db κ ε ι) (i : ℕ) : Db κ ε ι :=
  { db.release i with
    rows := apply (db.tx i).pending db.rows
    version := fun k => if (k, Change.insert) ∈ (db.tx i).pending then db.version k + 1 else db.version k
    log := db.log ++ (db.tx i).appended }

/-! ## What each operation leaves -/

section Frame

variable {db : Db κ ε ι} {i j : ℕ} {k : κ} {c : Change} {l : ι}

@[simp] theorem change_rows : (db.change i k c).rows = db.rows := rfl

@[simp] theorem change_log : (db.change i k c).log = db.log := rfl

@[simp] theorem change_lock : (db.change i k c).lock = db.lock := rfl

@[simp] theorem change_tx_self :
    (db.change i k c).tx i = { db.tx i with pending := (db.tx i).pending ++ [(k, c)] } := Function.update_self ..

@[simp] theorem change_tx_of_ne (h : j ≠ i) : (db.change i k c).tx j = db.tx j := Function.update_of_ne h ..

@[simp] theorem release_rows : (db.release i).rows = db.rows := rfl

@[simp] theorem release_log : (db.release i).log = db.log := rfl

@[simp] theorem release_tx_self : (db.release i).tx i = {} := Function.update_self ..

@[simp] theorem release_tx_of_ne (h : j ≠ i) : (db.release i).tx j = db.tx j := Function.update_of_ne h ..

theorem release_lock : (db.release i).lock l = some j ↔ db.lock l = some j ∧ j ≠ i := by
  change (if db.lock l = some i then none else db.lock l) = some j ↔ _
  by_cases h : db.lock l = some i
  · rw [if_pos h, h]
    simp only [Option.some.injEq, reduceCtorEq, false_iff, not_and, not_not]
    intro heq
    exact heq.symm
  · rw [if_neg h]
    constructor
    · intro hlock
      refine ⟨hlock, ?_⟩
      rintro rfl
      exact h hlock
    · exact And.left

@[simp] theorem commit_log : (db.commit i).log = db.log ++ (db.tx i).appended := rfl

@[simp] theorem commit_tx_self : (db.commit i).tx i = {} := Function.update_self ..

@[simp] theorem commit_tx_of_ne (h : j ≠ i) : (db.commit i).tx j = db.tx j := Function.update_of_ne h ..

theorem commit_lock : (db.commit i).lock l = some j ↔ db.lock l = some j ∧ j ≠ i := release_lock

end Frame

/-! ## Soundness -/

/-- Locks and pending changes agree; entries stand at their positions. -/
structure Sound (db : Db κ ε ι) : Prop where
  locked : ∀ k i, db.rowLock k = some i ↔ ∃ c, (k, c) ∈ (db.tx i).pending
  once : ∀ i, ((db.tx i).pending.map Prod.fst).Nodup
  inserted : ∀ i k, (k, Change.insert) ∈ (db.tx i).pending → k ∉ db.rows
  deleted : ∀ i k, (k, Change.delete) ∈ (db.tx i).pending → k ∈ db.rows
  appending : ∀ i, (db.tx i).appended ≠ [] → db.logLock = some i
  positions : db.log.map Prod.fst = List.range' 1 db.log.length
  places : ∀ i, (db.tx i).appended.map Prod.fst = List.range' (db.log.length + 1) (db.tx i).appended.length

variable {db db' : Db κ ε ι} {i j : ℕ} {k : κ} {c : Change} {l : ι}

theorem sound_empty : (empty : Db κ ε ι).Sound where
  locked k i := by simp [empty]
  once i := List.nodup_nil
  inserted i k h := by cases h
  deleted i k h := by cases h
  appending i h := absurd rfl h
  positions := rfl
  places i := rfl

/-- A key is pending in one transaction. -/
theorem Sound.alone (h : db.Sound) {c' : Change} (hi : (k, c) ∈ (db.tx i).pending) (hj : (k, c') ∈ (db.tx j).pending) :
    i = j := by
  have hlock := (h.locked k i).2 ⟨c, hi⟩
  rw [(h.locked k j).2 ⟨c', hj⟩] at hlock
  exact (Option.some.inj hlock).symm

theorem Sound.change (h : db.Sound) (hfree : db.rowLock k = none) (hinsert : c = .insert → k ∉ db.rows)
    (hdelete : c = .delete → k ∈ db.rows) : (db.change i k c).Sound := by
  have hno : ∀ j c', (k, c') ∉ (db.tx j).pending := by
    intro j c' hmem
    have hlock := (h.locked k j).2 ⟨c', hmem⟩
    rw [hfree] at hlock
    cases hlock
  have htx : ∀ j, ((db.change i k c).tx j).appended = (db.tx j).appended ∧
      ∀ p, p ∈ ((db.change i k c).tx j).pending ↔ p ∈ (db.tx j).pending ∨ j = i ∧ p = (k, c) := by
    intro j
    unfold Db.change
    by_cases hj : j = i
    · subst hj
      simp
    · simp [hj]
  refine ⟨?_, ?_, ?_, ?_, ?_, h.positions, ?_⟩
  · intro k' j
    have hlocked := h.locked k' j
    simp only [(htx j).2]
    unfold Db.change
    by_cases hk : k' = k
    · subst hk
      simp only [Function.update_self, Option.some.injEq]
      constructor
      · rintro rfl
        exact ⟨c, .inr ⟨rfl, rfl⟩⟩
      · rintro ⟨c', hmem | ⟨rfl, -⟩⟩
        · exact absurd hmem (hno j c')
        · rfl
    · simp only [Function.update_of_ne hk, hlocked]
      constructor
      · rintro ⟨c', hmem⟩
        exact ⟨c', .inl hmem⟩
      · rintro ⟨c', hmem | ⟨-, heq⟩⟩
        · exact ⟨c', hmem⟩
        · exact absurd (Prod.mk.inj heq).1 hk
  · intro j
    unfold Db.change
    by_cases hj : j = i
    · subst hj
      simp only [Function.update_self, List.map_append, List.map_singleton]
      rw [← List.concat_eq_append]
      refine (h.once j).concat fun hmem => ?_
      obtain ⟨p, hp, hkey⟩ := List.mem_map.1 hmem
      exact hno j p.2 (hkey ▸ hp)
    · simp only [Function.update_of_ne hj]
      exact h.once j
  · intro j k' hmem
    rcases ((htx j).2 _).1 hmem with hmem | ⟨-, heq⟩
    · exact h.inserted j k' hmem
    · obtain ⟨rfl, rfl⟩ := Prod.mk.inj heq
      exact hinsert rfl
  · intro j k' hmem
    rcases ((htx j).2 _).1 hmem with hmem | ⟨-, heq⟩
    · exact h.deleted j k' hmem
    · obtain ⟨rfl, rfl⟩ := Prod.mk.inj heq
      exact hdelete rfl
  · intro j
    rw [(htx j).1]
    exact h.appending j
  · intro j
    rw [(htx j).1]
    exact h.places j

/-- What an insert does. -/
theorem insert_cases (h : db.insert i k = some db') :
    (k ∈ db.rows ∧ db' = db) ∨ k ∉ db.rows ∧ db.rowLock k = none ∧ db' = db.change i k .insert := by
  unfold Db.insert at h
  split at h
  · cases h
  · rename_i hfree
    split at h
    · rename_i hmem
      exact .inl ⟨hmem, (Option.some.inj h).symm⟩
    · rename_i hmem
      exact .inr ⟨hmem, hfree, (Option.some.inj h).symm⟩

/-- What a delete does. -/
theorem delete_cases {saw : Option ℕ} (h : db.delete i k saw = some db') :
    (¬ (saw ≠ none ∧ db.seen k = saw) ∧ db' = db) ∨ k ∈ db.rows ∧ db.rowLock k = none ∧ db' = db.change i k .delete := by
  unfold Db.delete at h
  split at h
  · rename_i hsaw
    split at h
    · cases h
    · rename_i hfree
      refine .inr ⟨?_, hfree, (Option.some.inj h).symm⟩
      by_contra hout
      unfold seen at hsaw
      rw [if_neg hout] at hsaw
      exact hsaw.1 hsaw.2.symm
  · rename_i hsaw
    exact .inl ⟨hsaw, (Option.some.inj h).symm⟩

theorem Sound.insert (h : db.Sound) (hinsert : db.insert i k = some db') : db'.Sound := by
  rcases insert_cases hinsert with ⟨-, rfl⟩ | ⟨hout, hfree, rfl⟩
  · exact h
  · exact h.change hfree (fun _ => hout) fun hc => by cases hc

theorem Sound.delete {saw : Option ℕ} (h : db.Sound) (hdelete : db.delete i k saw = some db') : db'.Sound := by
  rcases delete_cases hdelete with ⟨-, rfl⟩ | ⟨hmem, hfree, rfl⟩
  · exact h
  · exact h.change hfree (fun hc => by cases hc) fun _ => hmem

theorem acquire_cases (h : db.acquire i l = some db') :
    db.lock l = none ∧ db' = { db with lock := Function.update db.lock l (some i) } := by
  unfold Db.acquire at h
  split at h
  · cases h
  · rename_i hfree
    exact ⟨hfree, (Option.some.inj h).symm⟩

theorem acquire_lock (h : db.acquire i l = some db') : db'.lock l = some i := by
  obtain ⟨-, rfl⟩ := acquire_cases h
  exact Function.update_self ..

theorem Sound.acquire (h : db.Sound) (hacquire : db.acquire i l = some db') : db'.Sound := by
  obtain ⟨-, rfl⟩ := acquire_cases hacquire
  exact ⟨h.locked, h.once, h.inserted, h.deleted, h.appending, h.positions, h.places⟩

theorem append_cases {e : ε} (h : db.append i e = some db') :
    (db.logLock = none ∨ db.logLock = some i) ∧ db' =
      { db with
        logLock := some i
        tx := Function.update db.tx i { db.tx i with
          appended := (db.tx i).appended ++ [(db.log.length + (db.tx i).appended.length + 1, e)] } } := by
  unfold Db.append at h
  split at h
  · rename_i hfree
    exact ⟨hfree, (Option.some.inj h).symm⟩
  · cases h

theorem Sound.append {e : ε} (h : db.Sound) (happend : db.append i e = some db') : db'.Sound := by
  obtain ⟨hfree, rfl⟩ := append_cases happend
  have hpending : ∀ j, (Function.update db.tx i { db.tx i with
      appended := (db.tx i).appended ++ [(db.log.length + (db.tx i).appended.length + 1, e)] } j).pending =
      (db.tx j).pending := by
    intro j
    by_cases hj : j = i
    · subst hj
      rw [Function.update_self]
    · rw [Function.update_of_ne hj]
  refine ⟨?_, ?_, ?_, ?_, ?_, h.positions, ?_⟩
  · intro k j
    simp only [hpending]
    exact h.locked k j
  · intro j
    simp only [hpending]
    exact h.once j
  · intro j k
    simp only [hpending]
    exact h.inserted j k
  · intro j k
    simp only [hpending]
    exact h.deleted j k
  · intro j hne
    by_cases hj : j = i
    · rw [hj]
    · simp only [Function.update_of_ne hj] at hne
      have hlock := h.appending j hne
      rcases hfree with hfree | hfree
      · rw [hfree] at hlock
        cases hlock
      · rw [hfree] at hlock
        exact absurd (Option.some.inj hlock).symm hj
  · intro j
    by_cases hj : j = i
    · subst hj
      simp only [Function.update_self, List.map_append, List.map_singleton, List.length_append, List.length_singleton]
      rw [h.places, List.range'_concat, Nat.one_mul, Nat.add_right_comm]
    · simp only [Function.update_of_ne hj]
      exact h.places j

theorem mem_apply {pending : List (κ × Change)} {rows : Finset κ} :
    k ∈ apply pending rows ↔ (k ∈ rows ∧ (k, Change.delete) ∉ pending) ∨ (k, Change.insert) ∈ pending := by
  unfold apply
  simp only [Finset.mem_union, Finset.mem_filter, List.mem_toFinset, List.mem_map, List.mem_filter, decide_eq_true_eq]
  refine or_congr_right ?_
  constructor
  · rintro ⟨⟨k', c'⟩, ⟨hmem, rfl⟩, rfl⟩
    exact hmem
  · intro hmem
    exact ⟨(k, .insert), ⟨hmem, rfl⟩, rfl⟩

/-- **What a commit makes of the rows.** -/
theorem mem_commit : k ∈ (db.commit i).rows ↔
    (k ∈ db.rows ∧ (k, Change.delete) ∉ (db.tx i).pending) ∨ (k, Change.insert) ∈ (db.tx i).pending := mem_apply

/-- A transaction that ends leaves the others' changes, entries and locks. -/
theorem Sound.others (h : db.Sound) {rows : Finset κ} {version : κ → ℕ} {log : List (ℕ × ε)}
    (hrows : ∀ j ≠ i, ∀ k c, (k, c) ∈ (db.tx j).pending → (k ∈ rows ↔ k ∈ db.rows))
    (hpositions : log.map Prod.fst = List.range' 1 log.length)
    (hlog : ∀ j ≠ i, (db.tx j).appended ≠ [] → log = db.log) :
    ({ db.release i with rows := rows, version := version, log := log } : Db κ ε ι).Sound := by
  have htx : ∀ j, j ≠ i → (Function.update db.tx i {} j) = db.tx j := fun j hj => Function.update_of_ne hj _ _
  have hself : Function.update db.tx i {} i = {} := Function.update_self ..
  refine ⟨?_, ?_, ?_, ?_, ?_, hpositions, ?_⟩
  · intro k j
    change (if db.rowLock k = some i then none else db.rowLock k) = some j ↔
      ∃ c, (k, c) ∈ (Function.update db.tx i {} j).pending
    by_cases hj : j = i
    · subst hj
      rw [hself]
      constructor
      · intro heq
        split at heq
        · cases heq
        · rename_i hne
          exact absurd heq hne
      · rintro ⟨c, hmem⟩
        cases hmem
    · rw [htx j hj, ← h.locked k j]
      constructor
      · intro heq
        split at heq
        · cases heq
        · exact heq
      · intro heq
        rw [if_neg]
        · exact heq
        · rw [heq]
          intro hsame
          exact hj (Option.some.inj hsame)
  · intro j
    change ((Function.update db.tx i {} j).pending.map Prod.fst).Nodup
    by_cases hj : j = i
    · rw [hj, hself]
      exact List.nodup_nil
    · rw [htx j hj]
      exact h.once j
  · intro j k hmem
    change (k, Change.insert) ∈ (Function.update db.tx i {} j).pending at hmem
    by_cases hj : j = i
    · rw [hj, hself] at hmem
      cases hmem
    · rw [htx j hj] at hmem
      rw [show k ∈ _ ↔ k ∈ db.rows from hrows j hj k _ hmem]
      exact h.inserted j k hmem
  · intro j k hmem
    change (k, Change.delete) ∈ (Function.update db.tx i {} j).pending at hmem
    by_cases hj : j = i
    · rw [hj, hself] at hmem
      cases hmem
    · rw [htx j hj] at hmem
      exact (hrows j hj k _ hmem).2 (h.deleted j k hmem)
  · intro j hne
    change (Function.update db.tx i {} j).appended ≠ [] at hne
    change (if db.logLock = some i then none else db.logLock) = some j
    by_cases hj : j = i
    · rw [hj, hself] at hne
      exact absurd rfl hne
    · rw [htx j hj] at hne
      have hlock := h.appending j hne
      rw [hlock, if_neg]
      intro hsame
      exact hj (Option.some.inj hsame)
  · intro j
    change (Function.update db.tx i {} j).appended.map Prod.fst =
      List.range' (log.length + 1) (Function.update db.tx i {} j).appended.length
    by_cases hj : j = i
    · rw [hj, hself]
      rfl
    · rw [htx j hj]
      by_cases hne : (db.tx j).appended = []
      · rw [hne]
        rfl
      · rw [hlog j hj hne]
        exact h.places j

theorem Sound.rollback (h : db.Sound) : (db.rollback i).Sound :=
  h.others (fun _ _ _ _ _ => Iff.rfl) h.positions fun _ _ _ => rfl

theorem Sound.commit (h : db.Sound) : (db.commit i).Sound := by
  refine h.others ?_ ?_ ?_
  · intro j hj k c hmem
    have hno : ∀ c', (k, c') ∉ (db.tx i).pending := fun c' hi => hj (h.alone hmem hi)
    rw [mem_apply]
    simp [hno]
  · rw [List.map_append, h.positions, h.places, List.length_append, Nat.add_comm db.log.length 1]
    exact List.range'_append_1
  · intro j hj hne
    have hlock := h.appending j hne
    have hnil : (db.tx i).appended = [] := by
      by_contra hi
      rw [h.appending i hi] at hlock
      exact hj (Option.some.inj hlock).symm
    rw [hnil, List.append_nil]

end Db

end Sql
