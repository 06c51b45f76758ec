import PolicySystem.Order.StableSort

/-!
# Scanning along a cursor

A table is scanned in chunks, each of the rows after the greatest key seen; the scan ends at a chunk that is not full.

* `chunk`: the rows of one query, `scan`: the loop, which visits each row;
* `scan_eq`: **the scan ends, and visits every row after the cursor once, in key order**, whatever the chunk size;
* `scan_all`: from below every key, all rows.
-/

namespace CursorScan

open StableSort

variable {α β ε : Type} (key : α → ℤ)

/-- The rows after a cursor, in key order. -/
def rowsAfter (rows : List α) (after : ℤ) : List α := sortBy key (rows.filter fun x => after < key x)

/-- The rows of one query. -/
def chunk (limit : ℕ) (rows : List α) (after : ℤ) : List α := (rowsAfter key rows after).take limit

/-- The cursor after a chunk. -/
def advance (after : ℤ) (visited : List α) : ℤ := visited.foldl (fun after x => max after (key x)) after

/-- The loop of a scan; `none` where the fuel does not suffice. -/
def scan (visit : α → Except ε β) (limit : ℕ) (rows : List α) : ℕ → ℤ → Option (Except ε (List β))
  | 0, _ => none
  | fuel + 1, after =>
    let chunk := chunk key limit rows after
    match chunk.mapM visit with
    | .error error => some (.error error)
    | .ok visited =>
      if chunk.length < limit then some (.ok visited)
      else (scan visit limit rows fuel (advance key after chunk)).map fun rest => rest.map (visited ++ ·)

variable {key} {visit : α → Except ε β} {limit : ℕ} {rows : List α}

theorem mem_rowsAfter {after : ℤ} {x : α} : x ∈ rowsAfter key rows after ↔ x ∈ rows ∧ after < key x := by
  unfold rowsAfter
  rw [(sortBy_perm _).mem_iff, List.mem_filter, decide_eq_true_eq]

theorem rowsAfter_sorted (h : (rows.map key).Nodup) (after : ℤ) :
    (rowsAfter key rows after).Pairwise fun a b => key a < key b := by
  have hne : (rowsAfter key rows after).Pairwise fun a b => key a ≠ key b := by
    refine List.pairwise_map.1 ?_
    exact (((sortBy_perm _).map key).nodup_iff).2 ((List.filter_sublist.map key).nodup h)
  exact ((sortBy_pairwise _).and hne).imp fun h => lt_of_le_of_ne h.1 h.2

/-- The cursor is the old one or a key visited, and none is greater. -/
theorem advance_spec (key : α → ℤ) (after : ℤ) (visited : List α) :
    after ≤ advance key after visited ∧ (∀ x ∈ visited, key x ≤ advance key after visited) ∧
      (advance key after visited = after ∨ ∃ x ∈ visited, advance key after visited = key x) := by
  induction visited generalizing after with
  | nil => simp [advance]
  | cons x visited ih =>
    obtain ⟨hle, hall, hcase⟩ := ih (max after (key x))
    have heq : advance key after (x :: visited) = advance key (max after (key x)) visited := rfl
    rw [heq]
    refine ⟨by omega, ?_, ?_⟩
    · intro y hy
      rcases List.mem_cons.1 hy with rfl | hy
      · omega
      · exact hall y hy
    · rcases hcase with hcase | ⟨y, hy, hcase⟩
      · rcases le_total (key x) after with hx | hx
        · exact .inl (by omega)
        · exact .inr ⟨x, List.mem_cons_self, by omega⟩
      · exact .inr ⟨y, List.mem_cons_of_mem x hy, hcase⟩

/-- After a chunk, the rows that were not in it are left. -/
theorem rowsAfter_advance (h : (rows.map key).Nodup) (limit : ℕ) (after : ℤ) :
    rowsAfter key rows (advance key after (chunk key limit rows after)) = (rowsAfter key rows after).drop limit := by
  obtain ⟨hle, hall, hcase⟩ := advance_spec key after (chunk key limit rows after)
  generalize advance key after (chunk key limit rows after) = after' at hle hall hcase
  have hsorted := rowsAfter_sorted h after
  rw [← List.take_append_drop limit (rowsAfter key rows after), List.pairwise_append] at hsorted
  have hmem : ∀ x, x ∈ rowsAfter key rows after' ↔ x ∈ (rowsAfter key rows after).drop limit := by
    intro x
    constructor
    · intro hx
      obtain ⟨hx, hafter⟩ := mem_rowsAfter.1 hx
      have hx' : x ∈ rowsAfter key rows after := mem_rowsAfter.2 ⟨hx, by omega⟩
      rw [← List.take_append_drop limit (rowsAfter key rows after)] at hx'
      rcases List.mem_append.1 hx' with hx' | hx'
      · have := hall x hx'
        omega
      · exact hx'
    · intro hx
      obtain ⟨hx', hafter⟩ := mem_rowsAfter.1 (List.mem_of_mem_drop hx)
      refine mem_rowsAfter.2 ⟨hx', ?_⟩
      rcases hcase with rfl | ⟨y, hy, rfl⟩
      · exact hafter
      · exact hsorted.2.2 y hy x hx
  have hstrict : ∀ {l : List α}, (l.Pairwise fun a b => key a < key b) → l.Nodup :=
    fun hl => hl.imp fun hlt heq => by rw [heq] at hlt; exact lt_irrefl _ hlt
  have hperm : (rowsAfter key rows after').Perm ((rowsAfter key rows after).drop limit) :=
    (List.perm_ext_iff_of_nodup (hstrict (rowsAfter_sorted h after')) (hstrict hsorted.2.1)).2 hmem
  exact hperm.eq_of_pairwise (fun a b _ _ hab hba => absurd hab (lt_asymm hba)) (rowsAfter_sorted h after') hsorted.2.1

/-- **The scan ends, and visits every row after the cursor once, in key order.** -/
theorem scan_eq (visit : α → Except ε β) (h : (rows.map key).Nodup) (hlimit : 1 ≤ limit) {fuel : ℕ} {after : ℤ}
    (hfuel : (rowsAfter key rows after).length < fuel) :
    scan key visit limit rows fuel after = some ((rowsAfter key rows after).mapM visit) := by
  induction fuel generalizing after with
  | zero => omega
  | succ fuel ih =>
    have hrest := rowsAfter_advance h limit after
    have hsplit : (rowsAfter key rows after).mapM visit = (do
        let visited ← (chunk key limit rows after).mapM visit
        let rest ← ((rowsAfter key rows after).drop limit).mapM visit
        pure (visited ++ rest)) := by
      rw [← List.mapM_append, chunk, List.take_append_drop]
    unfold scan
    simp only
    rw [hsplit]
    change (match (chunk key limit rows after).mapM visit with
      | .error error => _
      | .ok visited => _) = some ((chunk key limit rows after).mapM visit >>= _)
    cases hvisit : (chunk key limit rows after).mapM visit with
    | error error => rfl
    | ok visited =>
      simp only
      split
      · rename_i hshort
        have hlen : (rowsAfter key rows after).length < limit := by
          unfold chunk at hshort
          rw [List.length_take] at hshort
          omega
        rw [List.drop_eq_nil_of_le (by omega)]
        change _ = some (Except.ok (visited ++ []))
        rw [List.append_nil]
      · rename_i hfull
        have hlen : limit ≤ (rowsAfter key rows after).length := by
          unfold chunk at hfull
          rw [List.length_take] at hfull
          omega
        rw [ih (by rw [hrest, List.length_drop]; omega), hrest]
        cases ((rowsAfter key rows after).drop limit).mapM visit with
        | error error => rfl
        | ok rest => rfl

/-- From a cursor below every key, all rows are visited. -/
theorem scan_all (visit : α → Except ε β) (h : (rows.map key).Nodup) (hlimit : 1 ≤ limit) {start : ℤ}
    (hstart : ∀ x ∈ rows, start < key x) {fuel : ℕ} (hfuel : rows.length < fuel) :
    scan key visit limit rows fuel start = some ((sortBy key rows).mapM visit) := by
  have hrows : rowsAfter key rows start = sortBy key rows := by
    unfold rowsAfter
    rw [List.filter_eq_self.2 fun x hx => decide_eq_true (hstart x hx)]
  have hlen : (sortBy key rows).length = rows.length := (sortBy_perm rows).length_eq
  rw [scan_eq visit h hlimit (by rw [hrows]; omega), hrows]

end CursorScan
