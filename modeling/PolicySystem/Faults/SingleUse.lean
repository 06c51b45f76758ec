import Mathlib.Data.List.Pairwise
import Mathlib.Data.List.Nodup

/-!
# Single-use rows

A table of rows, some of them open, and a log of facts, some of which spend the row of a key. Where a fact that spends a
row is only logged as the row is closed, no row is spent twice.

* `Ledger.spend`, `Ledger.spendAll`: closing open rows while the facts that spend them are logged keeps the ledger;
* `Ledger.spent_once`: a key has at most one fact that spends it.
-/

namespace SingleUse

variable {K R F : Type} {key : R → K} {isOpen : R → Prop} {spends : F → Option K}

/-- Every fact that spends a key was logged once, for a row of the table that is open no more. -/
structure Ledger (key : R → K) (isOpen : R → Prop) (spends : F → Option K) (table : List R) (log : List F) : Prop where
  distinct : (table.map key).Nodup
  issued : ∀ f ∈ log, ∀ k, spends f = some k → ∃ r ∈ table, key r = k
  unspent : ∀ r ∈ table, isOpen r → ∀ f ∈ log, spends f ≠ some (key r)
  once : log.Pairwise fun f g => ∀ k, spends f = some k → spends g ≠ some k

namespace Ledger

variable {table : List R} {log : List F}

/-- Two entries that spend one key are one entry. -/
theorem spent_once (h : Ledger key isOpen spends table log) {f g : F} {k : K} (hf : f ∈ log) (hg : g ∈ log)
    (hfk : spends f = some k) (hgk : spends g = some k) : f = g := by
  by_contra hne
  have : Std.Symm fun a b : F => ∀ k, spends a = some k → spends b ≠ some k := ⟨fun a b hab k hb ha => hab k ha hb⟩
  exact h.once.forall hf hg hne k hfk hgk

/-- The row of a key is one row. -/
theorem row_unique (h : Ledger key isOpen spends table log) {r r' : R} (hr : r ∈ table) (hr' : r' ∈ table)
    (heq : key r = key r') : r = r' :=
  List.inj_on_of_nodup_map h.distinct hr hr' heq

theorem nil (hdistinct : (table.map key).Nodup) : Ledger key isOpen spends table [] :=
  ⟨hdistinct, by simp, by simp, List.Pairwise.nil⟩

/-- Rows may change and close, where they keep their keys. -/
theorem update (h : Ledger key isOpen spends table log) {g : R → R} (hkey : ∀ r, key (g r) = key r)
    (hopen : ∀ r, isOpen (g r) → isOpen r) : Ledger key isOpen spends (table.map g) log where
  distinct := by
    have heq : (table.map g).map key = table.map key := by
      rw [List.map_map]
      exact List.map_congr_left fun r _ => hkey r
    rw [heq]
    exact h.distinct
  issued := by
    intro f hf k hk
    obtain ⟨r, hr, hrk⟩ := h.issued f hf k hk
    exact ⟨g r, List.mem_map_of_mem hr, by rw [hkey, hrk]⟩
  unspent := by
    intro r hr hro f hf
    obtain ⟨r₀, hr₀, rfl⟩ := List.mem_map.1 hr
    rw [hkey]
    exact h.unspent r₀ hr₀ (hopen r₀ hro) f hf
  once := h.once

/-- A row of a new key is issued. -/
theorem issue (h : Ledger key isOpen spends table log) {r : R} (hnew : ∀ r' ∈ table, key r' ≠ key r) :
    Ledger key isOpen spends (table ++ [r]) log where
  distinct := by
    rw [List.map_append, List.map_singleton, List.nodup_append]
    refine ⟨h.distinct, List.nodup_singleton _, ?_⟩
    intro a ha b hb heq
    obtain ⟨r', hr', hra⟩ := List.mem_map.1 ha
    rw [List.mem_singleton] at hb
    exact hnew r' hr' (by rw [hra, heq, hb])
  issued := by
    intro f hf k hk
    obtain ⟨r', hr', hrk⟩ := h.issued f hf k hk
    exact ⟨r', List.mem_append_left _ hr', hrk⟩
  unspent := by
    intro r' hr' hro f hf hspent
    rcases List.mem_append.1 hr' with hr' | hr'
    · exact h.unspent r' hr' hro f hf hspent
    · rw [List.mem_singleton] at hr'
      subst hr'
      obtain ⟨r₀, hr₀, hrk⟩ := h.issued f hf _ hspent
      exact hnew r₀ hr₀ hrk
  once := h.once

/-- A fact that spends nothing is logged. -/
theorem note (h : Ledger key isOpen spends table log) {f : F} (hf : spends f = none) :
    Ledger key isOpen spends table (log ++ [f]) where
  distinct := h.distinct
  issued := by
    intro g hg k hk
    rcases List.mem_append.1 hg with hg | hg
    · exact h.issued g hg k hk
    · rw [List.mem_singleton.1 hg, hf] at hk
      cases hk
  unspent := by
    intro r hr hro g hg
    rcases List.mem_append.1 hg with hg | hg
    · exact h.unspent r hr hro g hg
    · rw [List.mem_singleton.1 hg, hf]
      simp
  once := by
    refine List.pairwise_append.2 ⟨h.once, List.pairwise_singleton _ _, ?_⟩
    intro a _ b hb k _
    rw [List.mem_singleton.1 hb, hf]
    simp

/-- **Open rows are spent.** The facts spend the keys of open rows, each once, and those rows are closed. -/
theorem spendAll (h : Ledger key isOpen spends table log) (facts : List F) {g : R → R} (hkey : ∀ r, key (g r) = key r)
    (hopen : ∀ r, isOpen (g r) → isOpen r)
    (hfacts : ∀ f ∈ facts, ∃ r ∈ table, isOpen r ∧ spends f = some (key r) ∧ ¬isOpen (g r))
    (honce : facts.Pairwise fun a b => spends a ≠ spends b) :
    Ledger key isOpen spends (table.map g) (log ++ facts) where
  distinct := (h.update hkey hopen).distinct
  issued := by
    intro f hf k hk
    rcases List.mem_append.1 hf with hf | hf
    · exact (h.update hkey hopen).issued f hf k hk
    · obtain ⟨r, hr, -, hfr, -⟩ := hfacts f hf
      rw [hk] at hfr
      exact ⟨g r, List.mem_map_of_mem hr, by rw [hkey, Option.some.inj hfr]⟩
  unspent := by
    intro r hr hro f hf hspent
    rcases List.mem_append.1 hf with hf | hf
    · exact (h.update hkey hopen).unspent r hr hro f hf hspent
    · obtain ⟨r₀, hr₀, rfl⟩ := List.mem_map.1 hr
      obtain ⟨r₁, hr₁, -, hfr, hclosed⟩ := hfacts f hf
      rw [hspent, hkey] at hfr
      have hsame : r₀ = r₁ := h.row_unique hr₀ hr₁ (Option.some.inj hfr)
      exact hclosed (hsame ▸ hro)
  once := by
    refine List.pairwise_append.2 ⟨h.once, ?_, ?_⟩
    · refine honce.imp ?_
      intro a b hab k ha hb
      exact hab (ha.trans hb.symm)
    · intro a ha b hb k hak hbk
      obtain ⟨r, hr, hro, hbr, -⟩ := hfacts b hb
      rw [hbk] at hbr
      exact h.unspent r hr hro a ha (by rw [hak, Option.some.inj hbr])

/-- **One open row is spent.** -/
theorem spend (h : Ledger key isOpen spends table log) {f : F} {g : R → R} {r : R} (hkey : ∀ r, key (g r) = key r)
    (hopen : ∀ r, isOpen (g r) → isOpen r) (hr : r ∈ table) (hro : isOpen r) (hf : spends f = some (key r))
    (hclosed : ¬isOpen (g r)) : Ledger key isOpen spends (table.map g) (log ++ [f]) := by
  refine h.spendAll [f] hkey hopen ?_ (List.pairwise_singleton _ _)
  intro f' hf'
  rw [List.mem_singleton.1 hf']
  exact ⟨r, hr, hro, hf, hclosed⟩

end Ledger

end SingleUse
