import Mathlib.Data.List.Basic
import Mathlib.Data.List.Induction
import Mathlib.Data.Set.Function

/-!
# Hash chains

A list of numbered links, each holding the hash of the one before it and a hash over its own number, link and content.

* `Chained`: every link continues the chain, from a tip on;
* `along_iff`: a relation between each link and the links before it, split by split;
* `Chained.unique`: where no two links of two chains collide, **the last tip determines the chain**.
-/

namespace HashChain

/-- A link: its number, the hash of the link before, its own hash and its content. -/
structure Link (D β : Type) where
  number : ℕ
  follows : D
  hash : D
  content : β

/-- The end of a chain. -/
@[ext] structure Tip (D : Type) where
  number : ℕ
  hash : D
  deriving DecidableEq

def Link.tip {D β : Type} (l : Link D β) : Tip D := ⟨l.number, l.hash⟩

section Chained

variable {D β : Type} (digest : D → ℕ → β → Option D)

/-- **The link continues the chain**: it has the next number, names the last hash, and its hash recomputes. A content
that cannot be hashed recomputes to nothing. -/
structure Extends (tip : Tip D) (l : Link D β) : Prop where
  number : l.number = tip.number + 1
  follows : l.follows = tip.hash
  hash : digest l.follows l.number l.content = some l.hash

/-- Each link stands in the relation to the end of the links before it. -/
def Along (P : Tip D → Link D β → Prop) (tip : Tip D) : List (Link D β) → Prop
  | [] => True
  | l :: ls => P tip l ∧ Along P l.tip ls

/-- **An unbroken chain.** -/
def Chained (tip : Tip D) (ls : List (Link D β)) : Prop := Along (Extends digest) tip ls

/-- Where a list of links ends. -/
def tipAfter (tip : Tip D) (ls : List (Link D β)) : Tip D := ls.foldl (fun _ l => l.tip) tip

variable {digest} {P : Tip D → Link D β → Prop} {tip : Tip D} {ls ls' : List (Link D β)} {l : Link D β}

@[simp] theorem tipAfter_nil : tipAfter tip ([] : List (Link D β)) = tip := rfl

@[simp] theorem tipAfter_cons : tipAfter tip (l :: ls) = tipAfter l.tip ls := rfl

@[simp] theorem tipAfter_concat : tipAfter tip (ls ++ [l]) = l.tip := by
  unfold tipAfter
  rw [List.foldl_append]
  rfl

theorem tipAfter_append : tipAfter tip (ls ++ ls') = tipAfter (tipAfter tip ls) ls' := List.foldl_append

theorem along_append : Along P tip (ls ++ ls') ↔ Along P tip ls ∧ Along P (tipAfter tip ls) ls' := by
  induction ls generalizing tip with
  | nil => simp [Along]
  | cons l ls ih => rw [List.cons_append, Along, Along, ih, tipAfter_cons, and_assoc]

theorem chained_concat : Chained digest tip (ls ++ [l]) ↔ Chained digest tip ls ∧ Extends digest (tipAfter tip ls) l := by
  rw [Chained, along_append, Along, Along, and_true, ← Chained]

/-- The number at the end counts the links. -/
theorem Chained.number (h : Chained digest tip ls) : (tipAfter tip ls).number = tip.number + ls.length := by
  induction ls generalizing tip with
  | nil => rfl
  | cons l ls ih =>
    obtain ⟨hl, hls⟩ := h
    have hnumber : l.tip.number = tip.number + 1 := hl.number
    rw [tipAfter_cons, ih hls, hnumber, List.length_cons]
    omega

/-- **The last tip determines the chain**, where no two of the links collide. -/
theorem Chained.unique (hchained : Chained digest tip ls) (hchained' : Chained digest tip ls')
    (hfree : ∀ x ∈ ls, ∀ y ∈ ls', digest x.follows x.number x.content = digest y.follows y.number y.content →
      x.follows = y.follows ∧ x.number = y.number ∧ x.content = y.content)
    (htip : tipAfter tip ls = tipAfter tip ls') : ls = ls' := by
  induction ls using List.reverseRecOn generalizing ls' with
  | nil =>
    have hlength := hchained'.number
    rw [← htip, tipAfter_nil] at hlength
    exact (List.length_eq_zero_iff.1 (by omega)).symm
  | append_singleton xs x ih =>
    have hlength := hchained.number
    rw [htip, hchained'.number, List.length_append, List.length_singleton] at hlength
    -- the other chain has a last link too
    obtain rfl | ⟨ys, y, rfl⟩ := ls'.eq_nil_or_concat'
    · rw [List.length_nil] at hlength
      omega
    obtain ⟨hxs, hx⟩ := chained_concat.1 hchained
    obtain ⟨hys, hy⟩ := chained_concat.1 hchained'
    rw [tipAfter_concat, tipAfter_concat] at htip
    have hhash : x.hash = y.hash := congrArg Tip.hash htip
    have hsame : digest x.follows x.number x.content = digest y.follows y.number y.content := by
      rw [hx.hash, hy.hash, hhash]
    obtain ⟨hfollows, hnumber, hcontent⟩ := hfree x (by simp) y (by simp) hsame
    have hlink : x = y := by
      cases x
      cases y
      simp only at hfollows hnumber hcontent hhash
      rw [hfollows, hnumber, hcontent, hhash]
    -- and before it both ended at the hash it names
    have hbefore : tipAfter tip xs = tipAfter tip ys := by
      refine Tip.ext ?_ ?_
      · have := hx.number
        have := hy.number
        omega
      · rw [← hx.follows, ← hy.follows, hfollows]
    have hinit := ih hxs hys (fun a ha b hb => hfree a (List.mem_append_left _ ha) b (List.mem_append_left _ hb)) hbefore
    rw [hinit, hlink]

end Chained

end HashChain
