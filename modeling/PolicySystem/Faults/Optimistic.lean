import PolicySystem.Faults.RelyGuarantee

/-!
# Optimistic writes

Callers that read a clock, read the state, and write only where the clock still shows what it showed. Before its write a
caller does the housekeeping that is due, which moves the clock too.

* `Flow.safe`: what a program asks where it knows what its own requests did;
* `Callers.Safe.step`: one step of one caller keeps what every program asks;
* `Later.unmoved`: **a write the clock admits finds the state its guard read**, but for housekeeping.
-/

namespace Interleaved

/-! ## Programs that know what their requests did -/

namespace Flow

variable {S Q Q' N α β : Type}

/-- Others may change the state as `R` allows before each step; at a request `ok` holds, and at the end `P`. After a request
the state is the one its answer left. -/
def safe (carry : S → Q → N → Option S) (R : S → S → Prop) (ok : S → Q → Prop) :
    Flow S Q N α → (S → α → Prop) → S → Prop
  | .done a, P, s => P s a
  | .halt, _, _ => True
  | .read k, P, s => ∀ s', R s s' → safe carry R ok (k s') P s'
  | .request q k, P, s => ∀ s', R s s' → ok s' q ∧ ∀ n s'', carry s' q n = some s'' → safe carry R ok (k n) P s''

variable {carry : S → Q → N → Option S} {R : S → S → Prop} {ok : S → Q → Prop}

theorem safe_bind {p : Flow S Q N α} {f : α → Flow S Q N β} {P : S → β → Prop} {s : S}
    (h : p.safe carry R ok (fun s a => (f a).safe carry R ok P s) s) : (p >>= f).safe carry R ok P s := by
  show (Flow.bind p f).safe carry R ok P s
  induction p generalizing s with
  | done a => exact h
  | halt => trivial
  | read k ih =>
    intro s' hs
    exact ih s' (h s' hs)
  | request q k ih =>
    intro s' hs
    obtain ⟨hok, hk⟩ := h s' hs
    exact ⟨hok, fun n s'' hcarry => ih n (hk n s'' hcarry)⟩

theorem safe_pure {a : α} {P : S → α → Prop} {s : S} (h : P s a) : (pure a : Flow S Q N α).safe carry R ok P s := h

theorem safe_halt {P : S → α → Prop} {s : S} : (.halt : Flow S Q N α).safe carry R ok P s := trivial

theorem safe_get {f : S → α} {P : S → α → Prop} {s : S} (h : ∀ s', R s s' → P s' (f s')) :
    (get f : Flow S Q N α).safe carry R ok P s := h

theorem safe_ask {q : Q} {P : S → N → Prop} {s : S} (hok : ∀ s', R s s' → ok s' q)
    (h : ∀ n s' s'', R s s' → carry s' q n = some s'' → P s'' n) : (ask q : Flow S Q N N).safe carry R ok P s := by
  intro s' hs
  exact ⟨hok s' hs, fun n s'' hcarry => h n s' s'' hs hcarry⟩

/-- What a program asks now, it asks of every later state, where what it ends with does. -/
theorem safe_rely (htrans : ∀ a b c, R a b → R b c → R a c) {p : Flow S Q N α} {P : S → α → Prop} {s s' : S}
    (hP : ∀ s s' a, P s a → R s s' → P s' a) (h : p.safe carry R ok P s) (hs : R s s') : p.safe carry R ok P s' := by
  cases p with
  | done a => exact hP s s' a h hs
  | halt => trivial
  | read k =>
    intro s'' hs'
    exact h s'' (htrans s s' s'' hs hs')
  | request q k =>
    intro s'' hs'
    exact h s'' (htrans s s' s'' hs hs')

/-! ## Requests of a larger system -/

/-- The program with its requests made those of another system. -/
def asking (f : Q → Q') : Flow S Q N α → Flow S Q' N α
  | .done a => .done a
  | .halt => .halt
  | .read k => .read fun s => (k s).asking f
  | .request q k => .request (f q) fun n => (k n).asking f

theorem safe_asking {f : Q → Q'} {carry' : S → Q' → N → Option S} {ok' : S → Q' → Prop} {p : Flow S Q N α}
    {P : S → α → Prop} {s : S} (h : p.safe (fun s q => carry' s (f q)) R (fun s q => ok' s (f q)) P s) :
    (p.asking f).safe carry' R ok' P s := by
  induction p generalizing s with
  | done a => exact h
  | halt => trivial
  | read k ih =>
    intro s' hs
    exact ih s' (h s' hs)
  | request q k ih =>
    intro s' hs
    obtain ⟨hok, hk⟩ := h s' hs
    exact ⟨hok, fun n s'' hcarry => ih n (hk n s'' hcarry)⟩

end Flow

/-! ## Callers -/

section Callers

variable {S Q N : Type} {carry : S → Q → N → Option S} {R : S → S → Prop} {ok : S → Q → Prop} {w w' : Callers S Q N}
  {e : CallerStep N}

/-- Every caller's program asks only what `ok` gives, now and later. -/
def Callers.Safe (carry : S → Q → N → Option S) (R : S → S → Prop) (ok : S → Q → Prop) (w : Callers S Q N) : Prop :=
  ∀ c, (w.flows c).safe carry R ok (fun _ _ => True) w.shared

/-- At a request the program asks for, `ok` holds. -/
theorem Callers.Safe.met (hrefl : ∀ s, R s s) (h : w.Safe carry R ok) {q : Q} {s : S} (hc : w.Carries carry e q s) :
    ok w.shared q := by
  obtain ⟨c, answer, k, -, hflow, -⟩ := hc
  have hsafe := h c
  rw [hflow] at hsafe
  exact (hsafe w.shared (hrefl _)).1

/-- **One step** keeps what every program asks, where each request that meets `ok` keeps the rely. -/
theorem Callers.Safe.step (hrefl : ∀ s, R s s) (htrans : ∀ a b c, R a b → R b c → R a c)
    (hkeep : ∀ s q n s', ok s q → carry s q n = some s' → R s s') (h : w.Safe carry R ok)
    (hstep : w.step carry e = some w') : w'.Safe carry R ok := by
  -- the other programs are carried to the state after the step
  have hothers : ∀ {s : S} {c : ℕ} {p : Flow S Q N Unit}, R w.shared s → p.safe carry R ok (fun _ _ => True) s →
      (⟨s, Function.update w.flows c p⟩ : Callers S Q N).Safe carry R ok := by
    intro s c p hs hp c'
    by_cases hc : c' = c
    · rw [hc]
      simp only [Function.update_self]
      exact hp
    · simp only [Function.update_of_ne hc]
      exact Flow.safe_rely htrans (fun _ _ _ _ _ => trivial) (h c') hs
  cases e with
  | read c =>
    simp only [Callers.step] at hstep
    split at hstep
    · rename_i k hflow
      have hsafe := h c
      rw [hflow] at hsafe
      have hnext := hothers (c := c) (hrefl w.shared) (hsafe w.shared (hrefl _))
      rw [← Option.some.inj hstep]
      exact hnext
    · cases hstep
  | request c answer =>
    simp only [Callers.step] at hstep
    split at hstep
    · rename_i q k hflow
      obtain ⟨s, hcarry, rfl⟩ := Option.map_eq_some_iff.1 hstep
      have hsafe := h c
      rw [hflow] at hsafe
      obtain ⟨hok, hk⟩ := hsafe w.shared (hrefl _)
      exact hothers (hkeep _ _ _ _ hok hcarry) (hk answer s hcarry)
    · cases hstep
  | stop c =>
    have hnext := hothers (s := w.shared) (c := c) (p := .halt) (hrefl w.shared) trivial
    rw [← Option.some.inj hstep]
    exact hnext

end Callers

/-! ## The clock -/

/-- A clock of the state, how much housekeeping is due, and when two states differ by housekeeping only. -/
structure Housekeeping (S : Type) where
  clock : S → ℕ
  due : S → ℕ
  same : S → S → Prop
  refl : ∀ s, same s s
  trans : ∀ a b c, same a b → same b c → same a c

variable {S : Type} {hk : Housekeeping S}

/-- **The clock does not go back**, and housekeeping alone moves it by what it makes less due. -/
structure Later (hk : Housekeeping S) (s s' : S) : Prop where
  clock : hk.clock s ≤ hk.clock s'
  due : hk.due s' ≤ hk.due s
  sum : hk.clock s + hk.due s ≤ hk.clock s' + hk.due s'
  still : hk.clock s' + hk.due s' = hk.clock s + hk.due s → hk.same s s'

theorem Later.refl (hk : Housekeeping S) (s : S) : Later hk s s := ⟨le_rfl, le_rfl, le_rfl, fun _ => hk.refl s⟩

theorem Later.trans {a b c : S} (h : Later hk a b) (h' : Later hk b c) : Later hk a c where
  clock := h.clock.trans h'.clock
  due := h'.due.trans h.due
  sum := h.sum.trans h'.sum
  still heq := by
    have hab := h.sum
    have hbc := h'.sum
    exact hk.trans a b c (h.still (by omega)) (h'.still (by omega))

/-- **A write the clock admits finds the state its guard read.** The clock is read at `a`, the guard at `b`, what is due is
counted at `c`, and at `d`, with nothing due, the clock has moved by that count. -/
theorem Later.unmoved {a b c d : S} (hab : Later hk a b) (hbc : Later hk b c) (hcd : Later hk c d) (hdue : hk.due d = 0)
    (hclock : hk.clock d = hk.clock a + hk.due c) : hk.same b d := by
  have hdown : hk.due c ≤ hk.due a := hbc.due.trans hab.due
  have hsum := hab.sum
  have hup := (hbc.trans hcd).sum
  exact (hbc.trans hcd).still (by omega)

end Interleaved
