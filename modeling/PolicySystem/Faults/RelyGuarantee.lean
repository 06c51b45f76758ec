import PolicySystem.Faults.Run

/-!
# Callers that interfere

Callers of one shared state, each a program of atomic reads and requests; between two of its steps the others take theirs.

* `Flow.wp`: what a program asks of the state at each of its requests, whatever the others do within a rely;
* `Callers.Asks.step`: where a request keeps the rely, every program still meets what it asks.
-/

namespace Interleaved

/-- A program of one caller over a shared state `S`: it reads, it makes requests `Q` that end in an answer `N`, and it
returns or halts. -/
inductive Flow (S Q N α : Type) where
  | done (a : α)
  | halt
  | read (k : S → Flow S Q N α)
  | request (q : Q) (k : N → Flow S Q N α)

namespace Flow

variable {S Q N α β : Type}

protected def bind (p : Flow S Q N α) (f : α → Flow S Q N β) : Flow S Q N β :=
  match p with
  | .done a => f a
  | .halt => .halt
  | .read k => .read fun s => (k s).bind f
  | .request q k => .request q fun n => (k n).bind f

instance : Monad (Flow S Q N) where
  pure := .done
  bind := Flow.bind

/-- One read. -/
def get (f : S → α) : Flow S Q N α := .read fun s => .done (f s)

/-- One request. -/
def ask (q : Q) : Flow S Q N N := .request q .done

/-! ## What a program asks -/

/-- Others may change the state as `R` allows before each step; at a request `ok` holds, and at the end `P`. -/
def wp (R : S → S → Prop) (ok : S → Q → Prop) : Flow S Q N α → (S → α → Prop) → S → Prop
  | .done a, P, s => P s a
  | .halt, _, _ => True
  | .read k, P, s => ∀ s', R s s' → wp R ok (k s') P s'
  | .request q k, P, s => ∀ s', R s s' → ok s' q ∧ ∀ n s'', R s' s'' → wp R ok (k n) P s''

variable {R : S → S → Prop} {ok : S → Q → Prop}

theorem wp_bind {p : Flow S Q N α} {f : α → Flow S Q N β} {P : S → β → Prop} {s : S}
    (h : wp R ok p (fun s a => wp R ok (f a) P s) s) : wp R ok (p >>= f) P s := by
  show wp R ok (Flow.bind p f) P s
  induction p generalizing s with
  | done a => exact h
  | halt => trivial
  | read k ih =>
    intro s' hs
    exact ih s' (h s' hs)
  | request q k ih =>
    intro s' hs
    obtain ⟨hok, hk⟩ := h s' hs
    exact ⟨hok, fun n s'' hs' => ih n (hk n s'' hs')⟩

theorem wp_pure {a : α} {P : S → α → Prop} {s : S} (h : P s a) : wp R ok (pure a : Flow S Q N α) P s := h

theorem wp_get {f : S → α} {P : S → α → Prop} {s : S} (h : ∀ s', R s s' → P s' (f s')) :
    wp R ok (get f : Flow S Q N α) P s := h

theorem wp_ask {q : Q} {P : S → N → Prop} {s : S} (hok : ∀ s', R s s' → ok s' q)
    (h : ∀ n s' s'', R s s' → R s' s'' → P s'' n) : wp R ok (ask q : Flow S Q N N) P s := by
  intro s' hs
  exact ⟨hok s' hs, fun n s'' hs' => h n s' s'' hs hs'⟩

/-- What a program asks, it asks of every later state. -/
theorem wp_rely (htrans : ∀ a b c, R a b → R b c → R a c) {p : Flow S Q N α} {P : S → α → Prop} {s s' : S}
    (hP : ∀ s s' a, P s a → R s s' → P s' a) (h : wp R ok p P s) (hs : R s s') : wp R ok p P s' := by
  cases p with
  | done a => exact hP s s' a h hs
  | halt => trivial
  | read k =>
    intro s'' hs'
    exact h s'' (htrans s s' s'' hs hs')
  | request q k =>
    intro s'' hs'
    exact h s'' (htrans s s' s'' hs hs')

end Flow

/-! ## Callers -/

variable {S Q N : Type}

/-- The shared state and what each caller has still to do. -/
structure Callers (S Q N : Type) where
  shared : S
  flows : ℕ → Flow S Q N Unit

/-- One step of one caller: it reads, its request ends in an answer, or it stops (a failure, or its death). -/
inductive CallerStep (N : Type) where
  | read (c : ℕ)
  | request (c : ℕ) (answer : N)
  | stop (c : ℕ)

/-- The step, where it is enabled. `carry` is what a request does where it ends in an answer. -/
def Callers.step (carry : S → Q → N → Option S) (w : Callers S Q N) : CallerStep N → Option (Callers S Q N)
  | .read c =>
    match w.flows c with
    | .read k => some { w with flows := Function.update w.flows c (k w.shared) }
    | _ => none
  | .request c answer =>
    match w.flows c with
    | .request q k => (carry w.shared q answer).map fun s => ⟨s, Function.update w.flows c (k answer)⟩
    | _ => none
  | .stop c => some { w with flows := Function.update w.flows c .halt }

/-- The request a step carries out, and the state after it. -/
def Callers.Carries (carry : S → Q → N → Option S) (w : Callers S Q N) (e : CallerStep N) (q : Q) (s : S) : Prop :=
  ∃ c answer k, e = .request c answer ∧ w.flows c = .request q k ∧ carry w.shared q answer = some s

/-- Every caller's program asks only what `ok` gives, now and later. -/
def Callers.Asks (R : S → S → Prop) (ok : S → Q → Prop) (w : Callers S Q N) : Prop :=
  ∀ c, (w.flows c).wp R ok (fun _ _ => True) w.shared

section Rules

variable {R : S → S → Prop} {ok : S → Q → Prop} {carry : S → Q → N → Option S} {w w' : Callers S Q N} {e : CallerStep N}

/-- At a request the program asks for, `ok` holds. -/
theorem Callers.Asks.met (hrefl : ∀ s, R s s) (h : w.Asks R ok) {q : Q} {s : S} (hc : w.Carries carry e q s) :
    ok w.shared q := by
  obtain ⟨c, answer, k, -, hflow, -⟩ := hc
  have hasks := h c
  rw [hflow] at hasks
  exact (hasks w.shared (hrefl _)).1

/-- **One step.** Where the request carried out, if any, keeps the rely, every program asks on. -/
theorem Callers.Asks.step (hrefl : ∀ s, R s s) (htrans : ∀ a b c, R a b → R b c → R a c) (h : w.Asks R ok)
    (hstep : w.step carry e = some w') (hkeep : ∀ q s, w.Carries carry e q s → R w.shared s) : w'.Asks R ok := by
  -- the other programs are carried to the state after the step
  have hothers : ∀ {s : S} {c : ℕ} {p : Flow S Q N Unit}, R w.shared s → p.wp R ok (fun _ _ => True) s →
      (⟨s, Function.update w.flows c p⟩ : Callers S Q N).Asks R ok := by
    intro s c p hs hp c'
    by_cases hc : c' = c
    · rw [hc]
      simp only [Function.update_self]
      exact hp
    · simp only [Function.update_of_ne hc]
      exact Flow.wp_rely htrans (fun _ _ _ _ _ => trivial) (h c') hs
  cases e with
  | read c =>
    simp only [Callers.step] at hstep
    split at hstep
    · rename_i k hflow
      cases hstep
      have hasks := h c
      rw [hflow] at hasks
      exact hothers (hrefl _) (hasks w.shared (hrefl _))
    · cases hstep
  | request c answer =>
    simp only [Callers.step] at hstep
    split at hstep
    · rename_i q k hflow
      obtain ⟨s, hcarry, rfl⟩ := Option.map_eq_some_iff.1 hstep
      have hs : R w.shared s := hkeep q s ⟨c, answer, k, rfl, hflow, hcarry⟩
      have hasks := h c
      rw [hflow] at hasks
      exact hothers hs ((hasks w.shared (hrefl _)).2 answer s hs)
    · cases hstep
  | stop c =>
    cases hstep
    exact hothers (hrefl _) trivial

/-- **The state moves within the rely, or not at all.** -/
theorem Callers.step_shared (hstep : w.step carry e = some w') :
    w'.shared = w.shared ∨ ∃ q, w.Carries carry e q w'.shared := by
  cases e with
  | read c =>
    simp only [Callers.step] at hstep
    split at hstep
    · cases hstep
      exact .inl rfl
    · cases hstep
  | request c answer =>
    simp only [Callers.step] at hstep
    split at hstep
    · rename_i q k hflow
      obtain ⟨s, hcarry, rfl⟩ := Option.map_eq_some_iff.1 hstep
      exact .inr ⟨q, c, answer, k, rfl, hflow, hcarry⟩
    · cases hstep
  | stop c =>
    cases hstep
    exact .inl rfl

end Rules

end Interleaved
