import Mathlib.Data.List.Basic

/-!
# Programs whose external calls fail

A program acts on a world through external calls, and a schedule of fates says how each call ends: it takes
effect, it fails, or the process dies in it. A schedule that runs out is a process that dies at the next call,
so a statement about every schedule is a statement about every moment of every run.

* `Proc.wp`: what holds under every schedule, with the rules of each construct, and `Proc.Ends` for what does not
  depend on the error;
* `Proc.Preserves`: what a program leaves as it was, however it ends;
* `Proc.ends_retry`: a retry repeats an attempt from wherever the failed one left the world;
* `Proc.runAll_keeps`: an invariant of every program and of the crash is an invariant of every run.
-/

namespace Faults

/-- How a program ends. -/
inductive Exit (ε α : Type) where
  | returned (a : α)
  | raised (e : ε)
  | died
  deriving DecidableEq

/-- A program over a world `σ`, its calls ending as the fates of a schedule say. -/
def Proc (σ φ ε α : Type) : Type := σ → List φ → Exit ε α × σ × List φ

namespace Proc

variable {σ φ ε α β : Type}

protected def bind (p : Proc σ φ ε α) (f : α → Proc σ φ ε β) : Proc σ φ ε β := fun s fates =>
  match p s fates with
  | (.returned a, s', rest) => f a s' rest
  | (.raised e, s', rest) => (.raised e, s', rest)
  | (.died, s', rest) => (.died, s', rest)

instance : Monad (Proc σ φ ε) where
  pure a := fun s fates => (.returned a, s, fates)
  bind := Proc.bind

def raise (e : ε) : Proc σ φ ε α := fun s fates => (.raised e, s, fates)

/-- Handle what the program raises; nothing handles a death. -/
def handle (p : Proc σ φ ε α) (h : ε → Proc σ φ ε α) : Proc σ φ ε α := fun s fates =>
  match p s fates with
  | (.raised e, s', rest) => h e s' rest
  | r => r

/-- Raise something else in place of what the program raises. -/
def translate {ε' : Type} (f : ε → ε') (p : Proc σ φ ε α) : Proc σ φ ε' α := fun s fates =>
  match p s fates with
  | (.returned a, s', rest) => (.returned a, s', rest)
  | (.raised e, s', rest) => (.raised (f e), s', rest)
  | (.died, s', rest) => (.died, s', rest)

/-- Read the process's own state. -/
def get : Proc σ φ ε σ := fun s fates => (.returned s, s, fates)

/-- Change the process's own state. -/
def modify (f : σ → σ) : Proc σ φ ε Unit := fun s fates => (.returned (), f s, fates)

/-- One external call: the next fate decides how it ends. -/
def call (react : φ → σ → Exit ε α × σ) : Proc σ φ ε α := fun s fates =>
  match fates with
  | [] => (.died, s, [])
  | fate :: rest => ((react fate s).1, (react fate s).2, rest)

/-- `finally`: clean up after a return and after a raise. -/
def andFinally (p : Proc σ φ ε α) (cleanup : Proc σ φ ε Unit) : Proc σ φ ε α := do
  let a ← p.handle fun e => do
    cleanup
    raise e
  cleanup
  return a

/-- Try, and after a transient failure try again, at most `more` further times. -/
def retry (transient : ε → Bool) (p : Proc σ φ ε α) : ℕ → Proc σ φ ε α
  | 0 => p
  | more + 1 => p.handle fun e => if transient e then retry transient p more else raise e

/-! ## What holds under every schedule -/

/-- From `s`, under every schedule, the program ends as `Q` says. -/
def wp (p : Proc σ φ ε α) (Q : Exit ε α → σ → Prop) (s : σ) : Prop :=
  ∀ fates, Q (p s fates).1 (p s fates).2.1

/-- `R` where a program returns, `Q` where it ends otherwise. -/
def Then (R : α → σ → Prop) (Q : Exit ε β → σ → Prop) : Exit ε α → σ → Prop
  | .returned a => R a
  | .raised e => Q (.raised e)
  | .died => Q .died

/-- `R` where a program returns, `E` where it raises or dies. -/
def Ends (R : α → σ → Prop) (E : σ → Prop) : Exit ε α → σ → Prop := Then R fun (_ : Exit ε Unit) => E

variable {p : Proc σ φ ε α} {Q : Exit ε α → σ → Prop} {R : α → σ → Prop} {E : σ → Prop} {s : σ}

theorem wp_mono {Q' : Exit ε α → σ → Prop} (h : wp p Q s) (hQ : ∀ x s, Q x s → Q' x s) : wp p Q' s :=
  fun fates => hQ _ _ (h fates)

theorem wp_pure {a : α} (h : Q (.returned a) s) : wp (pure a : Proc σ φ ε α) Q s := fun _ => h

theorem wp_raise {e : ε} (h : Q (.raised e) s) : wp (raise e : Proc σ φ ε α) Q s := fun _ => h

theorem wp_get {Q : Exit ε σ → σ → Prop} (h : Q (.returned s) s) : wp (get : Proc σ φ ε σ) Q s := fun _ => h

theorem wp_modify {Q : Exit ε Unit → σ → Prop} {f : σ → σ} (h : Q (.returned ()) (f s)) :
    wp (modify f : Proc σ φ ε Unit) Q s := fun _ => h

theorem wp_call {react : φ → σ → Exit ε α × σ} (hdied : Q .died s)
    (h : ∀ fate, Q (react fate s).1 (react fate s).2) : wp (call react) Q s := by
  intro fates
  cases fates with
  | nil => exact hdied
  | cons fate rest => exact h fate

theorem wp_bind {f : α → Proc σ φ ε β} {Q : Exit ε β → σ → Prop} (h : wp p (Then (fun a => wp (f a) Q) Q) s) :
    wp (p >>= f) Q s := by
  intro fates
  have hp := h fates
  show Q (Proc.bind p f s fates).1 (Proc.bind p f s fates).2.1
  unfold Proc.bind
  generalize p s fates = r at hp
  obtain ⟨x, s', rest⟩ := r
  cases x with
  | returned a => exact hp rest
  | raised e => exact hp
  | died => exact hp

theorem wp_handle {h : ε → Proc σ φ ε α}
    (hp : wp p (fun x s => match x with | .raised e => wp (h e) Q s | x => Q x s) s) : wp (p.handle h) Q s := by
  intro fates
  have hp := hp fates
  unfold handle
  generalize p s fates = r at hp
  obtain ⟨x, s', rest⟩ := r
  cases x with
  | returned a => exact hp
  | raised e => exact hp rest
  | died => exact hp

theorem wp_and {Q' : Exit ε α → σ → Prop} (h : wp p Q s) (h' : wp p Q' s) : wp p (fun x s => Q x s ∧ Q' x s) s :=
  fun fates => ⟨h fates, h' fates⟩

theorem wp_translate {ε' : Type} {f : ε → ε'} {Q : Exit ε' α → σ → Prop}
    (hp : wp p (fun x s => match x with
      | .returned a => Q (.returned a) s
      | .raised e => Q (.raised (f e)) s
      | .died => Q .died s) s) : wp (p.translate f) Q s := by
  intro fates
  have hp := hp fates
  unfold translate
  generalize p s fates = r at hp
  obtain ⟨x, s', rest⟩ := r
  cases x with
  | returned a => exact hp
  | raised e => exact hp
  | died => exact hp

/-! ## Returning and failing -/

theorem ends_mono {S : α → σ → Prop} {F : σ → Prop} (h : wp p (Ends R E) s) (hR : ∀ a s, R a s → S a s)
    (hE : ∀ s, E s → F s) : wp p (Ends S F) s := by
  refine wp_mono h fun x s hx => ?_
  cases x with
  | returned a => exact hR a s hx
  | raised e => exact hE s hx
  | died => exact hE s hx

/-- One program after another. -/
theorem ends_bind {f : α → Proc σ φ ε β} {S : β → σ → Prop} (hp : wp p (Ends R E) s)
    (hf : ∀ a s, R a s → wp (f a) (Ends S E) s) : wp (p >>= f) (Ends S E) s := by
  refine wp_bind (wp_mono hp fun x s hx => ?_)
  cases x with
  | returned a => exact hf a s hx
  | raised e => exact hx
  | died => exact hx

/-- One program after another, with a condition on each exit of the whole. -/
theorem wp_bind_ends {f : α → Proc σ φ ε β} {T : Exit ε β → σ → Prop} (hp : wp p (Ends R E) s)
    (hf : ∀ a s, R a s → wp (f a) T s) (hraised : ∀ e s, E s → T (.raised e) s) (hdied : ∀ s, E s → T .died s) :
    wp (p >>= f) T s := by
  refine wp_bind (wp_mono hp fun x s hx => ?_)
  cases x with
  | returned a => exact hf a s hx
  | raised e => exact hraised e s hx
  | died => exact hdied s hx

theorem ends_handle {h : ε → Proc σ φ ε α} {F : σ → Prop} (hp : wp p (Ends R F) s)
    (hh : ∀ e s, F s → wp (h e) (Ends R E) s) (hdied : ∀ s, F s → E s) : wp (p.handle h) (Ends R E) s := by
  refine wp_handle (wp_mono hp fun x s hx => ?_)
  cases x with
  | returned a => exact hx
  | raised e => exact hh e s hx
  | died => exact hdied s hx

/-- A check that raises, and the program after it. -/
theorem ends_unless {c : Prop} [Decidable c] {e : ε} {f : PUnit → Proc σ φ ε α} (hraise : c → E s)
    (hf : ¬ c → wp (f ⟨⟩) (Ends R E) s) : wp (if c then raise e >>= f else f ⟨⟩) (Ends R E) s := by
  split
  · rename_i h
    exact ends_bind (R := fun _ _ => False) (wp_raise (hraise h)) fun _ _ h => h.elim
  · rename_i h
    exact hf h

/-- **Retrying.** If a failed attempt leaves a world an attempt may start in, so does a failed retry, and what
one attempt ensures the retries ensure. -/
theorem ends_retry {transient : ε → Bool} (hp : ∀ s, E s → wp p (Ends R E) s) (more : ℕ) (hs : E s) :
    wp (retry transient p more) (Ends R E) s := by
  induction more generalizing s with
  | zero => exact hp s hs
  | succ more ih =>
    refine ends_handle (hp s hs) (fun e s' hs' => ?_) fun _ h => h
    split
    · exact ih hs'
    · exact wp_raise hs'

/-- Retrying what has no effect when it fails transiently. -/
theorem ends_retry_same {transient : ε → Bool} (hp : wp p (fun x s' => match x with
      | .returned a => R a s'
      | .raised e => if transient e then s' = s else E s'
      | .died => E s') s) (more : ℕ) (hE : E s) : wp (retry transient p more) (Ends R E) s := by
  have hlast : ∀ x s', (match x with
      | .returned a => R a s'
      | .raised e => if transient e then s' = s else E s'
      | .died => E s') → Ends R E x s' := by
    intro x s' hx
    cases x with
    | returned a => exact hx
    | died => exact hx
    | raised e =>
      dsimp only at hx
      split at hx
      · rw [hx]; exact hE
      · exact hx
  induction more with
  | zero => exact wp_mono hp hlast
  | succ more ih =>
    refine wp_handle (wp_mono hp fun x s' hx => ?_)
    cases x with
    | returned a => exact hx
    | died => exact hx
    | raised e =>
      dsimp only at hx ⊢
      split at hx
      · rename_i htransient
        rw [hx, if_pos htransient]
        exact ih
      · rename_i htransient
        rw [if_neg htransient]
        exact wp_raise hx

theorem ends_andFinally {cleanup : Proc σ φ ε Unit} {S : α → σ → Prop} {F : σ → Prop} (hp : wp p (Ends S F) s)
    (hreturned : ∀ a s, S a s → wp cleanup (Ends (fun _ => R a) E) s)
    (hraised : ∀ s, F s → wp cleanup (Ends (fun _ => E) E) s) (hdied : ∀ s, F s → E s) :
    wp (p.andFinally cleanup) (Ends R E) s := by
  have hfirst : wp (p.handle fun e => do cleanup; raise e) (Ends S E) s := by
    refine ends_handle hp (fun e s' hs' => ?_) hdied
    exact ends_bind (hraised s' hs') fun _ s hs => wp_raise hs
  exact ends_bind hfirst fun a s hs => ends_bind (hreturned a s hs) fun _ s hs => wp_pure hs

/-- A loop over a list, with an invariant on what is done. -/
theorem ends_forM {xs : List α} {f : α → Proc σ φ ε PUnit} (I : List α → σ → Prop)
    (hbody : ∀ done x todo, xs = done ++ x :: todo → ∀ s, I done s → wp (f x) (Ends (fun _ => I (done ++ [x])) E) s)
    (hs : I [] s) : wp (xs.forM f) (Ends (fun _ => I xs) E) s := by
  have hgen : ∀ todo done, xs = done ++ todo → ∀ s, I done s → wp (todo.forM f) (Ends (fun _ => I xs) E) s := by
    intro todo
    induction todo with
    | nil => intro done hd s hI; exact wp_pure (show I xs s by rwa [hd, List.append_nil])
    | cons x todo ih =>
      intro done hd s hI
      refine ends_bind (hbody done x todo hd s hI) fun _ s' hI' => ?_
      exact ih (done ++ [x]) (by rw [hd, List.append_assoc]; rfl) s' hI'
  exact hgen xs [] rfl s hs

/-! ## What a program raises -/

/-- From everywhere and under every schedule, the program raises nothing but what `S` says. -/
def Raises (S : ε → Prop) (p : Proc σ φ ε α) : Prop := ∀ s, wp p (fun x _ => ∀ e, x = .raised e → S e) s

section Raises

variable {S : ε → Prop}

theorem raises_pure (a : α) : Raises S (pure a : Proc σ φ ε α) := fun _ => wp_pure nofun

theorem raises_raise {e : ε} (h : S e) : Raises S (raise e : Proc σ φ ε α) := fun _ => wp_raise fun _ heq => by
  cases heq
  exact h

theorem raises_modify (f : σ → σ) : Raises S (modify f : Proc σ φ ε Unit) := fun _ => wp_modify nofun

theorem raises_call {react : φ → σ → Exit ε α × σ} (h : ∀ fate s e, (react fate s).1 = .raised e → S e) :
    Raises S (call react) := fun s => wp_call nofun fun fate e heq => h fate s e heq

theorem raises_bind {f : α → Proc σ φ ε β} (hp : Raises S p) (hf : ∀ a, Raises S (f a)) : Raises S (p >>= f) := by
  intro s
  refine wp_bind (wp_mono (hp s) fun x s' hx => ?_)
  cases x with
  | returned a => exact hf a s'
  | raised e => exact fun e' heq => by cases heq; exact hx e rfl
  | died => exact nofun

/-- What a handler lets through of what the program raises. -/
theorem raises_handle {h : ε → Proc σ φ ε α} (hp : Raises S p) (hh : ∀ e, S e → Raises S (h e)) :
    Raises S (p.handle h) := by
  intro s
  refine wp_handle (wp_mono (hp s) fun x s' hx => ?_)
  cases x with
  | returned a => exact hx
  | raised e => exact hh e (hx e rfl) s'
  | died => exact hx

theorem raises_retry {transient : ε → Bool} (hp : Raises S p) (more : ℕ) : Raises S (retry transient p more) := by
  induction more with
  | zero => exact hp
  | succ more ih =>
    refine raises_handle hp fun e he => ?_
    split
    · exact ih
    · exact raises_raise he

theorem raises_forM {xs : List α} {f : α → Proc σ φ ε PUnit} (hf : ∀ x ∈ xs, Raises S (f x)) : Raises S (xs.forM f) := by
  induction xs with
  | nil => exact raises_pure _
  | cons x xs ih => exact raises_bind (hf x (by simp)) fun _ => ih fun y hy => hf y (List.mem_cons_of_mem _ hy)

end Raises

/-! ## What a program leaves as it was -/

/-- From everywhere, under every schedule and however it ends, the program leaves what `f` shows as it was. -/
def Preserves {τ : Type} (f : σ → τ) (p : Proc σ φ ε α) : Prop := ∀ s, wp p (fun _ s' => f s' = f s) s

section Preserves

variable {τ : Type} {f : σ → τ}

theorem preserves_pure (a : α) : Preserves f (pure a : Proc σ φ ε α) := fun _ => wp_pure rfl

theorem preserves_raise (e : ε) : Preserves f (raise e : Proc σ φ ε α) := fun _ => wp_raise rfl

theorem preserves_get : Preserves f (get : Proc σ φ ε σ) := fun _ => wp_get rfl

theorem preserves_modify {g : σ → σ} (h : ∀ s, f (g s) = f s) : Preserves f (modify g : Proc σ φ ε Unit) :=
  fun s => wp_modify (h s)

theorem preserves_call {react : φ → σ → Exit ε α × σ} (h : ∀ fate s, f (react fate s).2 = f s) :
    Preserves f (call react) := fun s => wp_call rfl fun fate => h fate s

theorem preserves_bind {k : α → Proc σ φ ε β} (hp : Preserves f p) (hk : ∀ a, Preserves f (k a)) :
    Preserves f (p >>= k) := by
  intro s
  refine wp_bind (wp_mono (hp s) fun x s' hx => ?_)
  cases x with
  | returned a => exact wp_mono (hk a s') fun _ _ h => h.trans hx
  | raised e => exact hx
  | died => exact hx

theorem preserves_handle {h : ε → Proc σ φ ε α} (hp : Preserves f p) (hh : ∀ e, Preserves f (h e)) :
    Preserves f (p.handle h) := by
  intro s
  refine wp_handle (wp_mono (hp s) fun x s' hx => ?_)
  cases x with
  | returned a => exact hx
  | raised e => exact wp_mono (hh e s') fun _ _ h => h.trans hx
  | died => exact hx

theorem preserves_retry {transient : ε → Bool} (hp : Preserves f p) (more : ℕ) :
    Preserves f (retry transient p more) := by
  induction more with
  | zero => exact hp
  | succ more ih =>
    refine preserves_handle hp fun e => ?_
    split
    · exact ih
    · exact preserves_raise e

theorem preserves_forM {xs : List α} {k : α → Proc σ φ ε PUnit} (hk : ∀ x ∈ xs, Preserves f (k x)) :
    Preserves f (xs.forM k) := by
  induction xs with
  | nil => exact preserves_pure _
  | cons x xs ih =>
    exact preserves_bind (hk x (List.mem_cons_self ..)) fun _ => ih fun y hy => hk y (List.mem_cons_of_mem _ hy)

/-- A check that raises, and the program after it. -/
theorem preserves_unless {c : Prop} [Decidable c] {e : ε} {k : PUnit → Proc σ φ ε α} (hk : Preserves f (k ⟨⟩)) :
    Preserves f (if c then raise e >>= k else k ⟨⟩) := by
  split
  · refine fun s => wp_bind (wp_raise ?_)
    rfl
  · exact hk

/-- What a program ensures, and what it leaves as it was. -/
theorem ends_preserves (hp : wp p (Ends R E) s) (hf : Preserves f p) :
    wp p (Ends (fun a s' => R a s' ∧ f s' = f s) fun s' => E s' ∧ f s' = f s) s := by
  refine wp_mono (wp_and hp (hf s)) fun x s' hx => ?_
  cases x with
  | returned a => exact hx
  | raised e => exact hx
  | died => exact hx

end Preserves

/-! ## What ran first -/

theorem bind_returned {f : α → Proc σ φ ε β} {fates : List φ} {a : α} (h : (p s fates).1 = .returned a) :
    (p >>= f) s fates = f a (p s fates).2.1 (p s fates).2.2 := by
  show Proc.bind p f s fates = _
  unfold Proc.bind
  generalize p s fates = r at h
  obtain ⟨x, s', rest⟩ := r
  dsimp only at h
  rw [h]

/-- A program that does not get past its first part leaves what the first part left. -/
theorem bind_not_returned {f : α → Proc σ φ ε β} {fates : List φ} (h : ∀ a, (p s fates).1 ≠ .returned a) :
    ((p >>= f) s fates).2 = (p s fates).2 := by
  show (Proc.bind p f s fates).2 = _
  unfold Proc.bind
  generalize p s fates = r at h
  obtain ⟨x, s', rest⟩ := r
  cases x with
  | returned a => exact absurd rfl (h a)
  | raised e => rfl
  | died => rfl

/-! ## Runs of programs -/

/-- The world after one program: a death takes the process's own state with it. -/
def after (crash : σ → σ) (s : σ) (step : Proc σ φ ε Unit × List φ) : σ :=
  match (step.1 s step.2).1 with
  | .died => crash (step.1 s step.2).2.1
  | _ => (step.1 s step.2).2.1

/-- The world after programs one after the other, each under its own schedule. -/
def runAll (crash : σ → σ) (s : σ) (steps : List (Proc σ φ ε Unit × List φ)) : σ := steps.foldl (after crash) s

theorem after_keeps {crash : σ → σ} {I : σ → Prop} (hcrash : ∀ s, I s → I (crash s)) {p : Proc σ φ ε Unit}
    (hp : wp p (fun _ => I) s) (fates : List φ) : I (after crash s (p, fates)) := by
  have h := hp fates
  unfold after
  split
  · exact hcrash _ h
  · exact h

/-- **An invariant of every program and of the crash is an invariant of every run.** -/
theorem runAll_keeps {crash : σ → σ} {I : σ → Prop} (hcrash : ∀ s, I s → I (crash s))
    {steps : List (Proc σ φ ε Unit × List φ)} (hsteps : ∀ step ∈ steps, ∀ s, I s → wp step.1 (fun _ => I) s)
    (hs : I s) : I (runAll crash s steps) := by
  induction steps generalizing s with
  | nil => exact hs
  | cons step steps ih =>
    exact ih (fun q hq => hsteps q (List.mem_cons_of_mem _ hq))
      (after_keeps hcrash (hsteps step (by simp) s hs) step.2)

end Proc

end Faults
