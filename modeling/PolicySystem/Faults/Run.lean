import Mathlib

/-!
# Runs of interleaved steps

A system given by a partial step function: `none` where the step is not enabled. A run is a history
of events; what it keeps may speak of the history as well as of the state reached.

* `after_induct`: what holds at the start and each step keeps holds after every run;
* `Throughout`: a condition on each event of a history at its turn.
-/

namespace Interleaved

variable {S E : Type} {step : S → E → Option S}

/-- The state after the events of a history, where each was enabled at its turn. -/
def after (step : S → E → Option S) (s : S) (history : List E) : Option S :=
  history.foldlM step s

@[simp] theorem after_nil (s : S) : after step s [] = some s := rfl

@[simp] theorem after_cons (s : S) (e : E) (h : List E) :
    after step s (e :: h) = (step s e).bind fun s' => after step s' h := rfl

theorem after_append (s : S) (h k : List E) :
    after step s (h ++ k) = (after step s h).bind fun s' => after step s' k := by
  unfold after
  rw [List.foldlM_append]
  rfl

theorem after_snoc {s s' : S} {h : List E} {e : E} :
    after step s (h ++ [e]) = some s' ↔ ∃ m, after step s h = some m ∧ step m e = some s' := by
  simp [after_append, Option.bind_eq_some_iff]

theorem after_split {s s' : S} {h k : List E} {e : E} :
    after step s (h ++ e :: k) = some s' ↔
      ∃ m m', after step s h = some m ∧ step m e = some m' ∧ after step m' k = some s' := by
  simp only [after_append, after_cons, Option.bind_eq_some_iff]
  constructor
  · rintro ⟨m, hm, m', hm', hk⟩
    exact ⟨m, m', hm, hm', hk⟩
  · rintro ⟨m, m', hm, hm', hk⟩
    exact ⟨m, hm, m', hm', hk⟩

/-- A condition on every event of a history, given the events before it. -/
def Throughout (C : List E → E → Prop) (history : List E) : Prop :=
  ∀ past e future, history = past ++ e :: future → C past e

theorem Throughout.init {C : List E → E → Prop} {h : List E} {e : E} (hC : Throughout C (h ++ [e])) :
    Throughout C h := by
  intro past f future heq
  exact hC past f (future ++ [e]) (by simp [heq])

theorem Throughout.last {C : List E → E → Prop} {h : List E} {e : E} (hC : Throughout C (h ++ [e])) : C h e :=
  hC h e [] rfl

theorem Throughout.snoc {C : List E → E → Prop} {h : List E} {e : E} (hC : Throughout C h) (he : C h e) :
    Throughout C (h ++ [e]) := by
  intro past f future heq
  rcases List.eq_nil_or_concat future with rfl | ⟨future, last, rfl⟩
  · obtain ⟨rfl, hlast⟩ := List.append_inj' heq rfl
    obtain rfl := List.singleton_inj.1 hlast
    exact he
  · rw [List.concat_eq_append, ← List.cons_append, ← List.append_assoc] at heq
    exact hC past f future (List.append_inj' heq rfl).1

theorem Throughout.append {C : List E → E → Prop} {h k : List E} (hC : Throughout C h)
    (hk : ∀ past, ∀ e ∈ k, C past e) : Throughout C (h ++ k) := by
  induction k using List.reverseRecOn with
  | nil => rwa [List.append_nil]
  | append_singleton k e ih =>
    rw [← List.append_assoc]
    refine Throughout.snoc (ih fun past f hf => hk past f (List.mem_append_left _ hf)) ?_
    exact hk _ e (by simp)

theorem throughout_iff {C : List E → E → Prop} {h : List E} :
    Throughout C h ↔ ∀ (i : Nat) (hi : i < h.length), C (h.take i) h[i] := by
  constructor
  · intro hC i hi
    exact hC _ _ (h.drop (i + 1)) (by simp)
  · intro hC past e future heq
    subst heq
    have := hC past.length (by simp)
    simpa using this

instance {C : List E → E → Prop} [∀ past e, Decidable (C past e)] {h : List E} : Decidable (Throughout C h) :=
  decidable_of_iff _ throughout_iff.symm

theorem throughout_of_forall {P : E → Prop} {h : List E} (hP : ∀ e ∈ h, P e) : Throughout (fun _ e => P e) h := by
  intro past e future heq
  subst heq
  exact hP e (by simp)

/-- What the events of a run show, each in the state it meets. -/
def observed {O : Type} (step : S → E → Option S) (shows : S → E → List O) : S → List E → List O
  | _, [] => []
  | s, e :: h => shows s e ++ ((step s e).map fun s' => observed step shows s' h).getD []

theorem mem_observed {O : Type} {shows : S → E → List O} {o : O} {s s' : S} {h : List E}
    (hrun : after step s h = some s') :
    o ∈ observed step shows s h ↔ ∃ past e future m, h = past ++ e :: future ∧ after step s past = some m ∧ o ∈ shows m e := by
  induction h generalizing s with
  | nil => simp [observed]
  | cons e h ih =>
    obtain ⟨m, hm, hrest⟩ := Option.bind_eq_some_iff.1 hrun
    simp only [observed, hm, Option.map_some, Option.getD_some, List.mem_append, ih hrest]
    constructor
    · rintro (ho | ⟨past, f, future, m', rfl, hpast, ho⟩)
      · exact ⟨[], e, h, s, rfl, rfl, ho⟩
      · exact ⟨e :: past, f, future, m', rfl, by simp [hm, hpast], ho⟩
    · rintro ⟨past, f, future, m', heq, hpast, ho⟩
      cases past with
      | nil =>
        obtain ⟨rfl, rfl⟩ := List.cons.inj heq
        cases hpast
        exact .inl ho
      | cons g past =>
        obtain ⟨rfl, rfl⟩ := List.cons.inj heq
        rw [after_cons, hm] at hpast
        exact .inr ⟨past, f, future, m', rfl, hpast, ho⟩

theorem observed_snoc {O : Type} {shows : S → E → List O} {s m : S} {h : List E} {e : E}
    (hrun : after step s h = some m) : observed step shows s (h ++ [e]) = observed step shows s h ++ shows m e := by
  induction h generalizing s with
  | nil =>
    cases hrun
    simp only [List.nil_append, observed]
    cases step m e <;> simp
  | cons f h ih =>
    obtain ⟨m', hm', hrest⟩ := Option.bind_eq_some_iff.1 hrun
    simp [observed, hm', ih hrest]

/-- **Run rule.** An invariant of history and state, kept by each step that meets the condition `C`, holds
after every run that meets it throughout. -/
theorem after_induct {C : List E → E → Prop} {I : List E → S → Prop} {s₀ : S} (h₀ : I [] s₀)
    (hstep : ∀ h s e s', I h s → C h e → step s e = some s' → I (h ++ [e]) s') :
    ∀ {h : List E} {s : S}, Throughout C h → after step s₀ h = some s → I h s := by
  intro h
  induction h using List.reverseRecOn with
  | nil =>
    intro s _ hrun
    cases hrun
    exact h₀
  | append_singleton h e ih =>
    intro s hC hrun
    obtain ⟨m, hm, hs⟩ := after_snoc.1 hrun
    exact hstep h m e s (ih hC.init hm) hC.last hs

/-- The run rule without a condition on the steps. -/
theorem after_keeps {I : S → Prop} {s₀ : S} (h₀ : I s₀) (hstep : ∀ s e s', I s → step s e = some s' → I s')
    {h : List E} {s : S} (hrun : after step s₀ h = some s) : I s :=
  after_induct (C := fun _ _ => True) (I := fun _ s => I s) h₀ (fun _ a e b hI _ hs => hstep a e b hI hs)
    (fun _ _ _ _ => trivial) hrun

/-- Both ends of a run, for a relation between states that each step keeps. -/
theorem after_rel {I : S → Prop} {R : S → S → Prop} (hrefl : ∀ s, R s s) (htrans : ∀ a b c, R a b → R b c → R a c)
    (hI : ∀ s e s', I s → step s e = some s' → I s') (hR : ∀ s e s', I s → step s e = some s' → R s s')
    {h : List E} {s s' : S} (hs : I s) (hrun : after step s h = some s') : R s s' := by
  induction h generalizing s with
  | nil =>
    cases hrun
    exact hrefl _
  | cons e h ih =>
    obtain ⟨m, hm, hrest⟩ := Option.bind_eq_some_iff.1 hrun
    exact htrans _ _ _ (hR s e m hs hm) (ih (hI s e m hs hm) hrest)

end Interleaved
