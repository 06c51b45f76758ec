import Mathlib

/-!
# Versions in force

Versions that succeed one another, some of them in force, each holding resources. A version comes into force and
retires the one it succeeds, whose resources it takes over; several versions may have been made to succeed one.

* `Lineage`: connected by succession;
* `AtMostOne`: one version of a lineage in force; kept where a version comes into force while nothing of its lineage but
  its prior is in force (`Timely`), and only there;
* `Held`: a resource of a lineage's version in force, kept by every move.
-/

namespace Succession

/-- Which versions are in force, which succeeds which, and what each holds. -/
structure State (V C : Type) where
  inForce : V → Prop
  prior : V → V → Prop
  holds : V → C → Prop

variable {V C : Type}

/-- Connected by succession. -/
def Lineage (s : State V C) : V → V → Prop := Relation.EqvGen s.prior

/-- At most one version of a lineage is in force. -/
def AtMostOne (s : State V C) : Prop := ∀ a b, Lineage s a b → s.inForce a → s.inForce b → a = b

/-- The version of a lineage in force holds the resource. -/
def Held (s : State V C) (v : V) (c : C) : Prop := ∃ q, Lineage s v q ∧ s.inForce q ∧ s.holds q c

/-- A version succeeds at most one other. -/
structure Ordered (s : State V C) : Prop where
  sole : ∀ a b x, s.prior a x → s.prior b x → a = b
  proper : ∀ a, ¬ s.prior a a

/-- Nothing of the lineage is in force but what the version succeeds. -/
def Timely (s : State V C) (new : V) : Prop := ∀ q, Lineage s q new → s.inForce q → s.prior q new

/-! ## Moves -/

/-- Nothing about versions changes. -/
structure Stays (s s' : State V C) : Prop where
  inForce : ∀ a, s'.inForce a ↔ s.inForce a
  prior : ∀ a b, s'.prior a b ↔ s.prior a b
  holds : ∀ v c, s.holds v c → s'.holds v c

/-- A new version, not in force, succeeds another or none. -/
structure Creates (s s' : State V C) (new : V) (succeeded : Option V) : Prop where
  first : ∀ a, ¬ s.prior a new
  last : ∀ a, ¬ s.prior new a
  idle : ¬ s.inForce new
  other : succeeded ≠ some new
  inForce : ∀ a, s'.inForce a ↔ s.inForce a
  prior : ∀ a b, s'.prior a b ↔ s.prior a b ∨ succeeded = some a ∧ b = new
  holds : ∀ v c, s.holds v c → s'.holds v c

/-- A version comes into force and retires what it succeeds. -/
structure Enters (s s' : State V C) (new : V) : Prop where
  idle : ¬ s.inForce new
  inForce : ∀ a, s'.inForce a ↔ (s.inForce a ∨ a = new) ∧ ¬ s.prior a new
  prior : ∀ a b, s'.prior a b ↔ s.prior a b
  holds : ∀ v c, s.holds v c → ¬ s.prior v new → s'.holds v c
  taken : ∀ v c, s.holds v c → s.prior v new → s'.holds new c

section Lineages

variable {s s' : State V C} {a b c : V}

theorem Lineage.refl (a : V) : Lineage s a a := Relation.EqvGen.refl a

theorem Lineage.symm (h : Lineage s a b) : Lineage s b a := Relation.EqvGen.symm _ _ h

theorem Lineage.trans (h : Lineage s a b) (h' : Lineage s b c) : Lineage s a c := Relation.EqvGen.trans _ _ _ h h'

theorem Lineage.of_prior (h : s.prior a b) : Lineage s a b := .rel _ _ h

theorem lineage_mono (h : ∀ a b, s.prior a b → s'.prior a b) (hab : Lineage s a b) : Lineage s' a b :=
  Relation.EqvGen.mono (fun a b hprior => h a b hprior) a b hab

theorem lineage_congr (h : ∀ a b, s'.prior a b ↔ s.prior a b) : Lineage s' a b ↔ Lineage s a b :=
  ⟨lineage_mono fun a b => (h a b).1, lineage_mono fun a b => (h a b).2⟩

/-- Where nothing succeeds anything, a version is a lineage of its own. -/
theorem lineage_alone (h : ∀ a b, ¬ s.prior a b) (hab : Lineage s a b) : a = b := by
  induction hab with
  | rel a b hprior => exact absurd hprior (h a b)
  | refl a => rfl
  | symm a b _ ih => exact ih.symm
  | trans a b c _ _ ih ih' => exact ih.trans ih'

/-- A new version joins no two lineages. -/
theorem Creates.lineage {new : V} {succeeded : Option V} (h : Creates s s' new succeeded) (ha : a ≠ new) (hb : b ≠ new)
    (hab : Lineage s' a b) : Lineage s a b := by
  classical
  -- the new version stands for the one it succeeds
  let f : V → V := fun x => if x = new then succeeded.getD new else x
  have hold : ∀ x, x ≠ new → f x = x := fun x hx => if_neg hx
  have hmap : ∀ x y, Lineage s' x y → Lineage s (f x) (f y) := by
    intro x y hxy
    induction hxy with
    | rel x y hprior =>
      rcases (h.prior x y).1 hprior with hprior | ⟨hsome, rfl⟩
      · have hx : x ≠ new := fun heq => h.last y (heq ▸ hprior)
        have hy : y ≠ new := fun heq => h.first x (heq ▸ hprior)
        rw [hold x hx, hold y hy]
        exact .of_prior hprior
      · have hx : x ≠ y := fun heq => h.other (by rw [hsome, heq])
        have hnew : f y = x := by simp [f, hsome]
        rw [hold x hx, hnew]
        exact .refl x
    | refl x => exact .refl _
    | symm x y _ ih => exact ih.symm
    | trans x y z _ _ ih₁ ih₂ => exact ih₁.trans ih₂
  have hfinal := hmap a b hab
  rwa [hold a ha, hold b hb] at hfinal

end Lineages

/-! ## What moves keep -/

section Moves

variable {s s' : State V C} {new : V} {succeeded : Option V}

theorem Stays.ordered (h : Stays s s') (ho : Ordered s) : Ordered s' where
  sole a b x ha hb := ho.sole a b x ((h.prior a x).1 ha) ((h.prior b x).1 hb)
  proper a ha := ho.proper a ((h.prior a a).1 ha)

theorem Enters.ordered (h : Enters s s' new) (ho : Ordered s) : Ordered s' where
  sole a b x ha hb := ho.sole a b x ((h.prior a x).1 ha) ((h.prior b x).1 hb)
  proper a ha := ho.proper a ((h.prior a a).1 ha)

theorem Creates.ordered (h : Creates s s' new succeeded) (ho : Ordered s) : Ordered s' where
  sole a b x ha hb := by
    rcases (h.prior a x).1 ha with ha | ⟨hsa, hxa⟩
    · rcases (h.prior b x).1 hb with hb | ⟨-, rfl⟩
      · exact ho.sole a b x ha hb
      · exact absurd ha (h.first a)
    · rcases (h.prior b x).1 hb with hb | ⟨hsb, -⟩
      · subst hxa
        exact absurd hb (h.first b)
      · exact Option.some.inj (hsa.symm.trans hsb)
  proper a ha := by
    rcases (h.prior a a).1 ha with ha | ⟨hsome, heq⟩
    · exact ho.proper a ha
    · exact h.other (by rw [hsome, heq])

theorem Stays.atMostOne (h : Stays s s') : AtMostOne s' ↔ AtMostOne s := by
  unfold AtMostOne
  simp only [h.inForce, lineage_congr h.prior]

theorem Creates.atMostOne (h : Creates s s' new succeeded) (hone : AtMostOne s) : AtMostOne s' := by
  intro a b hab ha hb
  have ha' := (h.inForce a).1 ha
  have hb' := (h.inForce b).1 hb
  exact hone a b (h.lineage (fun heq => h.idle (heq ▸ ha')) (fun heq => h.idle (heq ▸ hb')) hab) ha' hb'

/-- **One in force**: a version may come into force where nothing of its lineage is in force but its prior. -/
theorem Enters.atMostOne (h : Enters s s' new) (hone : AtMostOne s) (htimely : Timely s new) : AtMostOne s' := by
  intro a b hab ha hb
  rw [lineage_congr h.prior] at hab
  obtain ⟨ha, hpa⟩ := (h.inForce a).1 ha
  obtain ⟨hb, hpb⟩ := (h.inForce b).1 hb
  rcases ha with ha | rfl
  · rcases hb with hb | rfl
    · exact hone a b hab ha hb
    · exact absurd (htimely a hab ha) hpa
  · rcases hb with hb | rfl
    · exact absurd (htimely b hab.symm hb) hpb
    · rfl

/-- **And only there.** -/
theorem Enters.timely (h : Enters s s' new) (ho : Ordered s) (hone : AtMostOne s') : Timely s new := by
  intro q hq hforce
  by_contra hno
  have hnew : s'.inForce new := (h.inForce new).2 ⟨.inr rfl, ho.proper new⟩
  have hq' : s'.inForce q := (h.inForce q).2 ⟨.inl hforce, hno⟩
  have heq : q = new := hone q new ((lineage_congr h.prior).2 hq) hq' hnew
  exact h.idle (heq ▸ hforce)

theorem Stays.held (h : Stays s s') {v : V} {c : C} (hheld : Held s v c) : Held s' v c := by
  obtain ⟨q, hq, hforce, hc⟩ := hheld
  exact ⟨q, (lineage_congr h.prior).2 hq, (h.inForce q).2 hforce, h.holds q c hc⟩

theorem Creates.held (h : Creates s s' new succeeded) {v : V} {c : C} (hheld : Held s v c) : Held s' v c := by
  obtain ⟨q, hq, hforce, hc⟩ := hheld
  exact ⟨q, lineage_mono (fun a b hprior => (h.prior a b).2 (.inl hprior)) hq, (h.inForce q).2 hforce, h.holds q c hc⟩

/-- **What the lineage's version in force holds** goes to the one that comes into force after it. -/
theorem Enters.held (h : Enters s s' new) (ho : Ordered s) {v : V} {c : C}
    (hheld : Held s v c) : Held s' v c := by
  obtain ⟨q, hq, hforce, hc⟩ := hheld
  by_cases hprior : s.prior q new
  · have hlineage : Lineage s v new := hq.trans (.of_prior hprior)
    exact ⟨new, (lineage_congr h.prior).2 hlineage, (h.inForce new).2 ⟨.inr rfl, ho.proper new⟩, h.taken q c hc hprior⟩
  · exact ⟨q, (lineage_congr h.prior).2 hq, (h.inForce q).2 ⟨.inl hforce, hprior⟩, h.holds q c hc hprior⟩

end Moves

end Succession
