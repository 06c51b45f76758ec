import Mathlib.Data.List.Forall2

/-!
# Encodings that say where they end

A partial encoding into symbols is a prefix code for an equivalence of values when an encoding at the head of a text
determines the value up to the equivalence, whatever follows.

* `Delimits`, `PrefixCode`: the encoding at two values, and at all;
* `PrefixCode.eq_iff`, `PrefixCode.eq_of_starts`: **equal encodings are encodings of the same value, and none is a
  proper prefix of another**;
* `PrefixCode.pair`, `delimits_concat`, `PrefixCode.list`: one encoding after another, and a list behind its length.
-/

namespace Text

variable {α β γ : Type}

/-- What is encoded of `a` and of `b` can be told apart at the head of a text, and only where they differ. -/
def Delimits (encode : α → Option (List γ)) (Same : α → α → Prop) (a b : α) : Prop :=
  ∀ x y, encode a = some x → encode b = some y →
    (∀ r s, x ++ r = y ++ s → Same a b) ∧ (Same a b → x = y)

/-- An encoding that says where it ends. -/
def PrefixCode (encode : α → Option (List γ)) (Same : α → α → Prop) : Prop := ∀ a b, Delimits encode Same a b

section Rules

variable {f : α → Option (List γ)} {g : β → Option (List γ)} {R : α → α → Prop} {S : β → β → Prop} {a b : α}
  {c d : β} {x y r s : List γ}

/-- Two texts with an encoding at their head agree on it and on what follows. -/
theorem Delimits.split (h : Delimits f R a b) (ha : f a = some x) (hb : f b = some y) (htext : x ++ r = y ++ s) :
    R a b ∧ x = y ∧ r = s := by
  obtain ⟨hsame, heq⟩ := h x y ha hb
  have hR : R a b := hsame r s htext
  have hxy : x = y := heq hR
  refine ⟨hR, hxy, ?_⟩
  rw [hxy] at htext
  exact List.append_cancel_left htext

/-- **Equal encodings are encodings of the same value.** -/
theorem Delimits.eq_iff (h : Delimits f R a b) (ha : f a = some x) (hb : f b = some y) : x = y ↔ R a b := by
  constructor
  · intro heq
    exact (h.split (r := []) (s := []) ha hb (by rw [heq])).1
  · exact (h x y ha hb).2

/-- **No encoding is a proper prefix of another.** -/
theorem Delimits.eq_of_starts (h : Delimits f R a b) (ha : f a = some x) (hb : f b = some y) (hpre : x <+: y) :
    x = y := by
  obtain ⟨rest, hrest⟩ := hpre
  exact (h.split (r := rest) (s := []) ha hb (by rw [hrest, List.append_nil])).2.1

/-- The same symbols ahead of every encoding. -/
theorem Delimits.tagged (h : Delimits f R a b) (tag : List γ) :
    Delimits (fun a => (f a).map (tag ++ ·)) R a b := by
  intro x y hx hy
  obtain ⟨x', hx', rfl⟩ := Option.map_eq_some_iff.1 hx
  obtain ⟨y', hy', rfl⟩ := Option.map_eq_some_iff.1 hy
  obtain ⟨hsame, heq⟩ := h x' y' hx' hy'
  refine ⟨fun r s htext => ?_, fun hR => by rw [heq hR]⟩
  rw [List.append_assoc, List.append_assoc] at htext
  exact hsame r s (List.append_cancel_left htext)

/-- The encoding of two values is that of two others, which are the same where these are. -/
theorem Delimits.congr (h : Delimits g S c d) (ha : f a = g c) (hb : f b = g d) (hR : R a b ↔ S c d) :
    Delimits f R a b := by
  intro x y hx hy
  rw [ha] at hx
  rw [hb] at hy
  rw [hR]
  exact h x y hx hy

/-- Encodings of one width that tell values apart. -/
theorem prefixCode_of_width (width : ℕ) (hwidth : ∀ a x, f a = some x → x.length = width)
    (hinj : ∀ a b x, f a = some x → f b = some x → R a b)
    (hsound : ∀ a b x y, f a = some x → f b = some y → R a b → x = y) : PrefixCode f R := by
  intro a b x y hx hy
  have hlength : x.length = y.length := by rw [hwidth a x hx, hwidth b y hy]
  refine ⟨fun r s htext => ?_, hsound a b x y hx hy⟩
  have hxy : x = y := (List.append_inj htext hlength).1
  rw [← hxy] at hy
  exact hinj a b x hx hy

/-- One encoding after another. -/
def encodePair (f : α → Option (List γ)) (g : β → Option (List γ)) (p : α × β) : Option (List γ) := do
  return (← f p.1) ++ (← g p.2)

theorem encodePair_eq_some {p : α × β} (h : encodePair f g p = some x) :
    ∃ u v, f p.1 = some u ∧ g p.2 = some v ∧ x = u ++ v := by
  unfold encodePair at h
  obtain ⟨u, hu, h⟩ := Option.bind_eq_some_iff.1 h
  obtain ⟨v, hv, h⟩ := Option.bind_eq_some_iff.1 h
  exact ⟨u, v, hu, hv, (Option.some.inj h).symm⟩

theorem delimits_pair {p q : α × β} (hf : Delimits f R p.1 q.1) (hg : Delimits g S p.2 q.2) :
    Delimits (encodePair f g) (fun p q => R p.1 q.1 ∧ S p.2 q.2) p q := by
  intro x y hx hy
  obtain ⟨u, v, hu, hv, rfl⟩ := encodePair_eq_some hx
  obtain ⟨u', v', hu', hv', rfl⟩ := encodePair_eq_some hy
  constructor
  · intro r s htext
    rw [List.append_assoc, List.append_assoc] at htext
    obtain ⟨hR, -, hrest⟩ := hf.split hu hu' htext
    exact ⟨hR, (hg.split hv hv' hrest).1⟩
  · rintro ⟨hR, hS⟩
    rw [(hf.eq_iff hu hu').2 hR, (hg.eq_iff hv hv').2 hS]

theorem PrefixCode.pair (hf : PrefixCode f R) (hg : PrefixCode g S) :
    PrefixCode (encodePair f g) fun p q => R p.1 q.1 ∧ S p.2 q.2 := fun _ _ => delimits_pair (hf _ _) (hg _ _)

/-! ## Lists -/

/-- The encodings of the items one after another. -/
def concat (f : α → Option (List γ)) : List α → Option (List γ)
  | [] => some []
  | item :: items => do
    return (← f item) ++ (← concat f items)

theorem concat_cons (a : α) (items : List α) : concat f (a :: items) = encodePair f (concat f) (a, items) := rfl

/-- Lists of one length. -/
theorem delimits_concat {items items' : List α} (h : ∀ a ∈ items, ∀ b ∈ items', Delimits f R a b)
    (hlength : items.length = items'.length) : Delimits (concat f) (List.Forall₂ R) items items' := by
  induction items generalizing items' with
  | nil =>
    have hnil : items' = [] := List.length_eq_zero_iff.1 hlength.symm
    subst hnil
    intro x y hx hy
    cases hx
    cases hy
    exact ⟨fun _ _ _ => .nil, fun _ => rfl⟩
  | cons a items ih =>
    cases items' with
    | nil => cases hlength
    | cons b items' =>
      have hhead : Delimits f R a b := h a List.mem_cons_self b List.mem_cons_self
      have htail : Delimits (concat f) (List.Forall₂ R) items items' :=
        ih (fun a ha b hb => h a (List.mem_cons_of_mem _ ha) b (List.mem_cons_of_mem _ hb)) (Nat.succ.inj hlength)
      have hpair := @delimits_pair _ _ _ f (concat f) R (List.Forall₂ R) (a, items) (b, items') hhead htail
      intro x y hx hy
      rw [concat_cons] at hx hy
      obtain ⟨hsame, heq⟩ := hpair x y hx hy
      refine ⟨fun r s htext => ?_, fun hall => ?_⟩
      · obtain ⟨hR, hrest⟩ := hsame r s htext
        exact .cons hR hrest
      · cases hall with
        | cons hR hrest => exact heq ⟨hR, hrest⟩

/-- The items behind their number. -/
def encodeList (size : ℕ → Option (List γ)) (f : α → Option (List γ)) (items : List α) : Option (List γ) :=
  encodePair size (concat f) (items.length, items)

theorem delimits_list {size : ℕ → Option (List γ)} (hsize : PrefixCode size Eq) {items items' : List α}
    (h : ∀ a ∈ items, ∀ b ∈ items', Delimits f R a b) : Delimits (encodeList size f) (List.Forall₂ R) items items' := by
  intro x y hx hy
  obtain ⟨u, v, hu, hv, rfl⟩ := encodePair_eq_some hx
  obtain ⟨u', v', hu', hv', rfl⟩ := encodePair_eq_some hy
  constructor
  · intro r s htext
    rw [List.append_assoc, List.append_assoc] at htext
    obtain ⟨hlength, -, hrest⟩ := (hsize _ _).split hu hu' htext
    exact ((delimits_concat h hlength).split hv hv' hrest).1
  · intro hall
    have hlength : items.length = items'.length := hall.length_eq
    rw [((hsize _ _).eq_iff hu hu').2 hlength, ((delimits_concat h hlength).eq_iff hv hv').2 hall]

theorem PrefixCode.list {size : ℕ → Option (List γ)} (hsize : PrefixCode size Eq) (h : PrefixCode f R) :
    PrefixCode (encodeList size f) (List.Forall₂ R) := fun _ _ => delimits_list hsize fun a _ b _ => h a b

end Rules

end Text
