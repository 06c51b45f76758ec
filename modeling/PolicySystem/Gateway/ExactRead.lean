import Mathlib
import PolicySystem.Gateway.Digest
import PolicySystem.Gateway.ExactFloats

/-!
# Floats are read back exactly

* `scaled_exact`: **no step of the scaling loses a bit**, `exact_scaling`: the scaled float is an integer of at most
  2^55, and the integer scaled back is the float;
* `rows_filled`: what a loop over the rows of a column makes of a dict;
* `exact_read_back`: **the four columns of a property map are restored to it.**
-/

namespace PolicySystem

open Std (ExtTreeMap)

open Text

/-! ## Floats and their bits -/

section Floats

theorem Double.toNat_ofBits {bits : ℕ} (h : bits < 2 ^ 64) : (Double.ofBits bits).bits.toNat = bits :=
  UInt64.toNat_ofNat_of_lt h

theorem Double.ofBits_toNat (d : Double) : Double.ofBits d.bits.toNat = d := by
  cases d
  exact congrArg Double.mk UInt64.ofNat_toNat

theorem Double.isFinite_eq (d : Double) : d.isFinite = Binary64.isFinite d.bits.toNat := rfl

theorem Double.isZero_iff {d : Double} : d.isZero = true ↔ d.value = 0 := by
  rw [Double.isZero, decide_eq_true_iff, Double.value, Binary64.value_eq_zero]

theorem Double.value_ne_zero {d : Double} (h : d.isZero = false) : d.value ≠ 0 := by
  intro h0
  rw [Double.isZero_iff.2 h0] at h
  cases h

theorem Double.mantissa_ne_zero {d : Double} (h : d.isZero = false) : Binary64.mantissa d.bits.toNat ≠ 0 :=
  fun h0 => Double.value_ne_zero h (Binary64.value_eq_zero.2 h0)

/-- A zero is one of two. -/
theorem Double.zero_cases {d : Double} (h : d.isZero = true) :
    d = if Binary64.isNegative d.bits.toNat then .negativeZero else .positiveZero := by
  have hlt := d.bits.toNat_lt
  have hmantissa : Binary64.mantissa d.bits.toNat = 0 := of_decide_eq_true h
  have hfields : d.bits.toNat / 2 ^ 52 % 2 ^ 11 = 0 ∧ d.bits.toNat % 2 ^ 52 = 0 := by
    unfold Binary64.mantissa Binary64.biasedExponent at hmantissa
    split at hmantissa <;> omega
  apply Double.eq_of_toNat
  unfold Binary64.isNegative
  by_cases hnegative : 2 ^ 63 ≤ d.bits.toNat
  · have hbits : d.bits.toNat = 2 ^ 63 := by omega
    rw [if_pos (decide_eq_true hnegative), hbits]
    rfl
  · have hbits : d.bits.toNat = 0 := by omega
    rw [if_neg (by simpa using hnegative), hbits]
    rfl

/-- A float within range of a finite one's value. -/
theorem Double.exists_scaled {v : Double} {k : ℤ} (hlow : -1074 ≤ Binary64.exponent v.bits.toNat + k)
    (hhigh : Binary64.exponent v.bits.toNat + k ≤ 971) :
    ∃ w : Double, w.isFinite = true ∧ w.value = v.value * 2 ^ k := by
  obtain ⟨w, hlt, hfinite, hvalue⟩ := Binary64.exists_scaled hlow hhigh
  refine ⟨Double.ofBits w, ?_, ?_⟩
  · rw [Double.isFinite_eq, Double.toNat_ofBits hlt, hfinite]
  · rw [Double.value, Double.toNat_ofBits hlt, hvalue, Double.value]

end Floats

/-! ## Scaling -/

section Scaling

variable {F : FalkorFloats} {digits : UnicodeDigits} {v : Double} {s : ℤ}

/-- **Where the scale and the exponent of a float stand.** The significand has `n + 1` bits. -/
structure Scale (v : Double) (s : ℤ) (n : ℕ) : Prop where
  log : n = Nat.log 2 (Binary64.mantissa v.bits.toNat)
  bits : n ≤ 52
  full : n = 52 ∨ Binary64.exponent v.bits.toNat = -1074
  low : -1074 ≤ Binary64.exponent v.bits.toNat
  high : Binary64.exponent v.bits.toNat ≤ 971
  lower : 52 - (n + Binary64.exponent v.bits.toNat) ≤ s
  upper : s ≤ 54 - (n + Binary64.exponent v.bits.toNat)

theorem scale_of_estimate (hfinite : v.isFinite = true) (hzero : v.isZero = false)
    (hs : |s - (53 - Int.log 2 |v.value|)| ≤ 1) : ∃ n, Scale v s n := by
  have hmantissa := Double.mantissa_ne_zero hzero
  have hnormal : Binary64.Normalized (Binary64.mantissa v.bits.toNat) (Binary64.exponent v.bits.toNat) :=
    Binary64.normalized_unpack hfinite
  have hlog : Int.log 2 |v.value| = Nat.log 2 (Binary64.mantissa v.bits.toNat) + Binary64.exponent v.bits.toNat := by
    rw [Double.value, Binary64.abs_value, Binary64.log_magnitude hmantissa]
  have hbits : Nat.log 2 (Binary64.mantissa v.bits.toNat) < 53 := Nat.log_lt_of_lt_pow hmantissa hnormal.lt
  have hfull : Nat.log 2 (Binary64.mantissa v.bits.toNat) = 52 ∨ Binary64.exponent v.bits.toNat = -1074 := by
    refine hnormal.full.imp_left fun hfull => ?_
    have hge : 52 ≤ Nat.log 2 (Binary64.mantissa v.bits.toNat) := Nat.le_log_of_pow_le (by norm_num) hfull
    omega
  rw [hlog, abs_le] at hs
  exact ⟨_, rfl, by omega, hfull, hnormal.low, hnormal.high, by omega, by omega⟩

/-- **No step of the scaling loses a bit**: both products are what they are over the rationals. -/
theorem scaled_exact (hF : F.Documented digits) (hfinite : v.isFinite = true) (hzero : v.isZero = false)
    (hs : |s - (53 - Int.log 2 |v.value|)| ≤ 1) :
    (F.mul v (F.pow2 (F.half s))).isFinite = true ∧ (F.mul v (F.pow2 (F.half s))).value = v.value * 2 ^ F.half s ∧
      (F.scaled v s).isFinite = true ∧ (F.scaled v s).value = v.value * 2 ^ s := by
  obtain ⟨n, scale⟩ := scale_of_estimate hfinite hzero hs
  have hhalf := abs_le.1 (hF.half s)
  have hbits := scale.bits
  have hfull := scale.full
  have hlow := scale.low
  have hhigh := scale.high
  have hlower := scale.lower
  have hupper := scale.upper
  -- half way the exponent stays far from both ends
  obtain ⟨y, hyfinite, hy⟩ := Double.exists_scaled (v := v) (k := F.half s) (by omega) (by omega)
  obtain ⟨z, hzfinite, hz⟩ := Double.exists_scaled (v := v) (k := s) (by omega) (by omega)
  have hyzero : y.isZero = false := by
    rw [Bool.eq_false_iff, ne_eq, Double.isZero_iff, hy]
    exact mul_ne_zero (Double.value_ne_zero hzero) (by positivity)
  have hrest : z.value = y.value * 2 ^ (s - F.half s) := by
    rw [hz, hy, mul_assoc, ← zpow_add₀ (by norm_num), add_sub_cancel]
  have hfirst : F.mul v (F.pow2 (F.half s)) = y :=
    hF.mul_pow2 v y (F.half s) hfinite hyfinite hzero (by omega) (by omega) hy
  have hsecond : F.scaled v s = z := by
    rw [FalkorFloats.scaled, hfirst]
    exact hF.mul_pow2 y z (s - F.half s) hyfinite hzfinite hyzero (by omega) (by omega) hrest
  rw [hfirst, hsecond]
  exact ⟨hyfinite, hy, hzfinite, hz⟩

/-- The scaled float is an integer of at most 2^55. -/
theorem exists_scaled_int (hfinite : v.isFinite = true) (hzero : v.isZero = false)
    (hs : |s - (53 - Int.log 2 |v.value|)| ≤ 1) : ∃ m : ℤ, v.value * 2 ^ s = m ∧ m ≠ 0 ∧ |m| ≤ 2 ^ 55 := by
  obtain ⟨n, scale⟩ := scale_of_estimate hfinite hzero hs
  have hlower := scale.lower
  have hupper := scale.upper
  have hbits := scale.bits
  have hfull := scale.full
  obtain ⟨k, hk⟩ : ∃ k : ℕ, (k : ℤ) = Binary64.exponent v.bits.toNat + s :=
    ⟨(Binary64.exponent v.bits.toNat + s).toNat, Int.toNat_of_nonneg (by omega)⟩
  have hmagnitude : Binary64.magnitude v.bits.toNat * 2 ^ s = (Binary64.mantissa v.bits.toNat * 2 ^ k : ℕ) := by
    rw [Binary64.magnitude, mul_assoc, ← zpow_add₀ (by norm_num), ← hk, zpow_natCast]
    push_cast
    rfl
  have hbound : Binary64.mantissa v.bits.toNat * 2 ^ k ≤ 2 ^ 55 := by
    have hlt : Binary64.mantissa v.bits.toNat < 2 ^ (n + 1) := by
      rw [scale.log]
      exact Nat.lt_pow_succ_log_self (by norm_num) _
    calc Binary64.mantissa v.bits.toNat * 2 ^ k ≤ 2 ^ (n + 1) * 2 ^ k := Nat.mul_le_mul_right _ hlt.le
      _ = 2 ^ (n + 1 + k) := (pow_add 2 _ _).symm
      _ ≤ 2 ^ 55 := Nat.pow_le_pow_right (by norm_num) (by omega)
  have hpos : 0 < Binary64.mantissa v.bits.toNat * 2 ^ k :=
    Nat.mul_pos (Nat.pos_of_ne_zero (Double.mantissa_ne_zero hzero)) (by positivity)
  unfold Double.value Binary64.value
  split
  · refine ⟨-(Binary64.mantissa v.bits.toNat * 2 ^ k : ℕ), ?_, by omega, ?_⟩
    · rw [neg_mul, hmagnitude]
      push_cast
      rfl
    · rw [abs_neg, Nat.abs_cast]
      exact_mod_cast hbound
  · refine ⟨(Binary64.mantissa v.bits.toNat * 2 ^ k : ℕ), ?_, by omega, ?_⟩
    · rw [hmagnitude]
      push_cast
      rfl
    · rw [Nat.abs_cast]
      exact_mod_cast hbound

/-- A float with the value `v * 2^s`, scaled back. -/
theorem ldexp_scaled {w : Double} (hfinite : v.isFinite = true) (hzero : v.isZero = false) (hw : w.isFinite = true)
    (h : w.value = v.value * 2 ^ s) : w.ldexp (-s) = some v := by
  rw [Double.ldexp, Binary64.ldexp_of_scaled v.bits.toNat_lt hfinite (Double.mantissa_ne_zero hzero) hw h,
    Option.map_some, Double.ofBits_toNat]

/-- **The scaled float is an integer of at most 2^55, and the integer scaled back is the float.** -/
theorem exact_scaling (hF : F.Documented digits) (hfinite : v.isFinite = true) (hzero : v.isZero = false)
    (hs : |s - (53 - Int.log 2 |v.value|)| ≤ 1) : ∃ m : ℤ, F.toInteger (F.scaled v s) = m ∧ (m : ℚ) = v.value * 2 ^ s ∧
      m ≠ 0 ∧ |m| ≤ 2 ^ 55 ∧ scaleBack s m = some v := by
  obtain ⟨-, -, hscaled, hvalue⟩ := scaled_exact hF hfinite hzero hs
  obtain ⟨m, hm, hne, hbound⟩ := exists_scaled_int hfinite hzero hs
  have hint : (F.scaled v s).value = m := by rw [hvalue, hm]
  refine ⟨m, hF.toInteger _ m hscaled hint (lt_of_le_of_lt hbound (by norm_num)), hm.symm, hne, hbound, ?_⟩
  have hfloat : Double.ofInt m = some (F.scaled v s) := by
    rw [Double.ofInt, Binary64.ofInt_value (F.scaled v s).bits.toNat_lt hscaled hne hint, Option.map_some,
      Double.ofBits_toNat]
  rw [scaleBack, hfloat, Option.bind_some, ldexp_scaled hfinite hzero hscaled hvalue]

/-- The text of a scalar is read back. -/
theorem decode_encode (hF : F.Documented digits) (hfinite : v.isFinite = true) (hzero : v.isZero = false) :
    decode digits (F.encode v) = some v := by
  have hs := hF.estimate v hfinite hzero
  obtain ⟨-, -, hscaled, hvalue⟩ := scaled_exact hF hfinite hzero hs
  obtain ⟨m, hm, hne, hbound⟩ := exists_scaled_int hfinite hzero hs
  have hint : (F.scaled v (F.scaleOf v)).value = m := by rw [hvalue, hm]
  have hnonzero : (F.scaled v (F.scaleOf v)).isZero = false := by
    rw [Bool.eq_false_iff, ne_eq, Double.isZero_iff, hint]
    exact_mod_cast hne
  have htext := hF.toText _ m hscaled hnonzero hint hbound
  simp only [decode, FalkorFloats.encode, pairsOf, List.mapM_cons, List.mapM_nil, Option.bind_eq_bind, Option.bind_some,
    Option.pure_def, intOf, htext, Double.ofBits_toNat]
  exact ldexp_scaled hfinite hzero hscaled hvalue

end Scaling

/-! ## Rows -/

section Rows

open FalkorFloats

variable {X : Type} {cells : PropertyValue → Option (List PyValue)} {es : List (String × PropertyValue)}

theorem mapM_map_some {α β γ : Type} {f : α → β} {h : β → Option γ} {g : α → γ} {xs : List α}
    (hx : ∀ x ∈ xs, h (f x) = some (g x)) : (xs.map f).mapM h = some (xs.map g) := by
  induction xs with
  | nil => rfl
  | cons x xs ih =>
    have hrest := ih fun y hy => hx y (List.mem_cons_of_mem _ hy)
    rw [List.map_cons, List.mapM_cons, hx x List.mem_cons_self, hrest]
    rfl

/-- Rows with one cell besides the key. -/
theorem pairsOf_rows {g : PropertyValue → Option PyValue} (h : ∀ v, cells v = (g v).map fun x => [x]) :
    pairsOf (rows cells es) = some (es.filterMap fun e => (g e.2).map fun x => (PyValue.str e.1, x)) := by
  unfold rows pairsOf
  dsimp only
  induction es with
  | nil => rfl
  | cons e es ih =>
    rw [List.filterMap_cons, List.filterMap_cons, h]
    cases g e.2 with
    | none => exact ih
    | some x =>
      dsimp only [Option.map_some]
      rw [List.mapM_cons, ih]
      rfl

/-- Rows with two. -/
theorem triplesOf_rows {g : PropertyValue → Option (PyValue × PyValue)}
    (h : ∀ v, cells v = (g v).map fun x => [x.1, x.2]) :
    triplesOf (rows cells es) = some (es.filterMap fun e => (g e.2).map fun x => (PyValue.str e.1, x)) := by
  unfold rows triplesOf
  dsimp only
  induction es with
  | nil => rfl
  | cons e es ih =>
    rw [List.filterMap_cons, List.filterMap_cons, h]
    cases g e.2 with
    | none => exact ih
    | some x =>
      dsimp only [Option.map_some]
      rw [List.mapM_cons, ih]
      rfl

/-- **A loop over the rows of distinct keys** sets what each row sets and leaves the other keys. -/
theorem rows_filled {g : PropertyValue → Option X} {put : PropertyValue → Option PyValue}
    {step : RestoredMap → PyValue × X → Option RestoredMap} (hnodup : (es.map Prod.fst).Nodup) {m : RestoredMap}
    (hnone : ∀ v, g v = none → put v = none)
    (hstep : ∀ k v x, (k, v) ∈ es → g v = some x → ∀ m' : RestoredMap, m'[k]? = m[k]? →
      ∃ y, put v = some y ∧ step m' (.str k, x) = some (m'.insert k y)) :
    ∃ m' : RestoredMap, (es.filterMap fun e => (g e.2).map fun x => (PyValue.str e.1, x)).foldlM step m = some m' ∧
      (∀ k v, (k, v) ∈ es → m'[k]? = (put v).or m[k]?) ∧ ∀ k, k ∉ es.map Prod.fst → m'[k]? = m[k]? := by
  induction es generalizing m with
  | nil => exact ⟨m, rfl, fun k v h => absurd h List.not_mem_nil, fun _ _ => rfl⟩
  | cons e es ih =>
    rw [List.map_cons, List.nodup_cons] at hnodup
    have hother : ∀ k v, (k, v) ∈ es → k ≠ e.1 := by
      rintro k v hmem rfl
      exact hnodup.1 (List.mem_map.2 ⟨(e.1, v), hmem, rfl⟩)
    -- what the first row makes of the dict, which is only at its own key
    obtain ⟨m₁, hfirst, hown, hframe⟩ : ∃ m₁ : RestoredMap,
        ((g e.2).map fun x => (PyValue.str e.1, x)).toList.foldlM step m = some m₁ ∧ m₁[e.1]? = (put e.2).or m[e.1]? ∧
        ∀ k, k ≠ e.1 → m₁[k]? = m[k]? := by
      cases hg : g e.2 with
      | none => exact ⟨m, rfl, by rw [hnone _ hg, Option.none_or], fun _ _ => rfl⟩
      | some x =>
        obtain ⟨y, hput, hy⟩ := hstep e.1 e.2 x List.mem_cons_self hg m rfl
        refine ⟨m.insert e.1 y, ?_, ?_, fun k hk => ?_⟩
        · simp [hy]
        · rw [hput, ExtTreeMap.getElem?_insert_self, Option.some_or]
        · rw [ExtTreeMap.getElem?_insert, if_neg (by simpa using Ne.symm hk)]
    obtain ⟨m', hrest, hat, hframe'⟩ := ih (m := m₁) hnodup.2 fun k v x hmem hg m' hm' =>
      hstep k v x (List.mem_cons_of_mem _ hmem) hg m' (by rw [hm', hframe k (hother k v hmem)])
    refine ⟨m', ?_, ?_, ?_⟩
    · have hsplit : ((e :: es).filterMap fun e => (g e.2).map fun x => (PyValue.str e.1, x)) =
          ((g e.2).map fun x => (PyValue.str e.1, x)).toList ++
            es.filterMap fun e => (g e.2).map fun x => (PyValue.str e.1, x) := by
        rw [List.filterMap_cons]
        cases g e.2 <;> rfl
      rw [hsplit, List.foldlM_append, hfirst]
      exact hrest
    · intro k v hmem
      rcases List.mem_cons.1 hmem with rfl | hmem
      · rw [hframe' k hnodup.1, hown]
      · rw [hat k v hmem, hframe k (hother k v hmem)]
    · intro k hk
      rw [List.map_cons, List.mem_cons, not_or] at hk
      rw [hframe' k hk.2, hframe k hk.1]

end Rows

/-! ## The stored map -/

/-- The properties of a map in some order, as `keys(p)` goes through them. -/
structure EntriesOf (p : PropertyMap) (es : List (String × PropertyValue)) : Prop where
  nodup : (es.map Prod.fst).Nodup
  mem : ∀ k v, (k, v) ∈ es ↔ p[k]? = some v

def Scalar.FloatFinite : Scalar → Prop
  | .float d => d.isFinite = true
  | _ => True

/-- Every float of the value is finite. -/
def PropertyValue.FloatsFinite : PropertyValue → Prop
  | .scalar s => s.FloatFinite
  | .list items => ∀ s ∈ items, s.FloatFinite

/-- A loop over the rows of a map. -/
theorem EntriesOf.filled {p : PropertyMap} {es : List (String × PropertyValue)} (hes : EntriesOf p es) {X : Type}
    {g : PropertyValue → Option X} (put : PropertyValue → Option PyValue)
    (step : RestoredMap → PyValue × X → Option RestoredMap) {m : RestoredMap} (hnone : ∀ v, g v = none → put v = none)
    (hstep : ∀ (k : String) v x, p[k]? = some v → g v = some x → ∀ m' : RestoredMap, m'[k]? = m[k]? →
      ∃ y, put v = some y ∧ step m' (.str k, x) = some (m'.insert k y)) :
    ∃ m' : RestoredMap, (es.filterMap fun e => (g e.2).map fun x => (PyValue.str e.1, x)).foldlM step m = some m' ∧
      ∀ k : String, m'[k]? = (p[k]?.bind put).or m[k]? := by
  obtain ⟨m', hfold, hat, hframe⟩ := rows_filled hes.nodup hnone fun k v x hmem =>
    hstep k v x ((hes.mem k v).1 hmem)
  refine ⟨m', hfold, fun k => ?_⟩
  cases hk : p[k]? with
  | some v => exact hat k v ((hes.mem k v).2 hk)
  | none =>
    refine hframe k fun hmem => ?_
    obtain ⟨e, he, rfl⟩ := List.mem_map.1 hmem
    rw [(hes.mem e.1 e.2).1 he] at hk
    cases hk

/-! ## Lists -/

section Lists

open FalkorFloats

variable {F : FalkorFloats} {digits : UnicodeDigits}

theorem alignedIntegers_map {α : Type} (f g : α → ℤ) (xs : List α) :
    alignedIntegers (.list (xs.map fun x => .int (f x))) (.list (xs.map fun x => .int (g x))) =
      some (xs.map fun x => (f x, g x)) := by
  have hf : (xs.map fun x => PyValue.int (f x)).mapM exactIntOf = some (xs.map f) := mapM_map_some fun _ _ => rfl
  have hg : (xs.map fun x => PyValue.int (g x)).mapM exactIntOf = some (xs.map g) := mapM_map_some fun _ _ => rfl
  have hlength : (xs.map f).length = (xs.map g).length := by simp
  unfold alignedIntegers
  simp only [hf, hg, Option.bind_eq_bind, Option.bind_some, if_pos hlength, List.zip_map']

theorem floatItem_ne {scale integer : ℤ} (h : integer ≠ 0) :
    floatItem (scale, integer) = (scaleBack scale integer).map .float := if_pos h

theorem patchItem_ne {item : PyValue} {scale integer : ℤ} (h : integer ≠ 0) :
    patchItem (item, scale, integer) = (scaleBack scale integer).map .float := if_pos h

theorem nonzeroFloat_some {d : Double} (h : d.isZero = false) : nonzeroFloat (.float d) = some d :=
  if_neg (by simp [h])

/-- One item of a float list. -/
theorem floatItem_scaled (hF : F.Documented digits) {x : Scalar} (hfloat : isFloat x = true) (hfinite : x.FloatFinite) :
    floatItem (F.scaleOfFloat x, F.integerOfFloat x) = some x.toPy := by
  cases x with
  | float d =>
    cases hzero : d.isZero with
    | true =>
      -- the sign of a zero is its scale
      have hd := Double.zero_cases hzero
      have hscale : F.scaleOfFloat (.float d) = if Binary64.isNegative d.bits.toNat then 1 else 0 := if_pos hzero
      have hinteger : F.integerOfFloat (.float d) = 0 := if_pos hzero
      rw [hscale, hinteger, Scalar.toPy]
      cases hnegative : Binary64.isNegative d.bits.toNat with
      | true =>
        rw [hnegative, if_pos rfl] at hd
        rw [hd]
        rfl
      | false =>
        rw [hnegative, if_neg (by simp)] at hd
        rw [hd]
        rfl
    | false =>
      obtain ⟨m, hm, -, hne, -, hback⟩ := exact_scaling hF hfinite hzero (hF.estimate d hfinite hzero)
      have hscale : F.scaleOfFloat (.float d) = F.scaleOf d := if_neg (by simp [hzero])
      have hinteger : F.integerOfFloat (.float d) = m := (if_neg (by simp [hzero])).trans hm
      rw [hscale, hinteger, floatItem_ne hne, hback]
      rfl
  | _ => cases hfloat

/-- One item of a mixed list. -/
theorem patchItem_scaled (hF : F.Documented digits) {x : Scalar} (hfinite : x.FloatFinite) :
    patchItem (F.shownScalar x, F.mixedScale x, F.mixedInteger x) = some x.toPy := by
  have hkept : nonzeroFloat x = none → F.shownScalar x = x.toPy →
      patchItem (F.shownScalar x, F.mixedScale x, F.mixedInteger x) = some x.toPy := by
    intro hnone hshown
    have hinteger : F.mixedInteger x = 0 := by rw [mixedInteger, hnone, Option.map_none, Option.getD_none]
    rw [hinteger, hshown]
    rfl
  cases x with
  | float d =>
    cases hzero : d.isZero with
    | true =>
      refine hkept (if_pos hzero) ?_
      rw [shownScalar, hF.shown d hzero, Scalar.toPy]
    | false =>
      obtain ⟨m, hm, -, hne, -, hback⟩ := exact_scaling hF hfinite hzero (hF.estimate d hfinite hzero)
      have hsome := nonzeroFloat_some hzero
      have hscale : F.mixedScale (.float d) = F.scaleOf d := by
        rw [mixedScale, hsome, Option.map_some, Option.getD_some]
      have hinteger : F.mixedInteger (.float d) = m := by
        rw [mixedInteger, hsome, Option.map_some, Option.getD_some, hm]
      rw [hscale, hinteger, patchItem_ne hne, hback]
      rfl
  | str _ => exact hkept rfl rfl
  | bool _ => exact hkept rfl rfl
  | int _ => exact hkept rfl rfl

/-- A list no item of which is a float other than zero is shown as it is. -/
theorem shownScalar_exact (hF : F.Documented digits) {x : Scalar} (h : nonzeroFloat x = none) :
    F.shownScalar x = x.toPy := by
  cases x with
  | float d =>
    have hzero : d.isZero = true := by
      by_contra hne
      rw [nonzeroFloat_some (Bool.eq_false_iff.2 hne)] at h
      cases h
    rw [shownScalar, hF.shown d hzero, Scalar.toPy]
  | _ => rfl

end Lists

/-! ## The four columns -/

section Columns

open FalkorFloats

variable {F : FalkorFloats} {digits : UnicodeDigits} {p : PropertyMap}

/-- What the loop over each column sets. -/
def putPair (F : FalkorFloats) (v : PropertyValue) : Option PyValue :=
  if isFloatList v then none else some (F.shownValue v)

def putScalar (v : PropertyValue) : Option PyValue := (scalarFloat v).map .float

def putFloatList (v : PropertyValue) : Option PyValue :=
  (floatListItems v).map fun items => .list (items.map Scalar.toPy)

def putMixedList (v : PropertyValue) : Option PyValue :=
  (mixedListItems v).map fun items => .list (items.map Scalar.toPy)

/-- The two cells of a list. -/
def listCells (scale integer : Scalar → ℤ) (items : List Scalar) : PyValue × PyValue :=
  (.list (items.map fun x => .int (scale x)), .list (items.map fun x => .int (integer x)))

theorem scalarFloat_some {v : PropertyValue} {d : Double} (h : scalarFloat v = some d) :
    v = .scalar (.float d) ∧ d.isZero = false := by
  cases v with
  | list items => cases h
  | scalar s =>
    cases s with
    | float e =>
      cases hzero : e.isZero with
      | true =>
        have hnone : scalarFloat (.scalar (.float e)) = none := if_pos hzero
        rw [hnone] at h
        cases h
      | false =>
        have hsome : scalarFloat (.scalar (.float e)) = some e := nonzeroFloat_some hzero
        obtain rfl := Option.some.inj (hsome.symm.trans h)
        exact ⟨rfl, hzero⟩
    | _ => cases h

theorem floatListItems_some {v : PropertyValue} {items : List Scalar} (h : floatListItems v = some items) :
    v = .list items ∧ ∀ x ∈ items, isFloat x = true := by
  cases v with
  | scalar s => cases h
  | list xs =>
    unfold floatListItems at h
    dsimp only at h
    split at h
    · rename_i hfloats
      obtain rfl := Option.some.inj h
      unfold isFloatList at hfloats
      rw [Bool.and_eq_true, List.all_eq_true] at hfloats
      exact ⟨rfl, hfloats.2⟩
    · cases h

theorem mixedListItems_some {v : PropertyValue} {items : List Scalar} (h : mixedListItems v = some items) :
    v = .list items ∧ isFloatList v = false := by
  cases v with
  | scalar s => cases h
  | list xs =>
    unfold mixedListItems at h
    dsimp only at h
    split at h
    · rename_i hmixed
      obtain rfl := Option.some.inj h
      rw [Bool.and_eq_true, Bool.not_eq_true'] at hmixed
      exact ⟨rfl, hmixed.1⟩
    · cases h

variable {es : List (String × PropertyValue)} (hes : EntriesOf p es)

include hes

theorem fromPairs_filled :
    ∃ m : RestoredMap, fromPairs (rows F.pairCells es) = some m ∧ ∀ k : String, m[k]? = p[k]?.bind (putPair F) := by
  have hcells : ∀ v, F.pairCells v = (putPair F v).map fun x => [x] := by
    intro v
    unfold pairCells putPair
    split <;> rfl
  obtain ⟨m, hfold, hat⟩ := hes.filled (m := ∅) (putPair F)
    (fun properties pair => (keyOf pair.1).map fun key => properties.insert key pair.2) (fun v h => h)
    fun k v x _ hx m' _ => ⟨x, hx, rfl⟩
  refine ⟨m, ?_, fun k => ?_⟩
  · rw [fromPairs, pairsOf_rows hcells]
    exact hfold
  · rw [hat k]
    simp

variable (hF : F.Documented digits) (hfinite : ∀ (k : String) v, p[k]? = some v → v.FloatsFinite)

include hF hfinite

/-- The scalars are set where the first column shows a float. -/
theorem scalars_filled {m : RestoredMap} (hm : ∀ k : String, m[k]? = p[k]?.bind (putPair F)) :
    ∃ m' : RestoredMap,
      ((pairsOf (rows F.scalarCells es)).bind fun pairs => pairs.foldlM (restoreScalar digits) m) = some m' ∧
      ∀ k : String, m'[k]? = (p[k]?.bind putScalar).or m[k]? := by
  have hcells : ∀ v, F.scalarCells v = ((scalarFloat v).map F.encode).map fun x => [x] := by
    intro v
    rw [scalarCells, Option.map_map]
    rfl
  have hnone : ∀ v, (scalarFloat v).map F.encode = none → putScalar v = none := by
    intro v h
    rw [putScalar, Option.map_eq_none_iff.1 h, Option.map_none]
  rw [pairsOf_rows hcells, Option.bind_some]
  refine hes.filled putScalar (restoreScalar digits) hnone fun k v x hv hx m' hm' => ?_
  obtain ⟨d, hd, rfl⟩ := Option.map_eq_some_iff.1 hx
  obtain ⟨rfl, hzero⟩ := scalarFloat_some hd
  -- the first column has shown a float, if not this one
  have hshown : m'[k]? = some (.float (F.shown d)) := by
    rw [hm', hm, hv]
    rfl
  have hkey : floatKey m' (.str k) = some k := by
    simp [floatKey, keyOf, hshown, isPyFloat]
  refine ⟨.float d, by rw [putScalar, hd, Option.map_some], ?_⟩
  simp only [restoreScalar, decode_encode hF (hfinite k _ hv) hzero, hkey, Option.bind_eq_bind, Option.bind_some,
    Option.pure_def]

/-- The lists of floats are set. -/
theorem floatLists_filled {m : RestoredMap} :
    ∃ m' : RestoredMap,
      ((triplesOf (rows F.floatListCells es)).bind fun triples => triples.foldlM restoreFloatList m) = some m' ∧
      ∀ k : String, m'[k]? = (p[k]?.bind putFloatList).or m[k]? := by
  have hcells : ∀ v, F.floatListCells v =
      ((floatListItems v).map (listCells F.scaleOfFloat F.integerOfFloat)).map fun x => [x.1, x.2] := by
    intro v
    rw [floatListCells, Option.map_map]
    rfl
  rw [triplesOf_rows hcells, Option.bind_some]
  refine hes.filled (g := fun v => (floatListItems v).map (listCells F.scaleOfFloat F.integerOfFloat)) putFloatList
    restoreFloatList (fun v h => ?_) fun k v x hv hx m' hm' => ?_
  · rw [putFloatList, Option.map_eq_none_iff.1 h, Option.map_none]
  · obtain ⟨items, hitems, rfl⟩ := Option.map_eq_some_iff.1 hx
    obtain ⟨rfl, hfloats⟩ := floatListItems_some hitems
    have hlist : floatList (.list (items.map fun x => .int (F.scaleOfFloat x)))
        (.list (items.map fun x => .int (F.integerOfFloat x))) = some (.list (items.map Scalar.toPy)) := by
      have hmap : (items.map fun x => (F.scaleOfFloat x, F.integerOfFloat x)).mapM floatItem =
          some (items.map Scalar.toPy) := mapM_map_some fun x hx => floatItem_scaled hF (hfloats x hx) (hfinite k _ hv x hx)
      simp only [floatList, alignedIntegers_map, Option.bind_eq_bind, Option.bind_some, hmap, Option.pure_def]
    refine ⟨.list (items.map Scalar.toPy), by rw [putFloatList, hitems, Option.map_some], ?_⟩
    simp only [restoreFloatList, keyOf, listCells, hlist, Option.bind_eq_bind, Option.bind_some, Option.pure_def]

/-- The other lists are patched where the first column shows them. -/
theorem mixedLists_filled {m : RestoredMap} (hm : ∀ (k : String) items, p[k]? = some (.list items) →
      isFloatList (.list items) = false → m[k]? = some (.list (items.map F.shownScalar))) :
    ∃ m' : RestoredMap,
      ((triplesOf (rows F.mixedListCells es)).bind fun triples => triples.foldlM restoreMixedList m) = some m' ∧
      ∀ k : String, m'[k]? = (p[k]?.bind putMixedList).or m[k]? := by
  have hcells : ∀ v, F.mixedListCells v =
      ((mixedListItems v).map (listCells F.mixedScale F.mixedInteger)).map fun x => [x.1, x.2] := by
    intro v
    rw [mixedListCells, Option.map_map]
    rfl
  rw [triplesOf_rows hcells, Option.bind_some]
  refine hes.filled (g := fun v => (mixedListItems v).map (listCells F.mixedScale F.mixedInteger)) putMixedList
    restoreMixedList (fun v h => ?_) fun k v x hv hx m' hm' => ?_
  · rw [putMixedList, Option.map_eq_none_iff.1 h, Option.map_none]
  · obtain ⟨items, hitems, rfl⟩ := Option.map_eq_some_iff.1 hx
    obtain ⟨rfl, hmixed⟩ := mixedListItems_some hitems
    have hproperty : listProperty m' (.str k) = some (k, items.map F.shownScalar) := by
      simp only [listProperty, keyOf, Option.bind_eq_bind, Option.bind_some, hm', hm k items hv hmixed]
    have hlist : patchList (items.map F.shownScalar) (.list (items.map fun x => .int (F.mixedScale x)))
        (.list (items.map fun x => .int (F.mixedInteger x))) = some (.list (items.map Scalar.toPy)) := by
      have hmap : (items.map fun x => (F.shownScalar x, F.mixedScale x, F.mixedInteger x)).mapM patchItem =
          some (items.map Scalar.toPy) := mapM_map_some fun x hx => patchItem_scaled hF (hfinite k _ hv x hx)
      have hlength : (items.map fun x => (F.mixedScale x, F.mixedInteger x)).length =
          (items.map F.shownScalar).length := by simp
      simp only [patchList, alignedIntegers_map, Option.bind_eq_bind, Option.bind_some, if_pos hlength,
        List.zip_map', hmap, Option.pure_def]
    refine ⟨.list (items.map Scalar.toPy), by rw [putMixedList, hitems, Option.map_some], ?_⟩
    simp only [restoreMixedList, hproperty, listCells, hlist, Option.bind_eq_bind, Option.bind_some, Option.pure_def]

end Columns

/-! ## The read -/

section Read

open FalkorFloats

variable {F : FalkorFloats} {digits : UnicodeDigits}

/-- What the four loops set at a property, the last of them first. -/
theorem put_exact (hF : F.Documented digits) (v : PropertyValue) :
    (putMixedList v).or ((putFloatList v).or ((putScalar v).or (putPair F v))) = some v.toPy := by
  cases v with
  | scalar s =>
    have hlists : putMixedList (.scalar s) = none ∧ putFloatList (.scalar s) = none := ⟨rfl, rfl⟩
    rw [hlists.1, hlists.2, Option.none_or, Option.none_or]
    cases hfloat : nonzeroFloat s with
    | some d =>
      have hscalar : scalarFloat (.scalar s) = some d := hfloat
      obtain ⟨heq, -⟩ := scalarFloat_some hscalar
      rw [putScalar, hscalar, heq]
      rfl
    | none =>
      have hscalar : scalarFloat (.scalar s) = none := hfloat
      rw [putScalar, hscalar, Option.map_none, Option.none_or, putPair, if_neg (by simp [isFloatList]), shownValue,
        shownScalar_exact hF hfloat]
      rfl
  | list items =>
    have hscalar : putScalar (.list items) = none := rfl
    rw [hscalar, Option.none_or]
    cases hlist : isFloatList (.list items) with
    | true =>
      have hmixed : mixedListItems (.list items) = none := if_neg (by simp [hlist])
      have hfloats : floatListItems (.list items) = some items := if_pos hlist
      rw [putMixedList, putFloatList, hmixed, hfloats]
      rfl
    | false =>
      have hfloats : floatListItems (.list items) = none := if_neg (by simp [hlist])
      rw [putFloatList, hfloats, Option.map_none, Option.none_or, putPair, if_neg (by simp [hlist])]
      by_cases hany : (items.any fun x => (nonzeroFloat x).isSome) = true
      · have hmixed : mixedListItems (.list items) = some items := if_pos (by rw [hlist, hany]; rfl)
        rw [putMixedList, hmixed]
        rfl
      · have hmixed : mixedListItems (.list items) = none := if_neg (by rw [Bool.eq_false_iff.2 hany]; simp)
        have hshown : items.map F.shownScalar = items.map Scalar.toPy := by
          refine List.map_congr_left fun x hx => shownScalar_exact hF ?_
          by_contra hsome
          exact hany (List.any_eq_true.2 ⟨x, hx, Option.isSome_iff_ne_none.2 hsome⟩)
        rw [putMixedList, hmixed, Option.map_none, Option.none_or, shownValue, hshown]
        rfl

/-- **The four columns of a property map are restored to it.** -/
theorem restoreProperties_columns (hF : F.Documented digits) {p : PropertyMap}
    {pairs scalars floatLists mixedLists : List (String × PropertyValue)} (hpairs : EntriesOf p pairs)
    (hscalars : EntriesOf p scalars) (hfloats : EntriesOf p floatLists) (hmixed : EntriesOf p mixedLists)
    (hfinite : ∀ (k : String) v, p[k]? = some v → v.FloatsFinite) :
    restoreProperties digits (rows F.pairCells pairs) (rows F.scalarCells scalars) (rows F.floatListCells floatLists)
      (rows F.mixedListCells mixedLists) = some (p.map fun _ v => v.toPy) := by
  obtain ⟨m₁, h₁, hat₁⟩ := fromPairs_filled (F := F) hpairs
  obtain ⟨m₂, h₂, hat₂⟩ := scalars_filled hscalars hF hfinite hat₁
  obtain ⟨m₃, h₃, hat₃⟩ := floatLists_filled hfloats hF hfinite (m := m₂)
  have hshown : ∀ (k : String) items, p[k]? = some (.list items) → isFloatList (.list items) = false →
      m₃[k]? = some (.list (items.map F.shownScalar)) := by
    intro k items hk hlist
    have hnone : floatListItems (.list items) = none := if_neg (by simp [hlist])
    rw [hat₃, hat₂, hat₁, hk, Option.bind_some, Option.bind_some, Option.bind_some, putFloatList, hnone, putPair,
      if_neg (by simp [hlist])]
    rfl
  obtain ⟨m₄, h₄, hat₄⟩ := mixedLists_filled hmixed hF hfinite hshown
  have hrun : restoreProperties digits (rows F.pairCells pairs) (rows F.scalarCells scalars)
      (rows F.floatListCells floatLists) (rows F.mixedListCells mixedLists) = some m₄ := by
    obtain ⟨rows₂, hrows₂, hfold₂⟩ := Option.bind_eq_some_iff.1 h₂
    obtain ⟨rows₃, hrows₃, hfold₃⟩ := Option.bind_eq_some_iff.1 h₃
    obtain ⟨rows₄, hrows₄, hfold₄⟩ := Option.bind_eq_some_iff.1 h₄
    simp only [restoreProperties, h₁, hrows₂, hfold₂, hrows₃, hfold₃, hrows₄, hfold₄, Option.bind_eq_bind,
      Option.bind_some]
  rw [hrun]
  refine congrArg some (ExtTreeMap.ext_getElem? fun {k} => ?_)
  rw [hat₄, hat₃, hat₂, hat₁, ExtTreeMap.getElem?_map]
  cases p[k]? with
  | none => rfl
  | some v => exact put_exact hF v

/-- **Floats are read back exactly.** A finite float other than zero, under any scale estimate within one binade, is
scaled without a loss to an integer of at most 2^55 which scaled back is the float; and what the four columns show of a
property map of finite floats is restored to it. -/
theorem exact_float_reads (hF : F.Documented digits) :
    (∀ (v : Double) (s : ℤ), v.isFinite = true → v.isZero = false → |s - (53 - Int.log 2 |v.value|)| ≤ 1 →
      (F.mul v (F.pow2 (F.half s))).value = v.value * 2 ^ F.half s ∧ (F.scaled v s).value = v.value * 2 ^ s ∧
      ∃ m : ℤ, F.toInteger (F.scaled v s) = m ∧ (m : ℚ) = v.value * 2 ^ s ∧ |m| ≤ 2 ^ 55 ∧ scaleBack s m = some v) ∧
    ∀ (p : PropertyMap) (pairs scalars floatLists mixedLists : List (String × PropertyValue)), EntriesOf p pairs →
      EntriesOf p scalars → EntriesOf p floatLists → EntriesOf p mixedLists →
      (∀ (k : String) v, p[k]? = some v → v.FloatsFinite) →
      restoreProperties digits (rows F.pairCells pairs) (rows F.scalarCells scalars) (rows F.floatListCells floatLists)
        (rows F.mixedListCells mixedLists) = some (p.map fun _ v => v.toPy) := by
  constructor
  · intro v s hfinite hzero hs
    obtain ⟨-, hfirst, -, hsecond⟩ := scaled_exact hF hfinite hzero hs
    obtain ⟨m, hm, hvalue, -, hbound, hback⟩ := exact_scaling hF hfinite hzero hs
    exact ⟨hfirst, hsecond, m, hm, hvalue, hbound, hback⟩
  · intro p pairs scalars floatLists mixedLists hpairs hscalars hfloats hmixed hfinite
    exact restoreProperties_columns hF hpairs hscalars hfloats hmixed hfinite

/-- The properties of a map in the order of their keys. -/
theorem entriesOf_toList (p : PropertyMap) : EntriesOf p p.toList := by
  constructor
  · have hdistinct := p.distinct_keys_toList
    refine List.pairwise_map.2 (hdistinct.imp fun h heq => h ?_)
    rw [heq]
    exact Std.ReflCmp.compare_self
  · intro k v
    exact ExtTreeMap.mem_toList_iff_getElem?_eq_some

end Read

/-! ## A database that computes on bits -/

section Sample

open FalkorFloats

/-- The nearest float to a signed rational. -/
def nearest (negative : Bool) (q : ℚ) : Double := .ofBits (Binary64.roundNearest negative q)

/-- `%.15g`, read back. -/
def fifteenDigits (d : Double) : Double :=
  if d.isZero then d
  else
    let q := |d.value|
    let k := Int.log 10 q + 1 - 15
    nearest (Binary64.isNegative d.bits.toNat) (Binary64.roundHalfEven (q / 10 ^ k) * 10 ^ k)

/-- `%f`. -/
def sixDecimals (d : Double) : Numeral :=
  let n := Binary64.roundHalfEven (|d.value| * 10 ^ 6)
  let decimals := digitsOf (n % 10 ^ 6)
  ⟨Binary64.isNegative d.bits.toNat, digitsOf (n / 10 ^ 6), List.replicate (6 - decimals.length) 0 ++ decimals, none⟩

/-- IEEE arithmetic, truncation towards zero, and C's formats. -/
def sampleFalkor : FalkorFloats where
  scaleOf v := 53 - Int.log 2 |v.value|
  half s := s.tdiv 2
  pow2 k := nearest false (2 ^ k)
  mul x y := nearest (Binary64.isNegative x.bits.toNat != Binary64.isNegative y.bits.toNat) (|x.value| * |y.value|)
  toInteger x := if Binary64.isNegative x.bits.toNat then -⌊|x.value|⌋ else ⌊|x.value|⌋
  toText x := String.ofList (sixDecimals x).render
  shown := fifteenDigits

theorem Double.abs_value (d : Double) : |d.value| = Binary64.magnitude d.bits.toNat := Binary64.abs_value _

/-- A finite float is the nearest one to itself. -/
theorem nearest_value {d : Double} (h : d.isFinite = true) :
    nearest (Binary64.isNegative d.bits.toNat) |d.value| = d := by
  rw [nearest, Double.abs_value, Binary64.roundNearest_magnitude d.bits.toNat_lt h, Double.ofBits_toNat]

/-- A power of two within range. -/
theorem sampleFalkor_pow2 {k : ℤ} (hlow : -1022 ≤ k) (hhigh : k ≤ 1023) :
    |(sampleFalkor.pow2 k).value| = 2 ^ k ∧ Binary64.isNegative (sampleFalkor.pow2 k).bits.toNat = false := by
  have hsplit : (2 : ℚ) ^ k = (2 ^ 52 : ℕ) * 2 ^ (k - 52) := by
    have hcast : ((2 ^ 52 : ℕ) : ℚ) = 2 ^ (52 : ℤ) := by norm_num
    rw [hcast, ← zpow_add₀ (by norm_num), add_sub_cancel]
  obtain ⟨hlt, -, hnegative, hmagnitude⟩ :=
    Binary64.roundNearest_dyadic false (show 2 ^ 52 < 2 ^ 53 by norm_num) (show -1074 ≤ k - 52 by omega) (by omega)
  rw [← hsplit] at hlt hnegative hmagnitude
  have hbits : (sampleFalkor.pow2 k).bits.toNat = Binary64.roundNearest false (2 ^ k) := Double.toNat_ofBits hlt
  exact ⟨by rw [Double.abs_value, hbits, hmagnitude], by rw [hbits, hnegative]⟩

theorem sixDecimals_int {x : Double} {i : ℤ} (h : x.value = i) : sixDecimals x =
    ⟨Binary64.isNegative x.bits.toNat, digitsOf i.natAbs, List.replicate 6 0, none⟩ := by
  have hscaled : |x.value| * 10 ^ 6 = ((i.natAbs * 10 ^ 6 : ℕ) : ℚ) := by
    rw [h, Nat.cast_mul, Nat.cast_natAbs, Int.cast_abs]
    norm_num
  unfold sixDecimals
  rw [hscaled, Binary64.roundHalfEven_natCast]
  have hzero : i.natAbs * 10 ^ 6 % 10 ^ 6 = 0 := Nat.mul_mod_left _ _
  have hdiv : i.natAbs * 10 ^ 6 / 10 ^ 6 = i.natAbs := Nat.mul_div_cancel _ (by norm_num)
  have hdigits : digitsOf 0 = [0] := by rw [digitsOf, if_pos (by norm_num)]; rfl
  dsimp only
  rw [hzero, hdiv, hdigits]
  rfl

theorem sampleFalkor_toText {digits : UnicodeDigits} {x : Double} {i : ℤ} (hfinite : x.isFinite = true)
    (h : x.value = i) : digits.pyFloat (sampleFalkor.toText x).toList = some x.bits.toNat := by
  have hwell : (sixDecimals x).WellFormed := by
    rw [sixDecimals_int h]
    exact ⟨digitsOf_ne_nil _, digitsOf_head _, by simp⟩
  have hvalue : Binary64.absValue (sixDecimals x) = |x.value| := by
    rw [sixDecimals_int h, Binary64.absValue, natOf_append, natOf_digitsOf, natOf_replicate_zero, h, ← Int.cast_abs,
      ← Nat.cast_natAbs]
    simp only [Binary64.exponentValue, List.length_replicate, add_zero]
    push_cast
    norm_num
    rw [mul_assoc, mul_one_div_cancel (by norm_num), mul_one]
  have hsign : (sixDecimals x).negative = Binary64.isNegative x.bits.toNat := rfl
  have htext : (sampleFalkor.toText x).toList = (sixDecimals x).render := String.toList_ofList
  rw [htext, pyFloat_render hwell, Binary64.ofNumeral, hvalue, hsign, Double.abs_value,
    Binary64.roundNearest_magnitude x.bits.toNat_lt hfinite]

theorem sampleFalkor_documented (digits : UnicodeDigits) : sampleFalkor.Documented digits := by
  refine ⟨fun v _ _ => ?_, fun s => ?_, ?_, ?_, fun x i hfinite _ h _ => sampleFalkor_toText hfinite h, ?_⟩
  · have hsame : sampleFalkor.scaleOf v = 53 - Int.log 2 |v.value| := rfl
    rw [hsame, sub_self, abs_zero]
    norm_num
  · have hhalf : sampleFalkor.half s = s.tdiv 2 := rfl
    have hsplit := Int.mul_tdiv_add_tmod s 2
    have hupper := Int.tmod_lt_of_pos s (show (0 : ℤ) < 2 by norm_num)
    have hlower := Int.lt_tmod_of_pos s (show (0 : ℤ) < 2 by norm_num)
    rw [hhalf, abs_le]
    omega
  · intro x y k hx hy hzero hlow hhigh hvalue
    obtain ⟨hpow, hpositive⟩ := sampleFalkor_pow2 hlow hhigh
    have hpos : (0 : ℚ) < 2 ^ k := by positivity
    have hsign : Binary64.isNegative y.bits.toNat = Binary64.isNegative x.bits.toNat :=
      Binary64.isNegative_of_scaled (Double.value_ne_zero hzero) hpos hvalue
    have habs : |x.value| * |(sampleFalkor.pow2 k).value| = |y.value| := by
      rw [hpow, hvalue, abs_mul, abs_of_pos hpos]
    have hmul : sampleFalkor.mul x (sampleFalkor.pow2 k) = nearest
        (Binary64.isNegative x.bits.toNat != Binary64.isNegative (sampleFalkor.pow2 k).bits.toNat)
        (|x.value| * |(sampleFalkor.pow2 k).value|) := rfl
    rw [hmul, habs, hpositive, Bool.bne_false, ← hsign, nearest_value hy]
  · intro x i hfinite h _
    have hint : sampleFalkor.toInteger x =
        if Binary64.isNegative x.bits.toNat then -⌊|x.value|⌋ else ⌊|x.value|⌋ := rfl
    have hfloor : ⌊|x.value|⌋ = |i| := by rw [h, ← Int.cast_abs, Int.floor_intCast]
    rw [hint, hfloor]
    by_cases hzero : i = 0
    · subst hzero
      simp
    · have hne : x.value ≠ 0 := by
        rw [h]
        exact_mod_cast hzero
      have hsign := Binary64.isNegative_eq hne
      change Binary64.isNegative x.bits.toNat = decide (x.value < 0) at hsign
      rw [hsign, h]
      by_cases hneg : i < 0
      · rw [if_pos (decide_eq_true (by exact_mod_cast hneg)), abs_of_neg hneg, neg_neg]
      · rw [if_neg (by simpa using hneg), abs_of_nonneg (not_lt.1 hneg)]
  · intro v hzero
    exact if_pos hzero

/-- `0.1 + 0.2`, which a reply shows as `0.3`, and the largest float, which it shows as an infinity. -/
def thirdFloat : Double := ⟨0x3FD3333333333334⟩

def largestFloat : Double := ⟨0x7FEFFFFFFFFFFFFF⟩

example : fifteenDigits thirdFloat ≠ thirdFloat ∧ (fifteenDigits largestFloat).isFinite = false := by decide +kernel

/-- A negative zero, a scalar, a list of floats from the smallest to the largest, and a mixed list. -/
def floatItems : List (String × PropertyValue) :=
  [("balance", .scalar (.float .negativeZero)), ("ratio", .scalar (.float thirdFloat)),
    ("weights", .list [.float ⟨1⟩, .float .negativeZero, .float largestFloat]),
    ("notes", .list [.str "a", .float thirdFloat, .int 3])]

theorem floatItems_finite : ∀ e ∈ floatItems, e.2.FloatsFinite := by
  intro e he
  unfold floatItems at he
  simp only [List.mem_cons, List.not_mem_nil, or_false] at he
  rcases he with rfl | rfl | rfl | rfl
  · rfl
  · rfl
  · intro x hx
    simp only [List.mem_cons, List.not_mem_nil, or_false] at hx
    rcases hx with rfl | rfl | rfl <;> rfl
  · intro x hx
    simp only [List.mem_cons, List.not_mem_nil, or_false] at hx
    rcases hx with rfl | rfl | rfl <;> trivial

theorem exact_float_reads_sample :
    (∃ m : ℤ, sampleFalkor.toInteger (sampleFalkor.scaled thirdFloat 56) = m ∧
      (m : ℚ) = thirdFloat.value * 2 ^ (56 : ℤ) ∧ |m| ≤ 2 ^ 55 ∧ scaleBack 56 m = some thirdFloat) ∧
    restoreProperties ⟨fun _ => none, fun _ => false⟩
      (rows sampleFalkor.pairCells (ExtTreeMap.ofList floatItems : PropertyMap).toList)
      (rows sampleFalkor.scalarCells (ExtTreeMap.ofList floatItems : PropertyMap).toList)
      (rows sampleFalkor.floatListCells (ExtTreeMap.ofList floatItems : PropertyMap).toList)
      (rows sampleFalkor.mixedListCells (ExtTreeMap.ofList floatItems : PropertyMap).toList) =
        some ((ExtTreeMap.ofList floatItems : PropertyMap).map fun _ v => v.toPy) := by
  have hreads := exact_float_reads (sampleFalkor_documented ⟨fun _ => none, fun _ => false⟩)
  have hfinite : ∀ (k : String) v, (ExtTreeMap.ofList floatItems : PropertyMap)[k]? = some v → v.FloatsFinite :=
    fun k v hk => floatItems_finite (k, v) (mem_of_getElem?_ofList hk)
  have hentries := entriesOf_toList (ExtTreeMap.ofList floatItems)
  refine ⟨?_, hreads.2 _ _ _ _ _ hentries hentries hentries hentries hfinite⟩
  exact (hreads.1 thirdFloat 56 (by decide) (by decide) (by decide +kernel)).2.2

end Sample

end PolicySystem
