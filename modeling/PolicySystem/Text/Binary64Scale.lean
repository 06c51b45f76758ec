import Mathlib
import PolicySystem.Text.Binary64

/-!
# Binary64 floats as dyadic rationals

* `value`: the number a finite float stands for, `eq_of_value`: told apart by it, the zeros aside;
* `roundNearest_dyadic`: a significand of at most 53 bits with an exponent in range is a float;
* `ofInt`, `ldexp`: Python's `float(i)` and `math.ldexp`;
* `exists_scaled`: a float scaled within range is a float;
* `ofInt_value`, `ldexp_of_scaled`: **the scaled float, as an integer and back, gives the float.**
-/

namespace Text

namespace Binary64

/-! ## Packing -/

section Packing

variable {m : ℕ} {e : ℤ} (negative : Bool)

theorem pack_eq (h : Normalized m e) : pack negative m e =
    (if negative then 2 ^ 63 else 0) +
      (if m < 2 ^ 52 then 0 else (e + 1075).toNat) * 2 ^ 52 + (if m < 2 ^ 52 then m else m - 2 ^ 52) := by
  have hhigh := h.high
  unfold pack
  by_cases hm : m < 2 ^ 52
  · simp only [if_pos hm]
    omega
  · simp only [if_neg hm]
    rw [if_neg (by omega)]

/-- The exponent field and the fraction of a packed float, as numbers. -/
theorem pack_fields (h : Normalized m e) : ∃ field fraction : ℕ,
    pack negative m e = (if negative then 2 ^ 63 else 0) + field * 2 ^ 52 + fraction ∧ field < 2047 ∧
    fraction < 2 ^ 52 ∧ (field = 0 → m = fraction ∧ e = -1074) ∧
    (field ≠ 0 → m = 2 ^ 52 + fraction ∧ e = field - 1075) := by
  have hlow := h.low
  have hhigh := h.high
  have hlt := h.lt
  refine ⟨_, _, pack_eq negative h, ?_, ?_, ?_, ?_⟩
  · split <;> omega
  · split <;> omega
  · have hfull := h.full
    split <;> omega
  · split <;> omega

theorem pack_lt (h : Normalized m e) : pack negative m e < 2 ^ 64 := by
  obtain ⟨field, fraction, heq, hfield, hfraction, -, -⟩ := pack_fields negative h
  rw [heq]
  split <;> omega

theorem biasedExponent_pack {field fraction : ℕ} (hfield : field < 2047) (hfraction : fraction < 2 ^ 52) :
    biasedExponent ((if negative then 2 ^ 63 else 0) + field * 2 ^ 52 + fraction) = field := by
  unfold biasedExponent
  split <;> omega

theorem fraction_pack {field fraction : ℕ} (hfraction : fraction < 2 ^ 52) :
    ((if negative then 2 ^ 63 else 0) + field * 2 ^ 52 + fraction) % 2 ^ 52 = fraction := by
  split <;> omega

theorem isFinite_pack (h : Normalized m e) : isFinite (pack negative m e) = true := by
  obtain ⟨field, fraction, heq, hfield, hfraction, -, -⟩ := pack_fields negative h
  have hne : field ≠ 2047 := by omega
  rw [heq, isFinite, biasedExponent_pack negative hfield hfraction]
  exact decide_eq_true hne

theorem mantissa_pack (h : Normalized m e) : mantissa (pack negative m e) = m := by
  obtain ⟨field, fraction, heq, hfield, hfraction, hzero, hpos⟩ := pack_fields negative h
  rw [heq, mantissa, biasedExponent_pack negative hfield hfraction, fraction_pack negative hfraction]
  split
  · rename_i hz
    exact (hzero hz).1.symm
  · rename_i hz
    exact (hpos hz).1.symm

theorem exponent_pack (h : Normalized m e) : exponent (pack negative m e) = e := by
  obtain ⟨field, fraction, heq, hfield, hfraction, hzero, hpos⟩ := pack_fields negative h
  rw [heq, exponent, biasedExponent_pack negative hfield hfraction]
  split
  · rename_i hz
    exact (hzero hz).2.symm
  · rename_i hz
    exact (hpos hz).2.symm

theorem isNegative_pack (h : Normalized m e) : isNegative (pack negative m e) = negative := by
  obtain ⟨field, fraction, heq, hfield, hfraction, -, -⟩ := pack_fields negative h
  rw [heq, isNegative]
  cases negative with
  | true =>
    rw [if_pos rfl, decide_eq_true_iff]
    omega
  | false =>
    rw [if_neg (by simp), decide_eq_false_iff_not]
    omega

end Packing

/-! ## Dyadic rationals -/

/-- A significand of at most 53 bits with an exponent in range has a normalized form. -/
theorem exists_normalized {m : ℕ} {e : ℤ} (hpos : 0 < m) (hm : m < 2 ^ 53) (hlow : -1074 ≤ e) (hhigh : e ≤ 971) :
    ∃ m' e', Normalized m' e' ∧ (m' : ℚ) * 2 ^ e' = m * 2 ^ e := by
  have hlog : Nat.log 2 m < 53 := Nat.log_lt_of_lt_pow hpos.ne' hm
  have hle : 2 ^ Nat.log 2 m ≤ m := Nat.pow_log_le_self 2 hpos.ne'
  have hlt : m < 2 ^ (Nat.log 2 m + 1) := Nat.lt_pow_succ_log_self (by norm_num) m
  -- shift to the left until the significand is full, or the exponent at its floor
  obtain ⟨k, hk⟩ : ∃ k : ℕ, k = min (52 - Nat.log 2 m) (e + 1074).toNat := ⟨_, rfl⟩
  have hkfull : k ≤ 52 - Nat.log 2 m := by omega
  have hkfloor : (k : ℤ) ≤ e + 1074 := by omega
  refine ⟨m * 2 ^ k, e - k, ⟨?_, ?_, by omega, by omega⟩, ?_⟩
  · calc m * 2 ^ k < 2 ^ (Nat.log 2 m + 1) * 2 ^ k := Nat.mul_lt_mul_of_pos_right hlt (by positivity)
      _ = 2 ^ (Nat.log 2 m + 1 + k) := (pow_add 2 _ _).symm
      _ ≤ 2 ^ 53 := Nat.pow_le_pow_right (by norm_num) (by omega)
  · by_cases hfull : k = 52 - Nat.log 2 m
    · left
      calc 2 ^ 52 = 2 ^ Nat.log 2 m * 2 ^ k := by
            rw [← pow_add]
            congr 1
            omega
        _ ≤ m * 2 ^ k := Nat.mul_le_mul_right _ hle
    · right
      omega
  · rw [zpow_sub₀ (by norm_num), zpow_natCast]
    push_cast
    field_simp

/-- **Dyadic rationals in range are floats.** -/
theorem roundNearest_dyadic (negative : Bool) {m : ℕ} {e : ℤ} (hm : m < 2 ^ 53) (hlow : -1074 ≤ e) (hhigh : e ≤ 971) :
    roundNearest negative (m * 2 ^ e) < 2 ^ 64 ∧ isFinite (roundNearest negative (m * 2 ^ e)) = true ∧
      isNegative (roundNearest negative (m * 2 ^ e)) = negative ∧
      magnitude (roundNearest negative (m * 2 ^ e)) = m * 2 ^ e := by
  obtain ⟨m', e', h, hvalue⟩ : ∃ m' e', Normalized m' e' ∧ (m' : ℚ) * 2 ^ e' = m * 2 ^ e := by
    rcases Nat.eq_zero_or_pos m with rfl | hpos
    · exact ⟨0, -1074, ⟨by norm_num, .inr rfl, le_refl _, by norm_num⟩, by simp⟩
    · exact exists_normalized hpos hm hlow hhigh
  rw [← hvalue, roundNearest_normalized negative h]
  refine ⟨pack_lt negative h, isFinite_pack negative h, isNegative_pack negative h, ?_⟩
  rw [magnitude, mantissa_pack negative h, exponent_pack negative h]

/-! ## Values -/

/-- The number a finite float stands for. -/
def value (bits : ℕ) : ℚ := if isNegative bits then -magnitude bits else magnitude bits

theorem magnitude_nonneg (bits : ℕ) : 0 ≤ magnitude bits := by
  unfold magnitude
  positivity

theorem magnitude_eq_zero {bits : ℕ} : magnitude bits = 0 ↔ mantissa bits = 0 := by
  have hpow : (2 : ℚ) ^ exponent bits ≠ 0 := by positivity
  simp [magnitude, hpow]

theorem abs_value (bits : ℕ) : |value bits| = magnitude bits := by
  unfold value
  split
  · rw [abs_neg, abs_of_nonneg (magnitude_nonneg bits)]
  · rw [abs_of_nonneg (magnitude_nonneg bits)]

theorem value_eq_zero {bits : ℕ} : value bits = 0 ↔ mantissa bits = 0 := by
  rw [← magnitude_eq_zero, ← abs_value, abs_eq_zero]

theorem isNegative_eq {bits : ℕ} (h : value bits ≠ 0) : isNegative bits = decide (value bits < 0) := by
  have hpos : 0 < magnitude bits := by
    rw [← abs_value]
    exact abs_pos.2 h
  unfold value
  cases hnegative : isNegative bits with
  | true =>
    rw [if_pos rfl]
    exact (decide_eq_true (by linarith)).symm
  | false =>
    rw [if_neg (by simp)]
    exact (decide_eq_false (by linarith)).symm

/-- Scaling keeps the sign. -/
theorem isNegative_of_scaled {v w : ℕ} {q : ℚ} (hv : value v ≠ 0) (hq : 0 < q) (h : value w = value v * q) :
    isNegative w = isNegative v := by
  have hw : value w ≠ 0 := by
    rw [h]
    exact mul_ne_zero hv hq.ne'
  rw [isNegative_eq hv, isNegative_eq hw, h]
  refine decide_eq_decide.2 ⟨fun hlt => ?_, fun hlt => mul_neg_of_neg_of_pos hlt hq⟩
  by_contra hge
  exact absurd (mul_nonneg (not_lt.1 hge) hq.le) (not_le.2 hlt)

/-- **A finite float scaled within range is a float.** -/
theorem exists_scaled {v : ℕ} {k : ℤ} (hlow : -1074 ≤ exponent v + k) (hhigh : exponent v + k ≤ 971) :
    ∃ w, w < 2 ^ 64 ∧ isFinite w = true ∧ value w = value v * 2 ^ k := by
  obtain ⟨hlt, hfinite, hnegative, hmagnitude⟩ := roundNearest_dyadic (isNegative v) mantissa_lt hlow hhigh
  refine ⟨_, hlt, hfinite, ?_⟩
  have hsplit : magnitude v * 2 ^ k = mantissa v * 2 ^ (exponent v + k) := by
    rw [magnitude, mul_assoc, zpow_add₀ (by norm_num)]
  unfold value
  rw [hnegative, hmagnitude, ← hsplit]
  split
  · rw [neg_mul]
  · rfl

/-! ## Integers as floats, and scaling -/

/-- `float(i)`; `none` where it raises `OverflowError`. -/
def ofInt (i : ℤ) : Option ℕ :=
  if isFinite (roundNearest (i < 0) i.natAbs) then some (roundNearest (i < 0) i.natAbs) else none

/-- `math.ldexp(x, k)`; `none` where it raises `OverflowError`. Zeros, infinities and NaNs are given back. -/
def ldexp (bits : ℕ) (k : ℤ) : Option ℕ :=
  if isFinite bits = false ∨ mantissa bits = 0 then some bits
  else if isFinite (roundNearest (isNegative bits) (magnitude bits * 2 ^ k)) then
    some (roundNearest (isNegative bits) (magnitude bits * 2 ^ k))
  else none

/-- **The integer a float stands for is that float.** -/
theorem ofInt_value {w : ℕ} {i : ℤ} (hw : w < 2 ^ 64) (hfinite : isFinite w = true) (hne : i ≠ 0) (h : value w = i) :
    ofInt i = some w := by
  have hvalue : value w ≠ 0 := by
    rw [h]
    exact_mod_cast hne
  have hsign : isNegative w = decide (i < 0) := by
    rw [isNegative_eq hvalue, h]
    exact decide_eq_decide.2 Int.cast_lt_zero
  have hmagnitude : magnitude w = i.natAbs := by
    rw [← abs_value, h, Nat.cast_natAbs, Int.cast_abs]
  have hround := roundNearest_magnitude hw hfinite
  rw [hsign, hmagnitude] at hround
  rw [ofInt, hround, if_pos hfinite]

/-- **A float whose value is a finite float's scaled by `2 ^ s`, scaled by `2 ^ (-s)`, is that float.** -/
theorem ldexp_of_scaled {v w : ℕ} {s : ℤ} (hv : v < 2 ^ 64) (hfinite : isFinite v = true) (hzero : mantissa v ≠ 0)
    (hw : isFinite w = true) (h : value w = value v * 2 ^ s) : ldexp w (-s) = some v := by
  have hpow : (0 : ℚ) < 2 ^ s := by positivity
  have hvalue : value v ≠ 0 := fun h0 => hzero (value_eq_zero.1 h0)
  have hvalue' : value w ≠ 0 := by
    rw [h]
    exact mul_ne_zero hvalue hpow.ne'
  have hwzero : mantissa w ≠ 0 := fun h0 => hvalue' (value_eq_zero.2 h0)
  have hsign := isNegative_of_scaled hvalue hpow h
  have hback : magnitude w * 2 ^ (-s) = magnitude v := by
    rw [← abs_value w, h, abs_mul, abs_value, abs_of_pos hpow, zpow_neg, mul_assoc, mul_inv_cancel₀ hpow.ne', mul_one]
  unfold ldexp
  rw [if_neg (by simp [hw, hwzero]), hback, hsign, roundNearest_magnitude hv hfinite, if_pos hfinite]

/-- The binary exponent of a finite float that is not zero. -/
theorem log_magnitude {v : ℕ} (hzero : mantissa v ≠ 0) :
    Int.log 2 (magnitude v) = Nat.log 2 (mantissa v) + exponent v := by
  have hpow : (0 : ℚ) < 2 ^ exponent v := by positivity
  have hle : 2 ^ Nat.log 2 (mantissa v) ≤ mantissa v := Nat.pow_log_le_self 2 hzero
  have hlt : mantissa v < 2 ^ (Nat.log 2 (mantissa v) + 1) := Nat.lt_pow_succ_log_self (by norm_num) _
  apply log_eq
  · rw [zpow_add₀ (by norm_num), zpow_natCast, magnitude]
    refine mul_le_mul_of_nonneg_right ?_ hpow.le
    exact_mod_cast hle
  · rw [show (Nat.log 2 (mantissa v) : ℤ) + exponent v + 1 = ((Nat.log 2 (mantissa v) + 1 : ℕ) : ℤ) + exponent v by
      push_cast; ring, zpow_add₀ (by norm_num), zpow_natCast, magnitude]
    refine mul_lt_mul_of_pos_right ?_ hpow
    exact_mod_cast hlt

end Binary64

end Text
