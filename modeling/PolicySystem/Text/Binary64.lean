import Mathlib
import PolicySystem.Text.Json

/-!
# Texts of binary64 floats

The correctly rounded reading of a decimal literal and the shortest literal that is read back, as Python's
`float()` and `float.__repr__` compute them, on bit patterns.

* `roundNearest_magnitude`: rounding the exact value of a finite float gives the float;
* `ofNumeral_toNumeral`: the literal of a finite float is read back as that float, bit for bit.
-/

namespace Text

namespace Binary64

/-! ## Bit patterns -/

/-- The sign bit. -/
def isNegative (bits : ℕ) : Bool := 2 ^ 63 ≤ bits

def biasedExponent (bits : ℕ) : ℕ := bits / 2 ^ 52 % 2 ^ 11

/-- Neither an infinity nor a NaN. -/
def isFinite (bits : ℕ) : Bool := biasedExponent bits ≠ 2047

/-- The significand of a finite float, as an integer. -/
def mantissa (bits : ℕ) : ℕ := if biasedExponent bits = 0 then bits % 2 ^ 52 else 2 ^ 52 + bits % 2 ^ 52

/-- The exponent that goes with it. -/
def exponent (bits : ℕ) : ℤ := if biasedExponent bits = 0 then -1074 else biasedExponent bits - 1075

/-- The absolute value of a finite float. -/
def magnitude (bits : ℕ) : ℚ := mantissa bits * 2 ^ exponent bits

/-- The bits of significand and exponent; too large an exponent gives the infinity. -/
def pack (negative : Bool) (m : ℕ) (e : ℤ) : ℕ :=
  let sign := if negative then 2 ^ 63 else 0
  if m < 2 ^ 52 then sign + m
  else if 972 ≤ e then sign + 2047 * 2 ^ 52
  else sign + (e + 1075).toNat * 2 ^ 52 + (m - 2 ^ 52)

/-- Round to the nearest integer, ties to even. -/
def roundHalfEven (x : ℚ) : ℕ :=
  let below := ⌊x⌋.toNat
  if x - below < 1 / 2 then below
  else if 1 / 2 < x - below then below + 1
  else below + below % 2

/-- The float nearest to a non-negative rational, ties to even. -/
def roundNearest (negative : Bool) (q : ℚ) : ℕ :=
  if q = 0 then pack negative 0 (-1074)
  else
    let e := max (-1074) (Int.log 2 q - 52)
    let m := roundHalfEven (q / 2 ^ e)
    if m = 2 ^ 53 then pack negative (2 ^ 52) (e + 1) else pack negative m e

section

variable {bits : ℕ}

theorem isNegative_of_lt (h : bits < 2 ^ 64) :
    bits = (if isNegative bits then 2 ^ 63 else 0) + biasedExponent bits * 2 ^ 52 + bits % 2 ^ 52 := by
  unfold isNegative biasedExponent
  by_cases hs : 2 ^ 63 ≤ bits
  · rw [if_pos (by simpa using hs)]
    omega
  · rw [if_neg (by simpa using hs)]
    omega

theorem mantissa_lt : mantissa bits < 2 ^ 53 := by
  unfold mantissa
  split <;> omega

theorem exponent_ge : -1074 ≤ exponent bits := by
  unfold exponent
  split <;> omega

/-- Packing what a finite float unpacks to gives the float. -/
theorem pack_unpack (h : bits < 2 ^ 64) (hf : isFinite bits = true) :
    pack (isNegative bits) (mantissa bits) (exponent bits) = bits := by
  have hbits := isNegative_of_lt h
  have hne : biasedExponent bits ≠ 2047 := by simpa [isFinite] using hf
  have hlt : biasedExponent bits < 2 ^ 11 := Nat.mod_lt _ (by norm_num)
  unfold pack mantissa exponent
  by_cases hz : biasedExponent bits = 0
  · simp only [hz, if_true] at hbits ⊢
    rw [if_pos (by omega)]
    omega
  · simp only [hz, if_false]
    rw [if_neg (by omega), if_neg (by omega)]
    have : ((biasedExponent bits : ℤ) - 1075 + 1075).toNat = biasedExponent bits := by omega
    rw [this]
    omega

theorem roundHalfEven_natCast (m : ℕ) : roundHalfEven m = m := by
  simp [roundHalfEven]

theorem log_lt {q : ℚ} {k : ℤ} (hq : 0 < q) (h : q < (2 : ℚ) ^ k) : Int.log 2 q < k :=
  (Int.lt_zpow_iff_log_lt (b := 2) (by norm_num) hq).1 (by exact_mod_cast h)

/-- The binary exponent of a rational is the one power of two it lies above. -/
theorem log_eq {q : ℚ} {k : ℤ} (hlo : (2 : ℚ) ^ k ≤ q) (hhi : q < (2 : ℚ) ^ (k + 1)) : Int.log 2 q = k := by
  have hq : 0 < q := lt_of_lt_of_le (by positivity) hlo
  apply le_antisymm
  · have := log_lt hq hhi
    omega
  · exact (Int.zpow_le_iff_le_log (b := 2) (by norm_num) hq).1 (by exact_mod_cast hlo)

/-! ## Significands and exponents -/

/-- What the significand and the exponent of a finite float are: the significand fills 53 bits but where the exponent is
at its floor. -/
structure Normalized (m : ℕ) (e : ℤ) : Prop where
  lt : m < 2 ^ 53
  full : 2 ^ 52 ≤ m ∨ e = -1074
  low : -1074 ≤ e
  high : e ≤ 971

theorem normalized_unpack (hf : isFinite bits = true) : Normalized (mantissa bits) (exponent bits) := by
  have hne : biasedExponent bits ≠ 2047 := by simpa [isFinite] using hf
  have hlt : biasedExponent bits < 2 ^ 11 := Nat.mod_lt _ (by norm_num)
  refine ⟨mantissa_lt, ?_, exponent_ge, ?_⟩
  · unfold mantissa exponent
    by_cases hz : biasedExponent bits = 0
    · rw [if_pos hz, if_pos hz]
      exact .inr rfl
    · rw [if_neg hz, if_neg hz]
      omega
  · unfold exponent
    split <;> omega

/-- **A normalized value rounds to its significand and exponent.** -/
theorem roundNearest_normalized {m : ℕ} {e : ℤ} (negative : Bool) (h : Normalized m e) :
    roundNearest negative (m * 2 ^ e) = pack negative m e := by
  have hpos : (0 : ℚ) < 2 ^ e := by positivity
  by_cases hm : m = 0
  · have he : e = -1074 := h.full.resolve_left (by omega)
    have hq : ((m : ℚ) * 2 ^ e) = 0 := by simp [hm]
    rw [roundNearest, if_pos hq, hm, he]
  · have hq : ((m : ℚ) * 2 ^ e) ≠ 0 := by positivity
    have hmpos : (0 : ℚ) < m := by exact_mod_cast Nat.pos_of_ne_zero hm
    have hhigh : (m : ℚ) < (2 : ℚ) ^ (53 : ℤ) := by exact_mod_cast h.lt
    have hlog : max (-1074) (Int.log 2 ((m : ℚ) * 2 ^ e) - 52) = e := by
      by_cases hfull : 2 ^ 52 ≤ m
      · have hlow : (2 : ℚ) ^ (52 : ℤ) ≤ m := by exact_mod_cast hfull
        have hlog : Int.log 2 ((m : ℚ) * 2 ^ e) = 52 + e := by
          apply log_eq
          · rw [zpow_add₀ (by norm_num)]
            exact mul_le_mul_of_nonneg_right hlow hpos.le
          · rw [show 52 + e + 1 = 53 + e by ring, zpow_add₀ (by norm_num)]
            exact mul_lt_mul_of_pos_right hhigh hpos
        have hge := h.low
        omega
      · -- subnormal: the exponent is at its floor
        have he : e = -1074 := h.full.resolve_left hfull
        have hm52 : (m : ℚ) < (2 : ℚ) ^ (52 : ℤ) := by exact_mod_cast (Nat.lt_of_not_le hfull)
        have hlt : (m : ℚ) * 2 ^ e < 2 ^ (52 + e : ℤ) := by
          rw [zpow_add₀ (by norm_num)]
          exact mul_lt_mul_of_pos_right hm52 hpos
        have hlog := log_lt (mul_pos hmpos hpos) hlt
        omega
    have hx : (m : ℚ) * 2 ^ e / 2 ^ e = m := by rw [mul_div_assoc, div_self hpos.ne', mul_one]
    have hne : m ≠ 2 ^ 53 := by
      have hlt := h.lt
      omega
    rw [roundNearest, if_neg hq]
    simp only [hlog, hx, roundHalfEven_natCast]
    rw [if_neg hne]

/-- **Exact values round to themselves.** -/
theorem roundNearest_magnitude (h : bits < 2 ^ 64) (hf : isFinite bits = true) :
    roundNearest (isNegative bits) (magnitude bits) = bits := by
  rw [magnitude, roundNearest_normalized _ (normalized_unpack hf), pack_unpack h hf]

end

/-! ## Reading -/

/-- The exponent part's number. -/
def exponentValue : Option (Bool × List (Fin 10)) → ℤ
  | none => 0
  | some (negative, ds) => if negative then -(natOf ds : ℤ) else natOf ds

/-- The number a literal stands for, its sign apart. -/
def absValue (n : Numeral) : ℚ :=
  natOf (n.integer ++ n.fraction) * 10 ^ (exponentValue n.exponent - n.fraction.length)

/-- `float(text)`. -/
def ofNumeral (n : Numeral) : ℕ := roundNearest n.negative (absValue n)

/-! ## Shortest literals -/

/-- A decimal: its digits as a number, and the power of ten of the last one. -/
abbrev Decimal := ℕ × ℤ

def Decimal.value (d : Decimal) : ℚ := d.1 * 10 ^ d.2

/-- The decimals of `n` significant digits on either side of `q`, the closer one first. -/
def decimalsAround (q : ℚ) (n : ℕ) : List Decimal :=
  let k := Int.log 10 q + 1 - n
  let low := ⌊q / 10 ^ k⌋.toNat
  let above := q / 10 ^ k - low
  if above < 1 / 2 ∨ (above = 1 / 2 ∧ low % 2 = 0) then [(low, k), (low + 1, k)] else [(low + 1, k), (low, k)]

/-- The exact decimal of a finite float. -/
def exactDecimal (bits : ℕ) : Decimal :=
  if 0 ≤ exponent bits then (mantissa bits * 2 ^ (exponent bits).toNat, 0)
  else (mantissa bits * 5 ^ (-exponent bits).toNat, exponent bits)

/-- The shortest decimal that is read back as the float. Seventeen digits are always enough; the exact decimal
stands for that fact. -/
def shortest (bits : ℕ) : Decimal :=
  (((List.range 17).flatMap fun n => decimalsAround (magnitude bits) (n + 1)).find? fun d =>
    0 < d.1 ∧ roundNearest (isNegative bits) (Decimal.value d) = bits).getD (exactDecimal bits)

/-- Without its trailing zeros. -/
def stripZeros (m : ℕ) (k : ℤ) : Decimal :=
  if h : m % 10 = 0 ∧ 0 < m then stripZeros (m / 10) (k + 1) else (m, k)
termination_by m
decreasing_by omega

/-- An exponent's digits, at least two. -/
def exponentDigits (e : ℕ) : List (Fin 10) := if e < 10 then 0 :: digitsOf e else digitsOf e

/-- The literal of these digits with the point behind the first `point` of them. -/
def formatShort (negative : Bool) (ds : List (Fin 10)) (point : ℤ) : Numeral :=
  if point ≤ -4 ∨ 16 < point then
    ⟨negative, ds.take 1, ds.drop 1, some (point - 1 < 0, exponentDigits (point - 1).natAbs)⟩
  else if point ≤ 0 then ⟨negative, [0], List.replicate (-point).toNat 0 ++ ds, none⟩
  else if ds.length ≤ point.toNat then ⟨negative, ds ++ List.replicate (point.toNat - ds.length) 0, [0], none⟩
  else ⟨negative, ds.take point.toNat, ds.drop point.toNat, none⟩

/-- `float.__repr__` of a finite float. -/
def toNumeral (bits : ℕ) : Numeral :=
  if mantissa bits = 0 then ⟨isNegative bits, [0], [0], none⟩
  else
    let d := stripZeros (shortest bits).1 (shortest bits).2
    formatShort (isNegative bits) (digitsOf d.1) (d.2 + (digitsOf d.1).length)

theorem value_stripZeros (m : ℕ) (k : ℤ) : (stripZeros m k).value = Decimal.value (m, k) := by
  induction m, k using stripZeros.induct with
  | case1 m k h ih =>
    rw [stripZeros, dif_pos h, ih]
    have hm : (m : ℚ) = (m / 10 : ℕ) * 10 := by
      have : m = m / 10 * 10 := by omega
      exact_mod_cast this
    simp only [Decimal.value]
    rw [zpow_add₀ (by norm_num), hm]
    ring
  | case2 m k h => rw [stripZeros, dif_neg h]

theorem stripZeros_pos {m : ℕ} (k : ℤ) (h : 0 < m) : 0 < (stripZeros m k).1 := by
  induction m, k using stripZeros.induct with
  | case1 m k hm ih =>
    rw [stripZeros, dif_pos hm]
    exact ih (by omega)
  | case2 m k hm =>
    rw [stripZeros, dif_neg hm]
    exact h

theorem value_exactDecimal (bits : ℕ) : (exactDecimal bits).value = magnitude bits := by
  unfold exactDecimal magnitude Decimal.value
  split
  · rename_i h
    have hexp : ((exponent bits).toNat : ℤ) = exponent bits := Int.toNat_of_nonneg h
    conv_rhs => rw [← hexp, zpow_natCast]
    rw [zpow_zero, mul_one]
    push_cast
    rfl
  · rename_i h
    have hexp : ((-exponent bits).toNat : ℤ) = -exponent bits := Int.toNat_of_nonneg (by omega)
    have hpow : (5 : ℚ) ^ (-exponent bits).toNat * 10 ^ exponent bits = 2 ^ exponent bits := by
      rw [← zpow_natCast, hexp, show (10 : ℚ) = 5 * 2 by norm_num, mul_zpow, ← mul_assoc, ← zpow_add₀ (by norm_num)]
      simp
    push_cast
    rw [mul_assoc, hpow]

/-- **The shortest decimal is read back.** -/
theorem roundNearest_shortest {bits : ℕ} (h : bits < 2 ^ 64) (hf : isFinite bits = true) :
    roundNearest (isNegative bits) (shortest bits).value = bits := by
  unfold shortest
  cases hfind : List.find? _ _ with
  | none => rw [Option.getD_none, value_exactDecimal, roundNearest_magnitude h hf]
  | some d =>
    have := List.find?_some hfind
    simp only [decide_eq_true_eq] at this
    exact this.2

theorem shortest_pos {bits : ℕ} (h : mantissa bits ≠ 0) : 0 < (shortest bits).1 := by
  unfold shortest
  cases hfind : List.find? _ _ with
  | none =>
    have hm := Nat.pos_of_ne_zero h
    rw [Option.getD_none, exactDecimal]
    split <;> positivity
  | some d =>
    have := List.find?_some hfind
    simp only [decide_eq_true_eq] at this
    exact this.1

/-! ## Literals are read back -/

section

variable {negative : Bool} {ds : List (Fin 10)} {point : ℤ}

theorem natOf_exponentDigits (e : ℕ) : natOf (exponentDigits e) = e := by
  unfold exponentDigits
  split
  · rw [show (0 : Fin 10) :: digitsOf e = [0] ++ digitsOf e from rfl, natOf_append, natOf_digitsOf]
    simp [natOf]
  · exact natOf_digitsOf e

theorem exponentValue_digits (e : ℤ) : exponentValue (some (e < 0, exponentDigits e.natAbs)) = e := by
  simp only [exponentValue, natOf_exponentDigits, decide_eq_true_eq]
  split <;> omega

theorem ten_zpow_sub (n m : ℕ) (h : n ≤ m) : (10 : ℚ) ^ ((m : ℤ) - n) = 10 ^ (m - n) := by
  rw [← zpow_natCast, Nat.cast_sub h]

/-- A formatted literal stands for its digits with the point put in. -/
theorem absValue_formatShort (hds : ds ≠ []) :
    absValue (formatShort negative ds point) = natOf ds * 10 ^ (point - ds.length) := by
  have hlen : 1 ≤ ds.length := List.length_pos_iff.2 hds
  unfold formatShort absValue
  split_ifs with hexp hsmall hwhole
  · -- one digit, the others behind the point, and an exponent
    simp only [List.take_append_drop, exponentValue_digits, List.length_drop]
    congr 2
    omega
  · -- zeros behind the point first
    have hnat : natOf ([0] ++ (List.replicate (-point).toNat 0 ++ ds)) = natOf ds := by
      rw [natOf_append, natOf_append, natOf_replicate_zero]
      simp [natOf]
    simp only [hnat, exponentValue, List.length_append, List.length_replicate]
    congr 2
    push_cast
    omega
  · -- zeros up to the point
    have hnat : natOf (ds ++ List.replicate (point.toNat - ds.length) 0 ++ [0]) =
        natOf ds * 10 ^ (point.toNat - ds.length) * 10 := by
      rw [natOf_append, natOf_append, natOf_replicate_zero]
      simp [natOf]
    have hpoint : ((point.toNat : ℕ) : ℤ) = point := Int.toNat_of_nonneg (by omega)
    have hpow := ten_zpow_sub ds.length point.toNat hwhole
    rw [hpoint] at hpow
    simp only [hnat, exponentValue, List.length_singleton]
    rw [hpow, Nat.cast_mul, Nat.cast_mul, mul_assoc _ ((10 : ℕ) : ℚ)]
    norm_num
  · -- the point within the digits
    simp only [List.take_append_drop, exponentValue, List.length_drop]
    congr 2
    omega

theorem formatShort_wellFormed (hds : ds ≠ []) (hhead : ds.head? ≠ some 0) :
    (formatShort negative ds point).WellFormed := by
  obtain ⟨d, rest, rfl⟩ := List.exists_cons_of_ne_nil hds
  have hd : d ≠ 0 := by simpa using hhead
  unfold formatShort
  split_ifs with hexp hsmall hwhole
  · refine ⟨by simp, by simp [hd], ?_⟩
    intro neg digits heq
    obtain ⟨-, rfl⟩ := Prod.mk.inj (Option.some.inj heq)
    unfold exponentDigits
    split
    · simp
    · exact digitsOf_ne_nil _
  · exact ⟨by simp, by simp, by simp⟩
  · exact ⟨by simp, by simp [hd], by simp⟩
  · obtain ⟨n, hn⟩ : ∃ n, point.toNat = n + 1 := ⟨point.toNat - 1, by omega⟩
    exact ⟨by simp [hn], by simp [hn, hd], by simp⟩

theorem formatShort_isFloat (hds : ds ≠ []) : (formatShort negative ds point).isFloat = true := by
  unfold formatShort Numeral.isFloat
  split_ifs with hexp hsmall hwhole
  · simp
  · simp [hds]
  · simp
  · have : ds.drop point.toNat ≠ [] := by
      simp
      omega
    simp [this]

end

theorem formatShort_negative (negative : Bool) (ds : List (Fin 10)) (point : ℤ) :
    (formatShort negative ds point).negative = negative := by
  unfold formatShort
  split_ifs <;> rfl

theorem digitsOf_head_ne {m : ℕ} (h : 0 < m) : (digitsOf m).head? ≠ some 0 := by
  intro hz
  have := natOf_digitsOf m
  rw [digitsOf_head m hz] at this
  simp [natOf] at this
  omega

section

variable {bits : ℕ} (h : bits < 2 ^ 64) (hf : isFinite bits = true)

theorem toNumeral_wellFormed (bits : ℕ) : (toNumeral bits).WellFormed := by
  unfold toNumeral
  split
  · exact ⟨by simp, by simp, by simp⟩
  · rename_i hm
    exact formatShort_wellFormed (digitsOf_ne_nil _) (digitsOf_head_ne (stripZeros_pos _ (shortest_pos hm)))

theorem toNumeral_isFloat (bits : ℕ) : (toNumeral bits).isFloat = true := by
  unfold toNumeral
  split
  · rfl
  · exact formatShort_isFloat (digitsOf_ne_nil _)

include h hf in
/-- **Finite floats round-trip**, the sign of a zero included. -/
theorem ofNumeral_toNumeral : ofNumeral (toNumeral bits) = bits := by
  have hround := roundNearest_magnitude h hf
  unfold ofNumeral toNumeral
  split
  · rename_i hm
    have hq : magnitude bits = 0 := by simp [magnitude, hm]
    rw [hq] at hround
    have hvalue : absValue ⟨isNegative bits, [0], [0], none⟩ = 0 := by simp [absValue, natOf]
    rw [hvalue, hround]
  · have hvalue := value_stripZeros (shortest bits).1 (shortest bits).2
    rw [formatShort_negative, absValue_formatShort (digitsOf_ne_nil _), natOf_digitsOf]
    have hpow : (stripZeros (shortest bits).1 (shortest bits).2).2 +
        ((digitsOf (stripZeros (shortest bits).1 (shortest bits).2).1).length : ℤ) -
          (digitsOf (stripZeros (shortest bits).1 (shortest bits).2).1).length =
        (stripZeros (shortest bits).1 (shortest bits).2).2 := by omega
    rw [hpow]
    change roundNearest (isNegative bits) (stripZeros (shortest bits).1 (shortest bits).2).value = bits
    rw [hvalue]
    exact roundNearest_shortest h hf

end

-- `repr(0.1)`
example : (toNumeral 0x3FB999999999999A).render = "0.1".toList := by decide +kernel

end Binary64

end Text
