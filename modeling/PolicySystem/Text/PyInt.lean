import PolicySystem.Text.Words

/-!
# Decimal digits and integers as Python reads them

* `UnicodeDigits`: the digits outside ASCII;
* `pyInt`: `int(s)` of a text.
-/

namespace Text

/-- The characters outside ASCII that are decimal digits, and those that `str.isdigit` takes for digits besides. -/
structure UnicodeDigits where
  decimal : Char → Option (Fin 10)
  other : Char → Bool

namespace UnicodeDigits

variable (digits : UnicodeDigits)

/-- The value of a decimal digit. -/
def value (c : Char) : Option ℕ :=
  if c.isDigit then some (c.toNat - 48)
  else if 128 ≤ c.toNat then (digits.decimal c).map Fin.val
  else none

/-- `\d`. -/
def isDecimal (c : Char) : Bool := (digits.value c).isSome

/-- `str.isdigit` of one character. -/
def isDigit (c : Char) : Bool := digits.isDecimal c || (decide (128 ≤ c.toNat) && digits.other c)

/-- Digits with single underscores between them, behind digits of the value `n`. -/
def readDigits (n : ℕ) : List Char → Option ℕ
  | [] => some n
  | '_' :: c :: s => (digits.value c).bind fun d => readDigits (10 * n + d) s
  | c :: s => (digits.value c).bind fun d => readDigits (10 * n + d) s

/-- A numeral without sign, of at most 4300 digits. -/
def readNatural : List Char → Option ℕ
  | [] => none
  | c :: s =>
    if (s.filter fun d => d ≠ '_').length < 4300 then (digits.value c).bind fun d => digits.readDigits d s else none

/-- `s.strip()`. -/
def strip (s : List Char) : List Char := ((s.dropWhile isSpace).reverse.dropWhile isSpace).reverse

/-- `int(s)`; `none` where it raises. -/
def pyInt (s : List Char) : Option ℤ :=
  match strip s with
  | '+' :: s => (digits.readNatural s).map Int.ofNat
  | '-' :: s => (digits.readNatural s).map fun n => -Int.ofNat n
  | s => (digits.readNatural s).map Int.ofNat

variable {digits}

/-- Among ASCII, the decimal digits are 0 to 9. -/
theorem isDecimal_ascii {c : Char} (h : c.toNat < 128) : digits.isDecimal c = c.isDigit := by
  unfold isDecimal value
  by_cases hdigit : c.isDigit = true
  · rw [if_pos hdigit, hdigit]
    rfl
  · rw [if_neg hdigit, if_neg (by omega), Bool.eq_false_iff.2 hdigit]
    rfl

end UnicodeDigits

end Text
