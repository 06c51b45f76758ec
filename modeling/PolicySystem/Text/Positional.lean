import Mathlib
import PolicySystem.Text.Numeral

/-!
# Numerals of a fixed width

* `Numerals`: the digits of a base, as characters;
* `read_write`: a numeral is read back as the number it was written for;
* `field`, `expect`: reading a text from its front.
-/

namespace Text

/-- The digits of a base. A reader may accept more characters than are written. -/
structure Numerals (b : ℕ) where
  char : Fin b → Char
  value : Char → Option (Fin b)
  value_char : ∀ d, value (char d) = some d

namespace Numerals

variable {b : ℕ} [NeZero b] (N : Numerals b)

/-- The numeral of a number, most significant digit first. -/
def write : ℕ → ℕ → List Char
  | 0, _ => []
  | width + 1, n => write width (n / b) ++ [N.char (Fin.ofNat b n)]

/-- The number of a numeral. -/
def read (digits : List Char) : Option ℕ := digits.foldlM (fun n c => (N.value c).map fun d => n * b + d) 0

@[simp] theorem length_write (width n : ℕ) : (N.write width n).length = width := by
  induction width generalizing n with
  | zero => rfl
  | succ width ih => simp [write, ih]

theorem mem_write {width n : ℕ} {c : Char} (h : c ∈ N.write width n) : ∃ d, c = N.char d := by
  induction width generalizing n with
  | zero => cases h
  | succ width ih =>
    rcases List.mem_append.1 h with h | h
    · exact ih h
    · exact ⟨_, List.mem_singleton.1 h⟩

/-- **A numeral is read back.** -/
theorem read_write {width n : ℕ} (h : n < b ^ width) : N.read (N.write width n) = some n := by
  induction width generalizing n with
  | zero =>
    have hzero : n = 0 := by simpa using h
    rw [hzero]
    rfl
  | succ width ih =>
    have hhigh : n / b < b ^ width := by
      rw [Nat.div_lt_iff_lt_mul (NeZero.pos b)]
      rwa [pow_succ] at h
    unfold read at ih ⊢
    rw [write, List.foldlM_append, ih hhigh]
    simp only [Option.bind_eq_bind, Option.bind_some, List.foldlM_cons, List.foldlM_nil, N.value_char, Option.map_some,
      Option.pure_def, Fin.val_ofNat]
    rw [Nat.div_add_mod']

end Numerals

/-- A decimal digit. -/
def decimalDigits : Numerals 10 where
  char d := Char.ofNat (48 + d)
  value c := if h : 48 ≤ c.toNat ∧ c.toNat < 58 then some ⟨c.toNat - 48, decimal_digit_lt h⟩ else none
  value_char := by decide

/-- A hexadecimal digit, written in lower case and read in either. -/
def hexDigits : Numerals 16 where
  char d := if d < 10 then Char.ofNat (48 + d) else Char.ofNat (87 + d)
  value c :=
    if h : 48 ≤ c.toNat ∧ c.toNat < 58 then some ⟨c.toNat - 48, by omega⟩
    else if h : 97 ≤ c.toNat ∧ c.toNat < 103 then some ⟨c.toNat - 87, by omega⟩
    else if h : 65 ≤ c.toNat ∧ c.toNat < 71 then some ⟨c.toNat - 55, by omega⟩
    else none
  value_char := by decide

/-! ## Reading from the front -/

/-- A decimal numeral of a width. -/
def field (width : ℕ) (text : List Char) : Option (ℕ × List Char) :=
  if width ≤ text.length then (decimalDigits.read (text.take width)).map (·, text.drop width) else none

@[simp] theorem field_write {width n : ℕ} (h : n < 10 ^ width) (rest : List Char) :
    field width (decimalDigits.write width n ++ rest) = some (n, rest) := by
  unfold field
  rw [if_pos (by simp), List.take_left' (by simp), List.drop_left' (by simp), decimalDigits.read_write h]
  rfl

/-- A character. -/
def expect (c : Char) : List Char → Option (List Char)
  | d :: text => if d = c then some text else none
  | [] => none

@[simp] theorem expect_cons (c : Char) (text : List Char) : expect c (c :: text) = some text := if_pos rfl

end Text
