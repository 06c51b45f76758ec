import Mathlib

/-!
# Base 64

The URL-safe encoding of bytes, with padding, and a reader that skips what is not of the alphabet.

* `decode_encode`: what was encoded is read back.
-/

namespace Text.Base64

/-- The character of six bits. -/
def char (v : ℕ) : Char :=
  if v < 26 then Char.ofNat (65 + v)
  else if v < 52 then Char.ofNat (71 + v)
  else if v < 62 then Char.ofNat (v - 4)
  else if v = 62 then '-'
  else '_'

/-- The six bits of a character, of the URL-safe alphabet or of the standard one. -/
def value (c : Char) : Option ℕ :=
  let n := c.toNat
  if 65 ≤ n ∧ n < 91 then some (n - 65)
  else if 97 ≤ n ∧ n < 123 then some (n - 71)
  else if 48 ≤ n ∧ n < 58 then some (n + 4)
  else if c = '-' ∨ c = '+' then some 62
  else if c = '_' ∨ c = '/' then some 63
  else none

/-- Three bytes as four characters, the last ones padded. -/
def encode : List UInt8 → List Char
  | [] => []
  | [a] => [char (a.toNat / 4), char (a.toNat % 4 * 16), '=', '=']
  | [a, b] => [char (a.toNat / 4), char (a.toNat % 4 * 16 + b.toNat / 16), char (b.toNat % 16 * 4), '=']
  | a :: b :: c :: rest =>
    [char (a.toNat / 4), char (a.toNat % 4 * 16 + b.toNat / 16), char (b.toNat % 16 * 4 + c.toNat / 64),
      char (c.toNat % 64)] ++ encode rest

/-- The reader: the characters of the current four it has, the bits left of the last one and the padding so far. A padding
that fills the four ends the text. -/
def read : ℕ → ℕ → ℕ → List Char → Option (List UInt8)
  | quad, _, _, [] => if quad = 0 then some [] else none
  | quad, left, pads, c :: text =>
    if c = '=' then
      if 2 ≤ quad ∧ 4 ≤ quad + (pads + 1) then some []
      else read quad left (if 2 ≤ quad then pads + 1 else pads) text
    else match value c with
      | none => read quad left pads text
      | some v => match quad with
        | 0 => read 1 v 0 text
        | 1 => (read 2 (v % 16) 0 text).map (UInt8.ofNat (left * 4 + v / 16) :: ·)
        | 2 => (read 3 (v % 4) 0 text).map (UInt8.ofNat (left * 16 + v / 4) :: ·)
        | _ => (read 0 0 0 text).map (UInt8.ofNat (left * 64 + v) :: ·)

def decode (text : List Char) : Option (List UInt8) := read 0 0 0 text

theorem value_char {v : ℕ} (h : v < 64) : value (char v) = some v := by
  have hall : ∀ v : Fin 64, value (char v) = some v.val := by decide
  exact hall ⟨v, h⟩

theorem char_ne_pad {v : ℕ} (h : v < 64) : char v ≠ '=' := by
  have hall : ∀ v : Fin 64, char v ≠ '=' := by decide
  exact hall ⟨v, h⟩

theorem read_char {quad left pads v : ℕ} {text : List Char} (h : v < 64) :
    read quad left pads (char v :: text) = match quad with
      | 0 => read 1 v 0 text
      | 1 => (read 2 (v % 16) 0 text).map (UInt8.ofNat (left * 4 + v / 16) :: ·)
      | 2 => (read 3 (v % 4) 0 text).map (UInt8.ofNat (left * 16 + v / 4) :: ·)
      | _ => (read 0 0 0 text).map (UInt8.ofNat (left * 64 + v) :: ·) := by
  rw [read.eq_2, if_neg (char_ne_pad h), value_char h]

theorem ofNat_eq {n : ℕ} {a : UInt8} (h : n = a.toNat) : UInt8.ofNat n = a := by
  rw [h, UInt8.ofNat_toNat]

/-- **What was encoded is read back.** -/
theorem decode_encode (bytes : List UInt8) : decode (encode bytes) = some bytes := by
  unfold decode
  induction bytes using encode.induct with
  | case1 => rfl
  | case2 a =>
    have ha := a.toNat_lt
    rw [encode, read_char (by omega)]
    simp only
    rw [read_char (by omega)]
    simp only
    rw [ofNat_eq (a := a) (by omega)]
    rfl
  | case3 a b =>
    have ha := a.toNat_lt
    have hb := b.toNat_lt
    rw [encode, read_char (by omega)]
    simp only
    rw [read_char (by omega)]
    simp only
    rw [read_char (by omega)]
    simp only
    rw [ofNat_eq (a := a) (by omega), ofNat_eq (a := b) (by omega)]
    rfl
  | case4 a b c rest ih =>
    have ha := a.toNat_lt
    have hb := b.toNat_lt
    have hc := c.toNat_lt
    rw [encode, List.cons_append, read_char (by omega)]
    simp only
    rw [List.cons_append, read_char (by omega)]
    simp only
    rw [List.cons_append, read_char (by omega)]
    simp only
    rw [List.cons_append, read_char (by omega), List.nil_append]
    simp only
    rw [ih, ofNat_eq (a := a) (by omega), ofNat_eq (a := b) (by omega), ofNat_eq (a := c) (by omega)]
    rfl

end Text.Base64
