import Mathlib
import PolicySystem.Text.Binary64
import PolicySystem.Text.PyInt

/-!
# Python's `float(text)`

The steps of CPython's reader: the Unicode digits and spaces made ASCII ones, the text stripped, the underscores between
digits dropped, and what is left read as a sign with an infinity, a NaN or a decimal literal.

* `pyFloat`: the float of a text, by its bits;
* `pyFloat_render`: **the text of a literal is read as its value**.
-/

namespace Text

namespace UnicodeDigits

variable (digits : UnicodeDigits)

/-- The ASCII character one outside ASCII is read as; `?` stands for none. -/
def toAscii (c : Char) : Char :=
  if c.toNat < 128 then c
  else
    match digits.decimal c with
    | some d => digitChar d
    | none => if isSpace c then ' ' else '?'

end UnicodeDigits

/-- `Py_ISSPACE`. -/
def isAsciiSpace (c : Char) : Bool := (9 ≤ c.toNat && c.toNat ≤ 13) || c == ' '

/-- The text without the underscores that stand between digits; an underscore elsewhere is refused. -/
def withoutUnderscores (before : Char) : List Char → Option (List Char)
  | [] => if before = '_' then none else some []
  | c :: s =>
    if c = '_' then if before.isDigit then withoutUnderscores '_' s else none
    else if before = '_' ∧ c.isDigit = false then none
    else (withoutUnderscores c s).map (c :: ·)

namespace Binary64

/-- The infinities, and the NaNs that `float("nan")` gives. -/
def infinity (negative : Bool) : ℕ := (if negative then 2 ^ 63 else 0) + 0x7FF0000000000000

def nan (negative : Bool) : ℕ := (if negative then 2 ^ 63 else 0) + 0x7FF8000000000000

/-- A decimal literal behind its sign: digits with at most one point among them, and an exponent. -/
def lexDecimal (negative : Bool) (s : List Char) : Option Numeral :=
  let integer := spanDigits s
  let fraction := if integer.2.head? = some '.' then spanDigits integer.2.tail else ([], integer.2)
  let exponent := Numeral.lexExponent fraction.2
  if integer.1 = [] ∧ fraction.1 = [] ∨ exponent.2 ≠ [] then none
  else some ⟨negative, integer.1, fraction.1, exponent.1⟩

def readUnsigned (negative : Bool) (s : List Char) : Option ℕ :=
  let lower := s.map Char.toLower
  if lower = ['i', 'n', 'f'] ∨ lower = ['i', 'n', 'f', 'i', 'n', 'i', 't', 'y'] then some (infinity negative)
  else if lower = ['n', 'a', 'n'] then some (nan negative)
  else (lexDecimal negative s).map ofNumeral

def readSigned : List Char → Option ℕ
  | [] => none
  | c :: s =>
    if c = '-' then readUnsigned true s
    else if c = '+' then readUnsigned false s
    else readUnsigned false (c :: s)

end Binary64

/-- **`float(text)`**; `none` where it raises `ValueError`. -/
def UnicodeDigits.pyFloat (digits : UnicodeDigits) (s : List Char) : Option ℕ :=
  let ascii := s.map digits.toAscii
  let stripped := ((ascii.dropWhile isAsciiSpace).reverse.dropWhile isAsciiSpace).reverse
  (withoutUnderscores ' ' stripped).bind Binary64.readSigned

/-! ## Literals are read -/

/-- The characters of a literal. -/
def IsPlain (c : Char) : Prop := c.isDigit = true ∨ c = '-' ∨ c = '+' ∨ c = '.' ∨ c = 'e'

theorem isPlain_digitChar (d : Fin 10) : IsPlain (digitChar d) := by
  left
  revert d
  decide

theorem IsPlain.ascii {c : Char} (h : IsPlain c) : c.toNat < 128 := by
  rcases h with h | rfl | rfl | rfl | rfl
  · unfold Char.isDigit at h
    simp only [Bool.and_eq_true, decide_eq_true_eq] at h
    have hle : c.toNat ≤ '9'.toNat := h.2
    have hnine : '9'.toNat = 57 := rfl
    omega
  all_goals decide

theorem IsPlain.not_space {c : Char} (h : IsPlain c) : isAsciiSpace c = false := by
  rcases h with h | rfl | rfl | rfl | rfl
  · unfold Char.isDigit at h
    simp only [Bool.and_eq_true, decide_eq_true_eq] at h
    have hge : '0'.toNat ≤ c.toNat := h.1
    have hzero : '0'.toNat = 48 := rfl
    unfold isAsciiSpace
    rw [Bool.or_eq_false_iff]
    refine ⟨?_, ?_⟩
    · simp only [Bool.and_eq_false_iff, decide_eq_false_iff_not]
      omega
    · rw [beq_eq_false_iff_ne]
      rintro rfl
      exact absurd hge (by decide)
  all_goals decide

theorem IsPlain.ne_underscore {c : Char} (h : IsPlain c) : c ≠ '_' := by
  rintro rfl
  rcases h with h | h | h | h | h <;> revert h <;> decide

theorem withoutUnderscores_plain {s : List Char} (h : ∀ c ∈ s, IsPlain c) {before : Char} (hbefore : before ≠ '_') :
    withoutUnderscores before s = some s := by
  induction s generalizing before with
  | nil => rw [withoutUnderscores, if_neg hbefore]
  | cons c s ih =>
    have hc := (h c List.mem_cons_self).ne_underscore
    have hrest := ih (fun d hd => h d (List.mem_cons_of_mem _ hd)) hc
    rw [withoutUnderscores, if_neg hc, if_neg (fun hh => hbefore hh.1), hrest]
    rfl

theorem dropWhile_of_forall {p : Char → Bool} {s : List Char} (h : ∀ c ∈ s, p c = false) : s.dropWhile p = s := by
  cases s with
  | nil => rfl
  | cons c s => rw [List.dropWhile_cons_of_neg (by simp [h c List.mem_cons_self])]

section

variable {digits : UnicodeDigits} {s : List Char}

/-- A text of such characters is read as it stands. -/
theorem pyFloat_plain (h : ∀ c ∈ s, IsPlain c) : digits.pyFloat s = Binary64.readSigned s := by
  have hascii : s.map digits.toAscii = s := by
    refine (List.map_congr_left fun c hc => ?_).trans (List.map_id s)
    exact if_pos (h c hc).ascii
  have hspace : ∀ c ∈ s, isAsciiSpace c = false := fun c hc => (h c hc).not_space
  unfold UnicodeDigits.pyFloat
  dsimp only
  rw [hascii, dropWhile_of_forall hspace, dropWhile_of_forall (fun c hc => hspace c (List.mem_reverse.1 hc)),
    List.reverse_reverse, withoutUnderscores_plain h (by decide), Option.bind_some]

end

namespace Binary64

theorem lexDecimal_render {n : Numeral} (hn : n.WellFormed) : lexDecimal n.negative
    (n.integer.map digitChar ++ (Numeral.renderFraction n.fraction ++ Numeral.renderExponent n.exponent)) = some n := by
  have hstops : Numeral.Stops [] := by
    intro c cs h
    cases h
  have hexponent := Numeral.lexExponent_render hn.exponent hstops
  have hno := Numeral.noDigit_renderExponent n.exponent hstops
  rw [List.append_nil] at hexponent hno
  have hinteger := hn.integer
  obtain ⟨negative, integer, fraction, exponent⟩ := n
  dsimp only at hexponent hno hinteger ⊢
  cases fraction with
  | nil =>
    have hspan := spanDigits_map integer hno
    have hdot : (Numeral.renderExponent exponent).head? ≠ some '.' := by
      cases exponent <;> simp [Numeral.renderExponent]
    rw [Numeral.renderFraction, List.nil_append]
    unfold lexDecimal
    dsimp only
    rw [hspan, if_neg hdot, hexponent]
    simp [hinteger]
  | cons d ds =>
    have hpoint : NoDigit ('.' :: ((d :: ds).map digitChar ++ Numeral.renderExponent exponent)) :=
      Numeral.noDigit_of_head (by decide)
    have hspan := spanDigits_map integer hpoint
    have hfraction := spanDigits_map (d :: ds) hno
    rw [Numeral.renderFraction, List.cons_append]
    unfold lexDecimal
    dsimp only
    rw [hspan]
    dsimp only
    rw [List.head?_cons, if_pos rfl, List.tail_cons, hfraction, hexponent]
    simp [hinteger]

/-- What starts with a digit is neither an infinity nor a NaN. -/
theorem readUnsigned_digit (negative : Bool) (d : Fin 10) (s : List Char) :
    readUnsigned negative (digitChar d :: s) = (lexDecimal negative (digitChar d :: s)).map ofNumeral := by
  have hhead : (digitChar d).toLower ≠ 'i' ∧ (digitChar d).toLower ≠ 'n' := by
    revert d
    decide
  unfold readUnsigned
  dsimp only
  rw [List.map_cons, if_neg (by simp [hhead.1]), if_neg (by simp [hhead.2])]

end Binary64

theorem isPlain_render (n : Numeral) : ∀ c ∈ n.render, IsPlain c := by
  have hdigits : ∀ (ds : List (Fin 10)), ∀ c ∈ ds.map digitChar, IsPlain c := by
    intro ds c hc
    obtain ⟨d, -, rfl⟩ := List.mem_map.1 hc
    exact isPlain_digitChar d
  intro c hc
  unfold Numeral.render at hc
  rw [List.mem_append, List.mem_append, List.mem_append] at hc
  rcases hc with ((hc | hc) | hc) | hc
  · split at hc
    · rw [List.mem_singleton.1 hc]
      exact .inr (.inl rfl)
    · exact absurd hc List.not_mem_nil
  · exact hdigits _ c hc
  · cases hfraction : n.fraction with
    | nil =>
      rw [hfraction] at hc
      exact absurd hc List.not_mem_nil
    | cons d ds =>
      rw [hfraction] at hc
      rcases List.mem_cons.1 hc with rfl | hc
      · exact .inr (.inr (.inr (.inl rfl)))
      · exact hdigits _ c hc
  · cases hexponent : n.exponent with
    | none =>
      rw [hexponent] at hc
      exact absurd hc List.not_mem_nil
    | some e =>
      rw [hexponent] at hc
      unfold Numeral.renderExponent at hc
      rcases List.mem_cons.1 hc with rfl | hc
      · exact .inr (.inr (.inr (.inr rfl)))
      · rcases List.mem_cons.1 hc with rfl | hc
        · split
          · exact .inr (.inl rfl)
          · exact .inr (.inr (.inl rfl))
        · exact hdigits _ c hc

/-- **The text of a literal is read as its value.** -/
theorem pyFloat_render {digits : UnicodeDigits} {n : Numeral} (hn : n.WellFormed) :
    digits.pyFloat n.render = some (Binary64.ofNumeral n) := by
  have hread : Binary64.readUnsigned n.negative
      (n.integer.map digitChar ++ (Numeral.renderFraction n.fraction ++ Numeral.renderExponent n.exponent)) =
        some (Binary64.ofNumeral n) := by
    have hlex := Binary64.lexDecimal_render hn
    obtain ⟨d, ds, hinteger⟩ := List.exists_cons_of_ne_nil hn.integer
    rw [hinteger, List.map_cons, List.cons_append] at hlex ⊢
    rw [Binary64.readUnsigned_digit, hlex, Option.map_some]
  rw [pyFloat_plain (isPlain_render n)]
  unfold Numeral.render
  rw [List.append_assoc, List.append_assoc]
  cases hnegative : n.negative with
  | true =>
    rw [hnegative] at hread
    rw [if_pos rfl, List.singleton_append, Binary64.readSigned, if_pos rfl, hread]
  | false =>
    rw [hnegative] at hread
    obtain ⟨d, ds, hinteger⟩ := List.exists_cons_of_ne_nil hn.integer
    have hsign : ∀ d : Fin 10, digitChar d ≠ '-' ∧ digitChar d ≠ '+' := by decide
    rw [if_neg (by simp), List.nil_append]
    rw [hinteger, List.map_cons, List.cons_append] at hread ⊢
    rw [Binary64.readSigned, if_neg (hsign d).1, if_neg (hsign d).2, hread]

end Text
