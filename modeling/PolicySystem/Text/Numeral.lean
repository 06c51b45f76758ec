import Mathlib

/-!
# Number literals

The decimal literals of JSON as values: sign, integer digits, fraction digits and exponent, their text, and
the longest literal at the start of a text.

* `lex_render`: the text of a well-formed literal is read back, whatever follows it that cannot continue it;
* `natOf_digitsOf`: a natural number's digits give it back.
-/

namespace Text

instance decimalBase : NeZero 10 := ⟨by decide⟩

instance hexadecimalBase : NeZero 16 := ⟨by decide⟩

theorem decimal_digit_lt {c : Char} (h : 48 ≤ c.toNat ∧ c.toNat < 58) : c.toNat - 48 < 10 := by omega

/-- A decimal digit's character. -/
def digitChar (d : Fin 10) : Char := Char.ofNat (48 + d)

/-- The digit a character is. -/
def digit? (c : Char) : Option (Fin 10) :=
  if h : 48 ≤ c.toNat ∧ c.toNat < 58 then some ⟨c.toNat - 48, decimal_digit_lt h⟩ else none

@[simp] theorem digit?_digitChar (d : Fin 10) : digit? (digitChar d) = some d := by
  revert d
  decide

/-- The digits at the start of a text, and the rest. -/
def spanDigits : List Char → List (Fin 10) × List Char
  | [] => ([], [])
  | c :: cs =>
    match digit? c with
    | some d => (d :: (spanDigits cs).1, (spanDigits cs).2)
    | none => ([], c :: cs)

/-- A text that does not start with a digit. -/
def NoDigit (rest : List Char) : Prop := ∀ c cs, rest = c :: cs → digit? c = none

theorem spanDigits_noDigit {rest : List Char} (h : NoDigit rest) : spanDigits rest = ([], rest) := by
  cases rest with
  | nil => rfl
  | cons c cs => simp [spanDigits, h c cs rfl]

theorem spanDigits_map (ds : List (Fin 10)) {rest : List Char} (h : NoDigit rest) :
    spanDigits (ds.map digitChar ++ rest) = (ds, rest) := by
  induction ds with
  | nil => exact spanDigits_noDigit h
  | cons d ds ih => simp [spanDigits, ih]

/-- The number a list of digits is, most significant first. -/
def natOf (ds : List (Fin 10)) : ℕ := ds.foldl (fun (n : ℕ) (d : Fin 10) => 10 * n + d.val) 0

theorem foldl_natOf (ds : List (Fin 10)) (n : ℕ) :
    ds.foldl (fun (n : ℕ) (d : Fin 10) => 10 * n + d.val) n = n * 10 ^ ds.length + natOf ds := by
  induction ds generalizing n with
  | nil => simp [natOf]
  | cons d ds ih =>
    unfold natOf
    rw [List.foldl_cons, List.foldl_cons, ih, ih (10 * 0 + d.val), List.length_cons, pow_succ]
    ring

theorem natOf_append (as bs : List (Fin 10)) : natOf (as ++ bs) = natOf as * 10 ^ bs.length + natOf bs := by
  unfold natOf
  rw [List.foldl_append, foldl_natOf bs]
  rfl

@[simp] theorem natOf_replicate_zero (n : ℕ) : natOf (List.replicate n 0) = 0 := by
  induction n with
  | zero => rfl
  | succ n ih =>
    unfold natOf at ih ⊢
    rw [List.replicate_succ, List.foldl_cons]
    exact ih

/-- The digits of a number, most significant first. -/
def digitsOf (n : ℕ) : List (Fin 10) :=
  if n < 10 then [Fin.ofNat 10 n] else digitsOf (n / 10) ++ [Fin.ofNat 10 n]
termination_by n

theorem natOf_digitsOf (n : ℕ) : natOf (digitsOf n) = n := by
  induction n using digitsOf.induct with
  | case1 n h =>
    rw [digitsOf, if_pos h]
    simp [natOf, Nat.mod_eq_of_lt h]
  | case2 n h ih =>
    rw [digitsOf, if_neg h, natOf_append, ih]
    simp [natOf]
    omega

theorem digitsOf_ne_nil (n : ℕ) : digitsOf n ≠ [] := by
  rw [digitsOf]
  split <;> simp

/-- No leading zero, but for zero itself. -/
theorem digitsOf_head (n : ℕ) : (digitsOf n).head? = some 0 → digitsOf n = [0] := by
  induction n using digitsOf.induct with
  | case1 n h =>
    rw [digitsOf, if_pos h]
    simp
  | case2 n h ih =>
    rw [digitsOf, if_neg h]
    intro hz
    have hne := digitsOf_ne_nil (n / 10)
    rw [List.head?_append_of_ne_nil _ hne] at hz
    have hzero : natOf (digitsOf (n / 10)) = 0 := by
      rw [ih hz]
      rfl
    rw [natOf_digitsOf] at hzero
    omega

/-- A number literal. -/
structure Numeral where
  negative : Bool
  integer : List (Fin 10)
  fraction : List (Fin 10)
  /-- Whether the exponent is negative, and its digits. -/
  exponent : Option (Bool × List (Fin 10))
  deriving DecidableEq

namespace Numeral

/-- What makes the text of a literal one literal. -/
structure WellFormed (n : Numeral) : Prop where
  integer : n.integer ≠ []
  leading : n.integer.head? = some 0 → n.integer = [0]
  exponent : ∀ neg ds, n.exponent = some (neg, ds) → ds ≠ []

/-- A literal with a fraction or an exponent is a float. -/
def isFloat (n : Numeral) : Bool := n.fraction ≠ [] || n.exponent.isSome

def renderFraction : List (Fin 10) → List Char
  | [] => []
  | d :: ds => '.' :: (d :: ds).map digitChar

def renderExponent : Option (Bool × List (Fin 10)) → List Char
  | none => []
  | some (negative, ds) => 'e' :: (if negative then '-' else '+') :: ds.map digitChar

/-- The text of a literal. -/
def render (n : Numeral) : List Char :=
  (if n.negative then ['-'] else []) ++ n.integer.map digitChar ++ renderFraction n.fraction ++ renderExponent n.exponent

/-- `0` or digits without a leading zero. -/
def lexInteger : List Char → Option (List (Fin 10) × List Char)
  | [] => none
  | c :: cs =>
    match digit? c with
    | none => none
    | some 0 => some ([0], cs)
    | some d => some (d :: (spanDigits cs).1, (spanDigits cs).2)

/-- A dot and digits, or nothing. -/
def lexFraction : List Char → List (Fin 10) × List Char
  | '.' :: cs => if (spanDigits cs).1 = [] then ([], '.' :: cs) else spanDigits cs
  | cs => ([], cs)

/-- An exponent's digits after its sign, or nothing. -/
def lexExponentDigits (negative : Bool) (digits whole : List Char) : Option (Bool × List (Fin 10)) × List Char :=
  if (spanDigits digits).1 = [] then (none, whole) else (some (negative, (spanDigits digits).1), (spanDigits digits).2)

def lexExponent : List Char → Option (Bool × List (Fin 10)) × List Char
  | [] => (none, [])
  | c :: cs =>
    if c = 'e' ∨ c = 'E' then
      match cs with
      | '-' :: digits => lexExponentDigits true digits (c :: cs)
      | '+' :: digits => lexExponentDigits false digits (c :: cs)
      | digits => lexExponentDigits false digits (c :: cs)
    else (none, c :: cs)

/-- What follows the sign. -/
def lexUnsigned (negative : Bool) (cs : List Char) : Option (Numeral × List Char) :=
  match lexInteger cs with
  | none => none
  | some (integer, cs) =>
    let fraction := lexFraction cs
    let exponent := lexExponent fraction.2
    some (⟨negative, integer, fraction.1, exponent.1⟩, exponent.2)

/-- The longest literal at the start of a text, and the rest. -/
def lex : List Char → Option (Numeral × List Char)
  | '-' :: cs => lexUnsigned true cs
  | cs => lexUnsigned false cs

/-- A text that cannot continue a literal. -/
def Stops (rest : List Char) : Prop := ∀ c cs, rest = c :: cs → digit? c = none ∧ c ≠ '.' ∧ c ≠ 'e' ∧ c ≠ 'E'

theorem Stops.noDigit {rest : List Char} (h : Stops rest) : NoDigit rest := fun c cs hc => (h c cs hc).1

theorem noDigit_of_head {c : Char} {cs : List Char} (h : digit? c = none) : NoDigit (c :: cs) := by
  intro c' cs' heq
  cases heq
  exact h

theorem lexExponent_render {exponent : Option (Bool × List (Fin 10))}
    (hne : ∀ neg ds, exponent = some (neg, ds) → ds ≠ []) {rest : List Char} (h : Stops rest) :
    lexExponent (renderExponent exponent ++ rest) = (exponent, rest) := by
  cases exponent with
  | none =>
    cases rest with
    | nil => rfl
    | cons c cs =>
      obtain ⟨-, -, he, hE⟩ := h c cs rfl
      simp [renderExponent, lexExponent, he, hE]
  | some e =>
    obtain ⟨negative, ds⟩ := e
    have hds := hne negative ds rfl
    have hspan := spanDigits_map ds h.noDigit
    cases negative <;> simp [renderExponent, lexExponent, lexExponentDigits, hspan, hds]

theorem noDigit_renderExponent (exponent : Option (Bool × List (Fin 10))) {rest : List Char} (h : Stops rest) :
    NoDigit (renderExponent exponent ++ rest) := by
  cases exponent with
  | none => exact h.noDigit
  | some e => exact noDigit_of_head (by decide)

theorem lexFraction_render (fraction : List (Fin 10)) (exponent : Option (Bool × List (Fin 10))) {rest : List Char}
    (h : Stops rest) :
    lexFraction (renderFraction fraction ++ (renderExponent exponent ++ rest)) =
      (fraction, renderExponent exponent ++ rest) := by
  have hno := noDigit_renderExponent exponent h
  cases fraction with
  | nil =>
    cases exponent with
    | none =>
      cases rest with
      | nil => rfl
      | cons c cs =>
        have hdot := (h c cs rfl).2.1
        simp only [renderFraction, renderExponent, List.nil_append]
        unfold lexFraction
        split
        · rename_i heq
          cases heq
          exact absurd rfl hdot
        · rfl
    | some e => rfl
  | cons d ds =>
    have hspan := spanDigits_map (d :: ds) hno
    simp only [renderFraction, List.cons_append, lexFraction, hspan]
    simp

theorem lexInteger_render {integer : List (Fin 10)} (hne : integer ≠ [])
    (hzero : integer.head? = some 0 → integer = [0]) {rest : List Char} (h : NoDigit rest) :
    lexInteger (integer.map digitChar ++ rest) = some (integer, rest) := by
  cases integer with
  | nil => exact absurd rfl hne
  | cons d ds =>
    have hspan := spanDigits_map ds h
    by_cases hd : d = 0
    · subst hd
      have hds : ds = [] := by simpa using hzero rfl
      subst hds
      simp [lexInteger]
    · simp only [List.map_cons, List.cons_append, lexInteger, digit?_digitChar, hspan]

theorem digitChar_ne_minus (d : Fin 10) : digitChar d ≠ '-' := by
  revert d
  decide

theorem lexUnsigned_render {n : Numeral} (hn : n.WellFormed) {rest : List Char} (h : Stops rest) :
    lexUnsigned n.negative
      (n.integer.map digitChar ++ (renderFraction n.fraction ++ (renderExponent n.exponent ++ rest))) = some (n, rest) := by
  have hexp := lexExponent_render hn.exponent h
  have hfrac := lexFraction_render n.fraction n.exponent h
  have hno : NoDigit (renderFraction n.fraction ++ (renderExponent n.exponent ++ rest)) := by
    cases n.fraction with
    | nil => exact noDigit_renderExponent n.exponent h
    | cons d ds => exact noDigit_of_head (by decide)
  have hint := lexInteger_render hn.integer hn.leading hno
  simp only [lexUnsigned, hint, hfrac, hexp]

/-- **Literals round-trip.** -/
theorem lex_render {n : Numeral} (hn : n.WellFormed) {rest : List Char} (h : Stops rest) :
    lex (n.render ++ rest) = some (n, rest) := by
  have hunsigned := lexUnsigned_render hn h
  unfold render
  cases hneg : n.negative with
  | true =>
    rw [hneg] at hunsigned
    simpa [lex] using hunsigned
  | false =>
    rw [hneg] at hunsigned
    have hne := hn.integer
    cases hint : n.integer with
    | nil => exact absurd hint hne
    | cons d ds =>
      -- the text starts with a digit, not with a sign
      rw [hint] at hunsigned
      simp only [Bool.false_eq_true, if_false, List.nil_append, List.append_assoc]
      rw [List.map_cons, List.cons_append] at hunsigned ⊢
      unfold lex
      split
      · rename_i heq
        exact absurd (List.cons.inj heq).1 (digitChar_ne_minus d)
      · exact hunsigned

end Numeral

end Text
