import Mathlib.Data.List.Basic
import PolicySystem.Text.Numeral

/-!
# Fields with their lengths

Byte strings, each behind its decimal length and a colon, one after another. And the texts of numbers that stand in
such fields.

* `netstrings_injective`: a concatenation of fields determines the fields;
* `decimal_injective`, `signed_injective`, `hex_injective`: a number's text determines the number.
-/

namespace Text

/-! ## Numbers -/

theorem digitChar_injective {d e : Fin 10} (h : digitChar d = digitChar e) : d = e := by
  have hd := digit?_digitChar d
  rw [h, digit?_digitChar] at hd
  exact (Option.some.inj hd).symm

/-- The decimal text of a number. -/
def decimal (n : ℕ) : List Char := (digitsOf n).map digitChar

theorem decimal_injective {m n : ℕ} (h : decimal m = decimal n) : m = n := by
  have hdigits : digitsOf m = digitsOf n := List.map_injective_iff.2 (fun _ _ => digitChar_injective) h
  rw [← natOf_digitsOf m, hdigits, natOf_digitsOf]

theorem minus_not_mem_decimal (n : ℕ) : '-' ∉ decimal n := by
  intro h
  obtain ⟨d, -, hd⟩ := List.mem_map.1 h
  have hnone : ∀ d : Fin 10, digitChar d ≠ '-' := by decide
  exact hnone d hd

/-- The decimal text of an integer. -/
def signed : ℤ → List Char
  | .ofNat n => decimal n
  | .negSucc n => '-' :: decimal (n + 1)

theorem signed_injective {i j : ℤ} (h : signed i = signed j) : i = j := by
  cases i with
  | ofNat m =>
    cases j with
    | ofNat n => rw [decimal_injective h]
    | negSucc n =>
      refine absurd ?_ (minus_not_mem_decimal m)
      have hminus : decimal m = '-' :: decimal (n + 1) := h
      rw [hminus]
      exact List.mem_cons_self
  | negSucc m =>
    cases j with
    | ofNat n =>
      refine absurd ?_ (minus_not_mem_decimal n)
      have hminus : '-' :: decimal (m + 1) = decimal n := h
      rw [← hminus]
      exact List.mem_cons_self
    | negSucc n =>
      have hmagnitude := decimal_injective (List.cons_inj_right _ |>.1 h)
      rw [Nat.succ.inj hmagnitude]

/-- A lower-case hexadecimal digit. -/
def hexChar (d : Fin 16) : Char := if d < 10 then Char.ofNat (48 + d) else Char.ofNat (87 + d)

theorem hexChar_injective {d e : Fin 16} (h : hexChar d = hexChar e) : d = e := by
  revert d e
  decide

theorem hexChar_ne_hyphen (d : Fin 16) : hexChar d ≠ '-' := by
  revert d
  decide

/-- The hexadecimal text of a number, of a fixed width. -/
def hex : ℕ → ℕ → List Char
  | 0, _ => []
  | width + 1, n => hex width (n / 16) ++ [hexChar (Fin.ofNat 16 n)]

@[simp] theorem length_hex (width n : ℕ) : (hex width n).length = width := by
  induction width generalizing n with
  | zero => rfl
  | succ width ih => simp [hex, ih]

theorem hyphen_not_mem_hex (width n : ℕ) : '-' ∉ hex width n := by
  induction width generalizing n with
  | zero => exact List.not_mem_nil
  | succ width ih =>
    rw [hex, List.mem_append, List.mem_singleton]
    rintro (h | h)
    · exact ih _ h
    · exact hexChar_ne_hyphen _ h.symm

theorem hex_injective {width m n : ℕ} (hm : m < 16 ^ width) (hn : n < 16 ^ width) (h : hex width m = hex width n) :
    m = n := by
  induction width generalizing m n with
  | zero => omega
  | succ width ih =>
    obtain ⟨hinit, hlast⟩ := List.append_inj h (by simp)
    have hhigh : m / 16 = n / 16 := ih (by omega) (by omega) hinit
    have hlow := congrArg Fin.val (hexChar_injective (List.singleton_inj.1 hlast))
    have hmod : m % 16 = n % 16 := hlow
    omega

/-! ## Fields -/

/-- The bytes of a text. -/
def utf8 (s : String) : List UInt8 := s.toUTF8.data.toList

theorem utf8_injective {s t : String} (h : utf8 s = utf8 t) : s = t := by
  refine String.toByteArray_inj.1 (ByteArray.ext ?_)
  exact Array.toList_inj.1 h

theorem utf8_ofList (l : List Char) : utf8 (String.ofList l) = l.flatMap String.utf8EncodeChar := by
  have hencode : (String.ofList l).toByteArray = (l.flatMap String.utf8EncodeChar).toByteArray := rfl
  rw [utf8, String.toUTF8_eq_toByteArray, hencode, List.data_toByteArray]

@[simp] theorem length_utf8_hex (width n : ℕ) : (utf8 (String.ofList (hex width n))).length = width := by
  have hone : ∀ d : Fin 16, (String.utf8EncodeChar (hexChar d)).length = 1 := by decide
  rw [utf8_ofList]
  induction width generalizing n with
  | zero => rfl
  | succ width ih => rw [hex, List.flatMap_append, List.length_append, ih, List.flatMap_singleton, hone]

/-- A field: its length, a colon and its bytes. -/
def netstring (bytes : List UInt8) : List UInt8 :=
  (decimal bytes.length).map (fun c => UInt8.ofNat c.toNat) ++ 58 :: bytes

theorem colon_not_mem_length (n : ℕ) : 58 ∉ (decimal n).map fun c => UInt8.ofNat c.toNat := by
  intro h
  obtain ⟨c, hc, hcolon⟩ := List.mem_map.1 h
  obtain ⟨d, -, rfl⟩ := List.mem_map.1 hc
  have hnone : ∀ d : Fin 10, UInt8.ofNat (digitChar d).toNat ≠ 58 := by decide
  exact hnone d hcolon

theorem length_bytes_injective {m n : ℕ}
    (h : (decimal m).map (fun c => UInt8.ofNat c.toNat) = (decimal n).map fun c => UInt8.ofNat c.toNat) : m = n := by
  simp only [decimal, List.map_map] at h
  have hdigit : ∀ d e : Fin 10, UInt8.ofNat (digitChar d).toNat = UInt8.ofNat (digitChar e).toNat → d = e := by decide
  have hdigits : digitsOf m = digitsOf n := List.map_injective_iff.2 (fun d e => hdigit d e) h
  rw [← natOf_digitsOf m, hdigits, natOf_digitsOf]

/-- Two lists split at their first colon. -/
theorem split_colon {x y rest rest' : List UInt8} (hx : 58 ∉ x) (hy : 58 ∉ y)
    (h : x ++ 58 :: rest = y ++ 58 :: rest') : x = y ∧ rest = rest' := by
  induction x generalizing y with
  | nil =>
    cases y with
    | nil => exact ⟨rfl, List.tail_eq_of_cons_eq h⟩
    | cons b y =>
      refine absurd ?_ hy
      rw [← List.head_eq_of_cons_eq h]
      exact List.mem_cons_self
  | cons a x ih =>
    cases y with
    | nil =>
      refine absurd ?_ hx
      rw [← List.head_eq_of_cons_eq h.symm]
      exact List.mem_cons_self
    | cons b y =>
      have hx' : 58 ∉ x := fun hmem => hx (List.mem_cons_of_mem _ hmem)
      have hy' : 58 ∉ y := fun hmem => hy (List.mem_cons_of_mem _ hmem)
      obtain ⟨hxy, hrest⟩ := ih hx' hy' (List.tail_eq_of_cons_eq h)
      have hab : a = b := List.head_eq_of_cons_eq h
      rw [hab, hxy]
      exact ⟨rfl, hrest⟩

/-- A field says where it ends. -/
theorem netstring_append_inj {a b rest rest' : List UInt8} (h : netstring a ++ rest = netstring b ++ rest') :
    a = b ∧ rest = rest' := by
  simp only [netstring, List.append_assoc, List.cons_append] at h
  obtain ⟨hlength, htail⟩ := split_colon (colon_not_mem_length _) (colon_not_mem_length _) h
  exact List.append_inj htail (length_bytes_injective hlength)

/-- **A concatenation of fields determines the fields.** -/
theorem netstrings_injective {as bs : List (List UInt8)} (h : as.flatMap netstring = bs.flatMap netstring) : as = bs := by
  have hne : ∀ (a : List UInt8) (rest : List UInt8), netstring a ++ rest ≠ [] := by
    intro a rest
    simp [netstring]
  induction as generalizing bs with
  | nil =>
    cases bs with
    | nil => rfl
    | cons b bs => exact absurd h.symm (hne _ _)
  | cons a as ih =>
    cases bs with
    | nil => exact absurd h (hne _ _)
    | cons b bs =>
      obtain ⟨hab, hrest⟩ := netstring_append_inj h
      rw [hab, ih hrest]

end Text
