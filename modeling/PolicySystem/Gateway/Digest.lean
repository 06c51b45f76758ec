import Mathlib.Data.List.Sort
import Mathlib.Data.String.Basic
import PolicySystem.Gateway.Validation
import PolicySystem.Text.Binary64
import PolicySystem.Text.Netstring
import PolicySystem.Text.PrefixCode

/-!
# The digest's encoding

The encodings of `graph_gateway/digest.py` over every value a property can have, lists in lists included, and the
value identity of `graph_gateway/noop_filter.py`.

* `sameValue`: the filter's identity, `Double.hex`: the text it compares floats by;
* `encodeValue_delimits`: by induction on the value, an encoded value says where it ends;
* `digest_encoding_injective`: **equal encodings are encodings of the same value, map or element.**
-/

namespace PolicySystem

open Text
open Std (ExtTreeMap)

/-! ## Float texts -/

/-- The exponent of a float's text, always signed. -/
def exponentText (e : ℤ) : List Char := (if e < 0 then '-' else '+') :: decimal e.natAbs

/-- `float.hex` without the sign, of a float that is finite. -/
def unsignedHex (biased fraction : ℕ) : List Char :=
  if biased = 0 ∧ fraction = 0 then "0x0.0p+0".toList
  else "0x".toList ++ (if biased = 0 then '0' else '1') :: '.' :: hex 13 fraction ++
    'p' :: exponentText (if biased = 0 then -1022 else biased - 1023)

/-- `float.hex`. -/
def Double.hex (d : Double) : List Char :=
  let bits := d.bits.toNat
  let biased := Binary64.biasedExponent bits
  let fraction := bits % 2 ^ 52
  let sign := if Binary64.isNegative bits then ['-'] else []
  if biased = 2047 then if fraction = 0 then sign ++ "inf".toList else "nan".toList
  else sign ++ unsignedHex biased fraction

example : Double.hex ⟨0x3FF8000000000000⟩ = "0x1.8000000000000p+0".toList := by decide +kernel

section Floats

theorem exponentText_injective {e f : ℤ} (h : exponentText e = exponentText f) : e = f := by
  unfold exponentText at h
  obtain ⟨hsign, hdigits⟩ := List.cons_eq_cons.1 h
  have habs : e.natAbs = f.natAbs := decimal_injective hdigits
  have hsame : e < 0 ↔ f < 0 := by
    by_cases he : e < 0 <;> by_cases hf : f < 0 <;> simp [he, hf] at hsign ⊢
  omega

theorem unsignedHex_injective {b b' n n' : ℕ} (hn : n < 2 ^ 52) (hn' : n' < 2 ^ 52)
    (h : unsignedHex b n = unsignedHex b' n') : b = b' ∧ n = n' := by
  have hlong : ∀ b n : ℕ, ¬ (b = 0 ∧ n = 0) → 8 < (unsignedHex b n).length := by
    intro b n hne
    unfold unsignedHex
    rw [if_neg hne]
    simp only [exponentText, List.length_append, List.length_cons, length_hex]
    omega
  have hshort : ∀ b n : ℕ, b = 0 ∧ n = 0 → (unsignedHex b n).length = 8 := by
    intro b n heq
    unfold unsignedHex
    rw [if_pos heq]
    decide
  have hlength := congrArg List.length h
  by_cases hz : b = 0 ∧ n = 0
  · by_cases hz' : b' = 0 ∧ n' = 0
    · omega
    · have h1 := hshort b n hz
      have h2 := hlong b' n' hz'
      omega
  · by_cases hz' : b' = 0 ∧ n' = 0
    · have h1 := hlong b n hz
      have h2 := hshort b' n' hz'
      omega
    · unfold unsignedHex at h
      rw [if_neg hz, if_neg hz'] at h
      simp only [List.append_assoc, List.cons_append] at h
      have hbody := List.append_cancel_left h
      obtain ⟨hlead, hbody⟩ := List.cons_eq_cons.1 hbody
      obtain ⟨-, hbody⟩ := List.cons_eq_cons.1 hbody
      obtain ⟨hfraction, hexponent⟩ := List.append_inj hbody (by simp)
      have hfrac : n = n' := hex_injective (by omega) (by omega) hfraction
      have hexp := exponentText_injective (List.tail_eq_of_cons_eq hexponent)
      refine ⟨?_, hfrac⟩
      by_cases h0 : b = 0 <;> by_cases h0' : b' = 0 <;> simp only [h0, h0', if_true, if_false] at hlead hexp ⊢
      · exact absurd hlead (by decide)
      · exact absurd hlead (by decide)
      · omega

theorem biasedExponent_lt {d : Double} (h : d.isFinite = true) : Binary64.biasedExponent d.bits.toNat < 2047 := by
  unfold Double.isFinite at h
  have hne : d.bits.toNat / 2 ^ 52 % 2 ^ 11 ≠ 2 ^ 11 - 1 := by simpa using h
  unfold Binary64.biasedExponent
  omega

theorem Double.eq_of_toNat {d e : Double} (h : d.bits.toNat = e.bits.toNat) : d = e := by
  cases d
  cases e
  exact congrArg Double.mk (UInt64.toNat_inj.1 h)

/-- **The hexadecimal text of a finite float is the float's own.** -/
theorem Double.hex_injective {d e : Double} (hd : d.isFinite = true) (he : e.isFinite = true) (h : d.hex = e.hex) :
    d = e := by
  have hbd := biasedExponent_lt hd
  have hbe := biasedExponent_lt he
  have hzero : ∀ b n : ℕ, ∃ rest, unsignedHex b n = '0' :: rest := by
    intro b n
    unfold unsignedHex
    split <;> exact ⟨_, rfl⟩
  have hhex : ∀ f : Double, Binary64.biasedExponent f.bits.toNat < 2047 → f.hex =
      (if Binary64.isNegative f.bits.toNat then ['-'] else []) ++
        unsignedHex (Binary64.biasedExponent f.bits.toNat) (f.bits.toNat % 2 ^ 52) := by
    intro f hf
    unfold Double.hex
    dsimp only
    rw [if_neg (by omega)]
  rw [hhex d hbd, hhex e hbe] at h
  obtain ⟨rest, hrest⟩ := hzero (Binary64.biasedExponent d.bits.toNat) (d.bits.toNat % 2 ^ 52)
  obtain ⟨rest', hrest'⟩ := hzero (Binary64.biasedExponent e.bits.toNat) (e.bits.toNat % 2 ^ 52)
  have hsign : Binary64.isNegative d.bits.toNat = Binary64.isNegative e.bits.toNat ∧
      unsignedHex (Binary64.biasedExponent d.bits.toNat) (d.bits.toNat % 2 ^ 52) =
        unsignedHex (Binary64.biasedExponent e.bits.toNat) (e.bits.toNat % 2 ^ 52) := by
    -- a text starts with '-' or with '0'
    cases hs : Binary64.isNegative d.bits.toNat <;> cases hs' : Binary64.isNegative e.bits.toNat <;>
      simp only [hs, hs', if_true, Bool.false_eq_true, if_false, List.nil_append, List.singleton_append] at h
    · exact ⟨rfl, h⟩
    · rw [hrest] at h
      exact absurd (List.head_eq_of_cons_eq h) (by decide)
    · rw [hrest'] at h
      exact absurd (List.head_eq_of_cons_eq h) (by decide)
    · exact ⟨rfl, List.tail_eq_of_cons_eq h⟩
  obtain ⟨hneg, hbody⟩ := hsign
  obtain ⟨hbiased, hfraction⟩ := unsignedHex_injective (Nat.mod_lt _ (by norm_num)) (Nat.mod_lt _ (by norm_num)) hbody
  apply Double.eq_of_toNat
  rw [Binary64.isNegative_of_lt d.bits.toNat_lt, Binary64.isNegative_of_lt e.bits.toNat_lt, hneg, hbiased, hfraction]

end Floats

namespace Digest

/-! ## Values and their identity -/

/-- A property value as Python holds it. -/
inductive Value where
  | bool (b : Bool)
  | int (i : ℤ)
  | float (d : Double)
  | str (s : String)
  | list (items : List Value)
  | tuple (items : List Value)

mutual

/-- `_same_value`; a list and a tuple are both sequences. -/
def sameValue : Value → Value → Bool
  | .list xs, .list ys => sameItems xs ys
  | .list xs, .tuple ys => sameItems xs ys
  | .tuple xs, .list ys => sameItems xs ys
  | .tuple xs, .tuple ys => sameItems xs ys
  | .float d, .float e => d.hex = e.hex
  | .bool a, .bool b => a = b
  | .int i, .int j => i = j
  | .str s, .str t => s = t
  | _, _ => false

/-- `len(left) == len(right)` and the items pairwise. -/
def sameItems : List Value → List Value → Bool
  | [], [] => true
  | x :: xs, y :: ys => sameValue x y && sameItems xs ys
  | _, _ => false

end

/-! ## The encoding -/

/-- `_length`; a size beyond eight bytes raises. -/
def length (size : ℕ) : Option (List UInt8) := if size < 2 ^ 64 then some (encodeLength size) else none

/-- `_text`. -/
def text (s : String) : Option (List UInt8) := do
  return (← length (utf8 s).length) ++ utf8 s

/-- The items where all of them are floats. -/
def onlyFloats : List Value → Option (List Double)
  | [] => some []
  | .float d :: items => (onlyFloats items).map (d :: ·)
  | _ :: _ => none

mutual

/-- `encode_value`, with `_encode_list` and its fast path; a tuple is refused. -/
def encodeValue : Value → Option (List UInt8)
  | .bool b => encodeScalar (.bool b)
  | .int i => encodeScalar (.int i)
  | .float d => encodeScalar (.float d)
  | .str s => (text s).map (tag 's' :: ·)
  | .list items => do
    let size ← length items.length
    let body ← (match items, onlyFloats items with
      | _ :: _, some floats => encodeFloats floats
      | _, _ => encodeItems items : Option (List UInt8))
    return tag 'l' :: size ++ body
  | .tuple _ => none

/-- `b"".join(encode_value(item) for item in items)`. -/
def encodeItems : List Value → Option (List UInt8)
  | [] => some []
  | item :: items => do
    return (← encodeValue item) ++ (← encodeItems items)

end

/-- `encode_properties`: the size, then each key and value in key order. -/
def encodeProperties (properties : ExtTreeMap String Value) : Option (List UInt8) :=
  encodeList length (encodePair text encodeValue) properties.toList

/-- `_label_set`: the names sorted. -/
def labelSet (names : List String) : Option (List UInt8) := encodeList length text (names.insertionSort (· ≤ ·))

/-- `_endpoint`. -/
def endpoint (labels : List String) (id : String) : Option (List UInt8) := encodePair labelSet text (labels, id)

/-- What a digest scan reads of one element. -/
inductive Element where
  | node (labels : List String) (properties : ExtTreeMap String Value)
  | edge (kind : String) (sourceLabels : List String) (sourceId : String) (targetLabels : List String)
      (targetId : String) (properties : ExtTreeMap String Value)

/-- The element encodings of `_node_element` and `_edge_element`. -/
def encodeElement : Element → Option (List UInt8)
  | .node labels properties => do
    return tag 'N' :: (← labelSet labels) ++ (← encodeProperties properties)
  | .edge kind sourceLabels sourceId targetLabels targetId properties => do
    return tag 'E' :: (← text kind) ++ (← endpoint sourceLabels sourceId) ++ (← endpoint targetLabels targetId) ++
      (← encodeProperties properties)

mutual

/-- A storable value: a string, a bool, an int64, a finite float or a list of such, of sizes eight bytes can hold. -/
def Value.storable : Value → Bool
  | .bool _ => true
  | .int i => isInt64 i
  | .float d => d.isFinite
  | .str s => (utf8 s).length < 2 ^ 64
  | .list items => items.length < 2 ^ 64 && storableItems items
  | .tuple _ => false

def storableItems : List Value → Bool
  | [] => true
  | item :: items => item.storable && storableItems items

end

/-- Two property maps hold the same values under the same keys. -/
def SameProperties (p q : ExtTreeMap String Value) : Prop :=
  ∀ key : String, Option.Rel (fun a b => sameValue a b = true) p[key]? q[key]?

/-- Two elements are the same; the order of labels does not count. -/
def SameElement : Element → Element → Prop
  | .node labels p, .node labels' p' => labels.Perm labels' ∧ SameProperties p p'
  | .edge kind s i t j p, .edge kind' s' i' t' j' p' =>
    kind = kind' ∧ (s.Perm s' ∧ i = i') ∧ (t.Perm t' ∧ j = j') ∧ SameProperties p p'
  | _, _ => False

/-! ## Sizes and texts -/

theorem encodeLength_injective {m n : ℕ} (hm : m < 2 ^ 64) (hn : n < 2 ^ 64) (h : encodeLength m = encodeLength n) :
    m = n := by
  have hbyte : ∀ i ∈ (List.range 8).reverse, m / 256 ^ i % 256 = n / 256 ^ i % 256 := by
    intro i hi
    have hmap := List.map_inj_left.1 h i hi
    have hnat := congrArg UInt8.toNat hmap
    simpa using hnat
  have h0 := hbyte 0 (by decide)
  have h1 := hbyte 1 (by decide)
  have h2 := hbyte 2 (by decide)
  have h3 := hbyte 3 (by decide)
  have h4 := hbyte 4 (by decide)
  have h5 := hbyte 5 (by decide)
  have h6 := hbyte 6 (by decide)
  have h7 := hbyte 7 (by decide)
  norm_num at h0 h1 h2 h3 h4 h5 h6 h7
  omega

@[simp] theorem length_encodeLength (size : ℕ) : (encodeLength size).length = 8 := by simp [encodeLength]

theorem length_eq_some {size : ℕ} {x : List UInt8} (h : length size = some x) :
    size < 2 ^ 64 ∧ encodeLength size = x := by
  unfold length at h
  split at h
  · rename_i hlt
    exact ⟨hlt, Option.some.inj h⟩
  · cases h

theorem length_prefixCode : PrefixCode length Eq := by
  refine prefixCode_of_width 8 (fun m x hm => ?_) (fun m n x hm hn => ?_) fun m n x y hm hn heq => ?_
  · rw [← (length_eq_some hm).2]
    exact length_encodeLength m
  · obtain ⟨hlt, rfl⟩ := length_eq_some hm
    obtain ⟨hlt', heq⟩ := length_eq_some hn
    exact encodeLength_injective hlt hlt' heq.symm
  · rw [heq, hn] at hm
    exact (Option.some.inj hm).symm

/-- A text is the list of its bytes. -/
theorem text_eq (s : String) : text s = encodeList length (fun b => some [b]) (utf8 s) := by
  have hconcat : ∀ bytes : List UInt8, concat (fun b => some [b]) bytes = some bytes := by
    intro bytes
    induction bytes with
    | nil => rfl
    | cons b bytes ih =>
      rw [concat_cons, encodePair]
      dsimp only
      rw [ih]
      rfl
  unfold text encodeList encodePair
  dsimp only
  rw [hconcat]
  rfl

theorem text_prefixCode : PrefixCode text Eq := by
  have hbyte : PrefixCode (fun b : UInt8 => some [b]) Eq := by
    refine prefixCode_of_width 1 (fun a x ha => ?_) (fun a b x ha hb => ?_) fun a b x y ha hb heq => ?_
    · rw [← Option.some.inj ha]
      rfl
    · rw [← hb] at ha
      exact List.head_eq_of_cons_eq (Option.some.inj ha)
    · rw [← Option.some.inj ha, ← Option.some.inj hb, heq]
  intro s t x y hx hy
  rw [text_eq] at hx hy
  obtain ⟨hsame, heq⟩ := length_prefixCode.list hbyte (utf8 s) (utf8 t) x y hx hy
  rw [List.forall₂_eq_eq_eq] at hsame heq
  exact ⟨fun r u htext => utf8_injective (hsame r u htext), fun hst => heq (by rw [hst])⟩

/-! ## Values -/

theorem encodeItems_eq (items : List Value) : encodeItems items = concat encodeValue items := by
  induction items with
  | nil => rfl
  | cons item items ih =>
    rw [encodeItems, ih]
    rfl

theorem onlyFloats_eq_some {items : List Value} {floats : List Double} (h : onlyFloats items = some floats) :
    items = floats.map .float := by
  induction items generalizing floats with
  | nil =>
    cases h
    rfl
  | cons item items ih =>
    cases item with
    | float d =>
      obtain ⟨rest, hrest, rfl⟩ := Option.map_eq_some_iff.1 h
      rw [ih hrest]
      rfl
    | _ => cases h

/-- **The fast path for floats writes what the generic path writes.** -/
theorem encodeFloats_eq (floats : List Double) : encodeFloats floats = encodeItems (floats.map .float) := by
  induction floats with
  | nil => rfl
  | cons d floats ih =>
    rw [List.map_cons, encodeItems, ← ih]
    unfold encodeValue encodeScalar encodeFloats
    rw [List.all_cons]
    by_cases hd : d.isFinite = true <;> by_cases hall : floats.all Double.isFinite = true <;> simp [hd, hall]

/-- A list is its items behind their number. -/
theorem encodeValue_list (items : List Value) :
    encodeValue (.list items) = (encodeList length encodeValue items).map ([tag 'l'] ++ ·) := by
  have hbody : (match items, onlyFloats items with
      | _ :: _, some floats => encodeFloats floats
      | _, _ => encodeItems items) = concat encodeValue items := by
    rw [← encodeItems_eq]
    split
    · rename_i item rest floats hfloats
      rw [encodeFloats_eq, ← onlyFloats_eq_some hfloats]
    · rfl
  have hdef : encodeValue (.list items) = (do
      let size ← length items.length
      let body ← concat encodeValue items
      return tag 'l' :: size ++ body) := by
    rw [← hbody]
    rfl
  rw [hdef]
  unfold encodeList encodePair
  dsimp only
  cases length items.length with
  | none => rfl
  | some size =>
    cases concat encodeValue items with
    | none => rfl
    | some body => rfl

/-- The type tag of a value. -/
def kindTag : Value → UInt8
  | .bool _ => tag 'b'
  | .int _ => tag 'i'
  | .float _ => tag 'f'
  | .str _ => tag 's'
  | .list _ | .tuple _ => tag 'l'

theorem encodeValue_kindTag {v : Value} {x : List UInt8} (h : encodeValue v = some x) : ∃ rest, x = kindTag v :: rest := by
  cases v with
  | bool b => exact ⟨_, (Option.some.inj h).symm⟩
  | int i =>
    rw [encodeValue, encodeScalar] at h
    split at h
    · exact ⟨_, (Option.some.inj h).symm⟩
    · cases h
  | float d =>
    rw [encodeValue, encodeScalar] at h
    split at h
    · exact ⟨_, (Option.some.inj h).symm⟩
    · cases h
  | str s =>
    obtain ⟨bytes, -, rfl⟩ := Option.map_eq_some_iff.1 h
    exact ⟨bytes, rfl⟩
  | list items =>
    rw [encodeValue_list] at h
    obtain ⟨bytes, -, rfl⟩ := Option.map_eq_some_iff.1 h
    exact ⟨bytes, rfl⟩
  | tuple items => cases h

theorem sameValue_kindTag {a b : Value} (h : sameValue a b = true) : kindTag a = kindTag b := by
  cases a <;> cases b <;> first | rfl | cases h

theorem sameItems_iff {xs ys : List Value} :
    sameItems xs ys = true ↔ List.Forall₂ (fun a b => sameValue a b = true) xs ys := by
  induction xs generalizing ys with
  | nil =>
    cases ys with
    | nil => simp [sameItems]
    | cons y ys => simp [sameItems]
  | cons x xs ih =>
    cases ys with
    | nil => simp [sameItems]
    | cons y ys => simp [sameItems, ih]

/-- Values of different types are told apart by their tags. -/
theorem delimits_of_kindTag {a b : Value} (h : kindTag a ≠ kindTag b) :
    Delimits encodeValue (fun a b => sameValue a b = true) a b := by
  intro x y hx hy
  obtain ⟨rest, rfl⟩ := encodeValue_kindTag hx
  obtain ⟨rest', rfl⟩ := encodeValue_kindTag hy
  exact ⟨fun r s htext => absurd (List.head_eq_of_cons_eq htext) h, fun hsame => absurd (sameValue_kindTag hsame) h⟩

theorem bool_prefixCode : PrefixCode (fun b => encodeScalar (.bool b)) Eq := by
  refine prefixCode_of_width 2 (fun p x hp => ?_) (fun p q x hp hq => ?_) fun p q x y hp hq heq => ?_
  · rw [← Option.some.inj hp]
    rfl
  · rw [← hq] at hp
    cases p <;> cases q <;> first | rfl | exact absurd hp (by decide)
  · rw [heq] at hp
    exact Option.some.inj (hp.symm.trans hq)

theorem int_prefixCode : PrefixCode (fun i => encodeScalar (.int i)) Eq := by
  have hsome : ∀ {i : ℤ} {x : List UInt8}, encodeScalar (.int i) = some x →
      isInt64 i = true ∧ tag 'i' :: encodeLength (i % 2 ^ 64).toNat = x := by
    intro i x h
    rw [encodeScalar] at h
    split at h
    · rename_i hint
      exact ⟨hint, Option.some.inj h⟩
    · cases h
  refine prefixCode_of_width 9 (fun i x hi => ?_) (fun i j x hi hj => ?_) fun i j x y hi hj heq => ?_
  · rw [← (hsome hi).2, List.length_cons, length_encodeLength]
  · obtain ⟨hint, rfl⟩ := hsome hi
    obtain ⟨hint', heq⟩ := hsome hj
    unfold isInt64 at hint hint'
    rw [decide_eq_true_eq] at hint hint'
    have hnat := encodeLength_injective (by omega) (by omega) (List.tail_eq_of_cons_eq heq)
    omega
  · rw [heq] at hi
    exact Option.some.inj (hi.symm.trans hj)

theorem float_prefixCode : PrefixCode (fun d => encodeScalar (.float d)) fun d e => d.hex = e.hex := by
  have hsome : ∀ {d : Double} {x : List UInt8}, encodeScalar (.float d) = some x →
      d.isFinite = true ∧ tag 'f' :: encodeLength d.bits.toNat = x := by
    intro d x h
    rw [encodeScalar] at h
    split at h
    · rename_i hfinite
      exact ⟨hfinite, Option.some.inj h⟩
    · cases h
  refine prefixCode_of_width 9 (fun d x hd => ?_) (fun d e x hd he => ?_) fun d e x y hd he heq => ?_
  · rw [← (hsome hd).2, List.length_cons, length_encodeLength]
  · obtain ⟨-, rfl⟩ := hsome hd
    obtain ⟨-, heq⟩ := hsome he
    have hnat := encodeLength_injective e.bits.toNat_lt d.bits.toNat_lt (List.tail_eq_of_cons_eq heq)
    rw [Double.eq_of_toNat hnat.symm]
  · rw [Double.hex_injective (hsome hd).1 (hsome he).1 heq] at hd
    exact Option.some.inj (hd.symm.trans he)

/-- **An encoded value says where it ends**, and equal encodings are encodings of the same value. -/
theorem encodeValue_delimits (a b : Value) : Delimits encodeValue (fun a b => sameValue a b = true) a b := by
  by_cases hkind : kindTag a = kindTag b
  swap
  · exact delimits_of_kindTag hkind
  -- only values of one type are left, and a tuple is not encoded
  cases a with
  | bool p =>
    cases b with
    | bool q => exact (bool_prefixCode p q).congr rfl rfl (by simp [sameValue])
    | _ => exact absurd hkind (by simp [kindTag, tag])
  | int i =>
    cases b with
    | int j => exact (int_prefixCode i j).congr rfl rfl (by simp [sameValue])
    | _ => exact absurd hkind (by simp [kindTag, tag])
  | float d =>
    cases b with
    | float e => exact (float_prefixCode d e).congr rfl rfl (by simp [sameValue])
    | _ => exact absurd hkind (by simp [kindTag, tag])
  | str s =>
    cases b with
    | str t => exact ((text_prefixCode s t).tagged [tag 's']).congr rfl rfl (by simp [sameValue])
    | _ => exact absurd hkind (by simp [kindTag, tag])
  | list xs =>
    cases b with
    | list ys =>
      have hitems : Delimits (encodeList length encodeValue) (List.Forall₂ fun a b => sameValue a b = true) xs ys :=
        delimits_list length_prefixCode fun x hx y _ => encodeValue_delimits x y
      refine (hitems.tagged [tag 'l']).congr (encodeValue_list xs) (encodeValue_list ys) ?_
      rw [sameValue, sameItems_iff]
    | tuple ys => exact fun x y hx hy => nomatch hy
    | _ => exact absurd hkind (by simp [kindTag, tag])
  | tuple xs => exact fun x y hx hy => nomatch hx
termination_by sizeOf a
decreasing_by
  have := List.sizeOf_lt_of_mem hx
  simp only [Value.list.sizeOf_spec]
  omega

theorem value_prefixCode : PrefixCode encodeValue fun a b => sameValue a b = true := encodeValue_delimits

/-! ## Property maps -/

section Properties

variable {p q : ExtTreeMap String Value}

/-- Maps with the same keys list them in the same order. -/
theorem keys_eq (h : ∀ key : String, p[key]?.isSome = q[key]?.isSome) : p.keys = q.keys := by
  have hnodup : ∀ m : ExtTreeMap String Value, m.keys.Nodup := by
    intro m
    refine m.distinct_keys.imp fun hne heq => hne ?_
    rw [heq]
    exact Std.ReflCmp.compare_self
  have hperm : p.keys.Perm q.keys := by
    refine (List.perm_ext_iff_of_nodup (hnodup p) (hnodup q)).2 fun key => ?_
    rw [ExtTreeMap.mem_keys, ExtTreeMap.mem_keys, ExtTreeMap.mem_iff_isSome_getElem?,
      ExtTreeMap.mem_iff_isSome_getElem?, h key]
  refine hperm.eq_of_pairwise (fun a b _ _ hab hba => ?_) p.ordered_keys q.ordered_keys
  have hswap : compare a b = (compare b a).swap := Std.OrientedCmp.eq_swap
  rw [hswap, hba] at hab
  cases hab

/-- Lists of pairs with the same first components. -/
theorem forall₂_of_map_fst {R : Value → Value → Prop} {xs ys : List (String × Value)}
    (hkeys : xs.map Prod.fst = ys.map Prod.fst) (h : ∀ a ∈ xs, ∀ b ∈ ys, a.1 = b.1 → R a.2 b.2) :
    List.Forall₂ (fun a b => a.1 = b.1 ∧ R a.2 b.2) xs ys := by
  induction xs generalizing ys with
  | nil =>
    cases ys with
    | nil => exact .nil
    | cons y ys => cases hkeys
  | cons x xs ih =>
    cases ys with
    | nil => cases hkeys
    | cons y ys =>
      obtain ⟨hhead, htail⟩ := List.cons_eq_cons.1 hkeys
      refine .cons ⟨hhead, h x List.mem_cons_self y List.mem_cons_self hhead⟩ (ih htail fun a ha b hb => ?_)
      exact h a (List.mem_cons_of_mem _ ha) b (List.mem_cons_of_mem _ hb)

theorem exists_of_forall₂ {α β : Type} {R : α → β → Prop} {xs : List α} {ys : List β} (h : List.Forall₂ R xs ys) :
    (∀ a ∈ xs, ∃ b ∈ ys, R a b) ∧ ∀ b ∈ ys, ∃ a ∈ xs, R a b := by
  induction h with
  | nil => simp
  | cons hR _ ih =>
    obtain ⟨hleft, hright⟩ := ih
    constructor
    · intro a ha
      rcases List.mem_cons.1 ha with rfl | ha
      · exact ⟨_, List.mem_cons_self, hR⟩
      · obtain ⟨b, hb, hRb⟩ := hleft a ha
        exact ⟨b, List.mem_cons_of_mem _ hb, hRb⟩
    · intro b hb
      rcases List.mem_cons.1 hb with rfl | hb
      · exact ⟨_, List.mem_cons_self, hR⟩
      · obtain ⟨a, ha, hRa⟩ := hright b hb
        exact ⟨a, List.mem_cons_of_mem _ ha, hRa⟩

/-- Maps are the same exactly when their entries are, in key order. -/
theorem sameProperties_iff : SameProperties p q ↔
    List.Forall₂ (fun a b => a.1 = b.1 ∧ sameValue a.2 b.2 = true) p.toList q.toList := by
  constructor
  · intro h
    have hkeys : p.keys = q.keys := by
      refine keys_eq fun key => ?_
      cases hp : p[key]? <;> cases hq : q[key]? <;> have hrel := h key <;> rw [hp, hq] at hrel <;>
        first | rfl | cases hrel
    rw [← ExtTreeMap.map_fst_toList_eq_keys, ← ExtTreeMap.map_fst_toList_eq_keys] at hkeys
    refine forall₂_of_map_fst (R := fun a b => sameValue a b = true) hkeys fun a ha b hb hab => ?_
    have hrel := h a.1
    rw [ExtTreeMap.mem_toList_iff_getElem?_eq_some.1 ha] at hrel
    rw [hab, ExtTreeMap.mem_toList_iff_getElem?_eq_some.1 hb] at hrel
    cases hrel with
    | some hsame => exact hsame
  · intro h key
    obtain ⟨hleft, hright⟩ := exists_of_forall₂ h
    cases hp : p[key]? with
    | some v =>
      obtain ⟨⟨key', v'⟩, hmem, hkey, hsame⟩ := hleft (key, v) (ExtTreeMap.mem_toList_iff_getElem?_eq_some.2 hp)
      dsimp only at hkey hsame
      subst hkey
      rw [ExtTreeMap.mem_toList_iff_getElem?_eq_some.1 hmem]
      exact .some hsame
    | none =>
      cases hq : q[key]? with
      | none => exact .none
      | some v' =>
        obtain ⟨⟨key', v⟩, hmem, hkey, -⟩ := hright (key, v') (ExtTreeMap.mem_toList_iff_getElem?_eq_some.2 hq)
        dsimp only at hkey
        subst hkey
        rw [ExtTreeMap.mem_toList_iff_getElem?_eq_some.1 hmem] at hp
        cases hp

theorem properties_prefixCode : PrefixCode encodeProperties SameProperties := fun p q =>
  (length_prefixCode.list (text_prefixCode.pair value_prefixCode) p.toList q.toList).congr rfl rfl sameProperties_iff

end Properties

/-! ## Elements -/

theorem insertionSort_eq_iff {xs ys : List String} :
    xs.insertionSort (· ≤ ·) = ys.insertionSort (· ≤ ·) ↔ xs.Perm ys := by
  have hxs := List.perm_insertionSort (· ≤ ·) xs
  have hys := List.perm_insertionSort (· ≤ ·) ys
  constructor
  · intro h
    rw [h] at hxs
    exact hxs.symm.trans hys
  · intro h
    exact ((hxs.trans h).trans hys.symm).eq_of_pairwise (fun a b _ _ hab hba => le_antisymm hab hba)
      (List.pairwise_insertionSort (· ≤ ·) xs) (List.pairwise_insertionSort (· ≤ ·) ys)

theorem labelSet_prefixCode : PrefixCode labelSet List.Perm := by
  intro xs ys
  refine (length_prefixCode.list text_prefixCode (xs.insertionSort (· ≤ ·)) (ys.insertionSort (· ≤ ·))).congr rfl rfl ?_
  rw [List.forall₂_eq_eq_eq, insertionSort_eq_iff]

theorem endpoint_prefixCode : PrefixCode (fun e : List String × String => endpoint e.1 e.2)
    fun e e' => e.1.Perm e'.1 ∧ e.2 = e'.2 := labelSet_prefixCode.pair text_prefixCode

theorem encodeElement_node (labels : List String) (p : ExtTreeMap String Value) : encodeElement (.node labels p) =
    (encodePair labelSet encodeProperties (labels, p)).map ([tag 'N'] ++ ·) := by
  unfold encodePair
  rw [encodeElement]
  dsimp only
  cases labelSet labels with
  | none => rfl
  | some names =>
    cases encodeProperties p with
    | none => rfl
    | some body => rfl

theorem encodeElement_edge (kind : String) (s : List String) (i : String) (t : List String) (j : String)
    (p : ExtTreeMap String Value) : encodeElement (.edge kind s i t j p) =
      (encodePair text (encodePair (fun e : List String × String => endpoint e.1 e.2)
        (encodePair (fun e : List String × String => endpoint e.1 e.2) encodeProperties))
        (kind, (s, i), (t, j), p)).map ([tag 'E'] ++ ·) := by
  unfold encodePair
  rw [encodeElement]
  dsimp only
  cases text kind with
  | none => rfl
  | some a =>
    cases endpoint s i with
    | none => rfl
    | some b =>
      cases endpoint t j with
      | none => rfl
      | some c =>
        cases encodeProperties p with
        | none => rfl
        | some d => simp

/-- **Elements**: a node is not taken for a relationship, and each is determined by its encoding. -/
theorem element_prefixCode : PrefixCode encodeElement SameElement := by
  have hapart : ∀ {x y : List UInt8} {m n : Option (List UInt8)} {c d : Char}, tag c ≠ tag d →
      m.map ([tag c] ++ ·) = some x → n.map ([tag d] ++ ·) = some y → ∀ r s, x ++ r ≠ y ++ s := by
    intro x y m n c d hne hx hy r s htext
    obtain ⟨x', -, rfl⟩ := Option.map_eq_some_iff.1 hx
    obtain ⟨y', -, rfl⟩ := Option.map_eq_some_iff.1 hy
    exact hne (List.head_eq_of_cons_eq htext)
  intro a b
  cases a with
  | node labels p =>
    cases b with
    | node labels' p' =>
      exact (((labelSet_prefixCode.pair properties_prefixCode) (labels, p) (labels', p')).tagged [tag 'N']).congr
        (encodeElement_node labels p) (encodeElement_node labels' p') Iff.rfl
    | edge kind s i t j q =>
      intro x y hx hy
      rw [encodeElement_node] at hx
      rw [encodeElement_edge] at hy
      exact ⟨fun r s htext => absurd htext (hapart (by decide) hx hy r s), fun h => h.elim⟩
  | edge kind s i t j p =>
    cases b with
    | node labels q =>
      intro x y hx hy
      rw [encodeElement_edge] at hx
      rw [encodeElement_node] at hy
      exact ⟨fun r s htext => absurd htext (hapart (by decide) hx hy r s), fun h => h.elim⟩
    | edge kind' s' i' t' j' p' =>
      have hcode := text_prefixCode.pair (endpoint_prefixCode.pair (endpoint_prefixCode.pair properties_prefixCode))
      exact ((hcode (kind, (s, i), (t, j), p) (kind', (s', i'), (t', j'), p')).tagged [tag 'E']).congr
        (encodeElement_edge kind s i t j p) (encodeElement_edge kind' s' i' t' j' p') Iff.rfl

/-! ## What can be encoded -/

theorem length_isSome (size : ℕ) : (length size).isSome = decide (size < 2 ^ 64) := by
  unfold length
  split
  · rename_i h
    rw [decide_eq_true h]
    rfl
  · rename_i h
    rw [decide_eq_false h]
    rfl

theorem text_isSome (s : String) : (text s).isSome = decide ((utf8 s).length < 2 ^ 64) := by
  rw [← length_isSome]
  unfold text
  cases length (utf8 s).length <;> rfl

mutual

/-- **The digest encodes exactly the storable values.** -/
theorem encodeValue_isSome (v : Value) : (encodeValue v).isSome = v.storable := by
  cases v with
  | bool b => rfl
  | int i => exact encodeScalar_isSome (.int i)
  | float d => exact encodeScalar_isSome (.float d)
  | str s =>
    rw [encodeValue, Option.isSome_map, text_isSome]
    rfl
  | list items =>
    have hitems := encodeItems_isSome items
    rw [encodeItems_eq] at hitems
    rw [encodeValue_list, Option.isSome_map, Value.storable, ← hitems, ← length_isSome]
    unfold encodeList encodePair
    dsimp only
    cases length items.length <;> cases concat encodeValue items <;> rfl
  | tuple items => rfl

theorem encodeItems_isSome (items : List Value) : (encodeItems items).isSome = storableItems items := by
  cases items with
  | nil => rfl
  | cons item items =>
    rw [encodeItems, storableItems, ← encodeValue_isSome item, ← encodeItems_isSome items]
    cases encodeValue item <;> cases encodeItems items <;> rfl

end

/-! ## Flat values -/

def Value.ofScalar : Scalar → Value
  | .str s => .str s
  | .bool b => .bool b
  | .int i => .int i
  | .float d => .float d

/-- A value of the store. -/
def Value.ofStored : PropertyValue → Value
  | .scalar s => .ofScalar s
  | .list items => .list (items.map .ofScalar)

/-- A code's encodings are equal exactly on the same values, and none is a proper prefix of another. -/
def Injective {α : Type} (encode : α → Option (List UInt8)) (Same : α → α → Prop) : Prop :=
  ∀ a b x y, encode a = some x → encode b = some y → (x = y ↔ Same a b) ∧ (x <+: y → x = y)

theorem injective_of_prefixCode {α : Type} {encode : α → Option (List UInt8)} {Same : α → α → Prop}
    (h : PrefixCode encode Same) : Injective encode Same := fun a b _ _ ha hb =>
  ⟨(h a b).eq_iff ha hb, (h a b).eq_of_starts ha hb⟩

/-- **The digest's encoding is injective and agrees with the filter.** Exactly the storable values are encoded; two
are encoded alike if and only if `sameValue` holds of them, property maps if and only if they hold the same values
under the same keys, elements if and only if they are the same; no encoding is a proper prefix of another; and a list
of floats is encoded as its items are. -/
theorem digest_encoding_injective :
    (∀ v, (encodeValue v).isSome = v.storable) ∧ Injective encodeValue (fun a b => sameValue a b = true) ∧
      Injective encodeProperties SameProperties ∧ Injective encodeElement SameElement ∧
      ∀ floats : List Double, encodeFloats floats = encodeItems (floats.map .float) :=
  ⟨encodeValue_isSome, injective_of_prefixCode value_prefixCode, injective_of_prefixCode properties_prefixCode,
    injective_of_prefixCode element_prefixCode, encodeFloats_eq⟩

example : sameValue (.int 1) (.float ⟨0x3FF0000000000000⟩) = false ∧ sameValue (.bool true) (.int 1) = false ∧
    sameValue (.float ⟨0⟩) (.float ⟨0x8000000000000000⟩) = false := by decide +kernel

end Digest

end PolicySystem
