import PolicySystem.Text.Numeral

/-!
# JSON text

JSON values over a type of floats, their compact text and its reading. A dict is the list of its items in key
order: the order of a dict is no part of its value.

* `loads_dumps`: the text of a value is read back as that value.
-/

namespace Text

/-- Floats with a text: each finite float's literal is read back as that float. -/
class FloatText (F : Type) where
  isFinite : F → Bool
  toNumeral : F → Numeral
  ofNumeral : Numeral → F
  wellFormed : ∀ f, isFinite f = true → (toNumeral f).WellFormed
  isFloat : ∀ f, isFinite f = true → (toNumeral f).isFloat = true
  ofNumeral_toNumeral : ∀ f, isFinite f = true → ofNumeral (toNumeral f) = f

/-- A JSON value. -/
inductive Json (F : Type) where
  | null
  | bool (b : Bool)
  | int (i : ℤ)
  | float (f : F)
  | str (s : String)
  | arr (items : List (Json F))
  | obj (items : List (String × Json F))

namespace Json

variable {F : Type}

/-! ## Strings -/

/-- A hexadecimal digit, lower case. -/
def hexDigit (n : ℕ) : Char := if n < 10 then Char.ofNat (48 + n) else Char.ofNat (87 + n)

def hexValue? (c : Char) : Option ℕ :=
  if 48 ≤ c.toNat ∧ c.toNat < 58 then some (c.toNat - 48)
  else if 97 ≤ c.toNat ∧ c.toNat < 103 then some (c.toNat - 87)
  else if 65 ≤ c.toNat ∧ c.toNat < 71 then some (c.toNat - 55)
  else none

/-- A `\u` escape of a code below `0x10000`. -/
def unicodeEscape (code : ℕ) : List Char :=
  ['\\', 'u', hexDigit (code / 4096), hexDigit (code / 256 % 16), hexDigit (code / 16 % 16), hexDigit (code % 16)]

/-- A character within a string literal; `ascii` leaves only printable ASCII as it is, a code from `0x10000` on as
a surrogate pair. -/
def escapeChar (ascii : Bool) (c : Char) : List Char :=
  if c = '"' then ['\\', '"']
  else if c = '\\' then ['\\', '\\']
  else if c = '\n' then ['\\', 'n']
  else if c = '\r' then ['\\', 'r']
  else if c = '\t' then ['\\', 't']
  else if c.toNat = 8 then ['\\', 'b']
  else if c.toNat = 12 then ['\\', 'f']
  else if c.toNat < 32 ∨ (ascii ∧ 127 ≤ c.toNat ∧ c.toNat < 0x10000) then unicodeEscape c.toNat
  else if ascii ∧ 0x10000 ≤ c.toNat then
    unicodeEscape (0xd800 + (c.toNat - 0x10000) / 0x400) ++ unicodeEscape (0xdc00 + (c.toNat - 0x10000) % 0x400)
  else [c]

/-- A string literal. -/
def dumpsString (ascii : Bool) (s : String) : List Char := '"' :: s.toList.flatMap (escapeChar ascii) ++ ['"']

/-- What follows a backslash, `\u` apart. -/
def unescape? (c : Char) : Option Char :=
  if c = '"' ∨ c = '\\' ∨ c = '/' then some c
  else if c = 'n' then some '\n'
  else if c = 'r' then some '\r'
  else if c = 't' then some '\t'
  else if c = 'b' then some (Char.ofNat 8)
  else if c = 'f' then some (Char.ofNat 12)
  else none

/-- The code of a `\u` escape. -/
def hexCode? (a b c d : Char) : Option ℕ := do
  return (((← hexValue? a) * 16 + (← hexValue? b)) * 16 + (← hexValue? c)) * 16 + (← hexValue? d)

/-- The character of a code; a surrogate has none. -/
def charOf? (code : ℕ) : Option Char := if code.isValidChar then some (Char.ofNat code) else none

/-- A `\u` escape after its `u`, a surrogate pair as one character. -/
def readUnicode : List Char → Option (Char × List Char)
  | a :: b :: c :: d :: rest => do
    let code ← hexCode? a b c d
    if 0xd800 ≤ code ∧ code < 0xdc00 then
      match rest with
      | '\\' :: 'u' :: a :: b :: c :: d :: rest =>
        let low ← hexCode? a b c d
        guard (0xdc00 ≤ low ∧ low < 0xe000)
        return (← charOf? (0x10000 + (code - 0xd800) * 0x400 + (low - 0xdc00)), rest)
      | _ => none
    else return (← charOf? code, rest)
  | _ => none

/-- The character at the start of a string literal's text, escapes read. -/
def readChar : List Char → Option (Char × List Char)
  | [] => none
  | '\\' :: 'u' :: rest => readUnicode rest
  | '\\' :: c :: rest => (unescape? c).map fun char => (char, rest)
  | c :: rest => if c = '\\' ∨ c.toNat < 32 then none else some (c, rest)

/-- The rest of a string literal, up to its closing quote. -/
def readString : ℕ → List Char → Option (List Char × List Char)
  | 0, _ => none
  | fuel + 1, cs =>
    match cs with
    | '"' :: rest => some ([], rest)
    | cs =>
      match readChar cs with
      | none => none
      | some (char, rest) => (readString fuel rest).map fun read => (char :: read.1, read.2)

theorem hexValue?_hexDigit {n : ℕ} (h : n < 16) : hexValue? (hexDigit n) = some n := by
  interval_cases n <;> decide

theorem charOf?_toNat (c : Char) : charOf? c.toNat = some c := by
  have hvalid : c.toNat.isValidChar := c.valid
  rw [charOf?, if_pos hvalid, Char.ofNat_toNat]

theorem hexCode?_digits {n : ℕ} (h : n < 0x10000) :
    hexCode? (hexDigit (n / 4096)) (hexDigit (n / 256 % 16)) (hexDigit (n / 16 % 16)) (hexDigit (n % 16)) = some n := by
  simp only [hexCode?, hexValue?_hexDigit (show n / 4096 < 16 by omega),
    hexValue?_hexDigit (show n / 256 % 16 < 16 by omega), hexValue?_hexDigit (show n / 16 % 16 < 16 by omega),
    hexValue?_hexDigit (show n % 16 < 16 by omega), Option.bind_eq_bind, Option.bind_some]
  change some _ = some n
  congr 1
  omega

theorem readUnicode_escape {n : ℕ} (h : n < 0x10000) (hsurrogate : ¬(0xd800 ≤ n ∧ n < 0xdc00)) (rest : List Char) :
    readChar (unicodeEscape n ++ rest) = (charOf? n).map fun c => (c, rest) := by
  simp only [unicodeEscape, List.cons_append, List.nil_append, readChar, readUnicode, hexCode?_digits h,
    Option.bind_eq_bind, Option.bind_some, if_neg hsurrogate]
  cases charOf? n <;> rfl

theorem readUnicode_pair {high low : ℕ} (hhigh : high < 0x400) (hlow : low < 0x400) (rest : List Char) :
    readChar (unicodeEscape (0xd800 + high) ++ (unicodeEscape (0xdc00 + low) ++ rest)) =
      (charOf? (0x10000 + high * 0x400 + low)).map fun c => (c, rest) := by
  have hfirst : 0xd800 ≤ 0xd800 + high ∧ 0xd800 + high < 0xdc00 := by omega
  have hsecond : 0xdc00 ≤ 0xdc00 + low ∧ 0xdc00 + low < 0xe000 := by omega
  have hcode : 0x10000 + (0xd800 + high - 0xd800) * 0x400 + (0xdc00 + low - 0xdc00) = 0x10000 + high * 0x400 + low := by
    omega
  simp only [unicodeEscape, List.cons_append, List.nil_append, readChar, readUnicode,
    hexCode?_digits (show 0xd800 + high < 0x10000 by omega), hexCode?_digits (show 0xdc00 + low < 0x10000 by omega),
    Option.bind_eq_bind, Option.bind_some, if_pos hfirst, guard, if_pos hsecond, hcode]
  cases charOf? (0x10000 + high * 0x400 + low) <;> rfl

theorem readChar_plain {c : Char} (hc : c ≠ '\\') (h : 32 ≤ c.toNat) (rest : List Char) :
    readChar (c :: rest) = some (c, rest) := by
  unfold readChar
  split
  · rename_i heq
    cases heq
  · rename_i heq
    exact absurd (List.cons.inj heq).1 hc
  · rename_i heq
    exact absurd (List.cons.inj heq).1 hc
  · rename_i c' rest' _ _ heq
    cases heq
    rw [if_neg]
    rintro (h' | h')
    · exact hc h'
    · omega

/-- **A character round-trips.** -/
theorem readChar_escapeChar (ascii : Bool) (c : Char) (rest : List Char) :
    readChar (escapeChar ascii c ++ rest) = some (c, rest) := by
  have hnat : ∀ n : ℕ, c.toNat = n → c = Char.ofNat n := by
    intro n hn
    rw [← hn, Char.ofNat_toNat]
  have hvalid : c.toNat < 0xd800 ∨ (0xdfff < c.toNat ∧ c.toNat < 0x110000) := c.valid
  unfold escapeChar
  split_ifs with h1 h2 h3 h4 h5 h6 h7 h8 h9
  · subst h1
    rfl
  · subst h2
    rfl
  · subst h3
    rfl
  · subst h4
    rfl
  · subst h5
    rfl
  · rw [hnat 8 h6]
    rfl
  · rw [hnat 12 h7]
    rfl
  · rw [readUnicode_escape (by omega) (by omega), charOf?_toNat]
    rfl
  · -- beyond the basic plane, as a surrogate pair
    have hcode : 0x10000 + (c.toNat - 0x10000) / 0x400 * 0x400 + (c.toNat - 0x10000) % 0x400 = c.toNat := by omega
    rw [List.append_assoc, readUnicode_pair (by omega) (by omega), hcode, charOf?_toNat]
    rfl
  · exact readChar_plain h2 (by omega) rest

theorem escapeChar_ne_quote (ascii : Bool) (c : Char) (rest : List Char) :
    ∀ cs, escapeChar ascii c ++ rest ≠ '"' :: cs := by
  intro cs
  unfold escapeChar
  split_ifs with h1
  all_goals simp [unicodeEscape]
  exact fun h => absurd h h1

/-- **A string round-trips.** -/
theorem readString_escape (ascii : Bool) (chars rest : List Char) {fuel : ℕ} (h : chars.length < fuel) :
    readString fuel (chars.flatMap (escapeChar ascii) ++ '"' :: rest) = some (chars, rest) := by
  induction chars generalizing fuel with
  | nil =>
    cases fuel with
    | zero => omega
    | succ fuel => rfl
  | cons c chars ih =>
    cases fuel with
    | zero => omega
    | succ fuel =>
      rw [List.flatMap_cons, List.append_assoc]
      unfold readString
      split
      · rename_i heq
        exact absurd heq (escapeChar_ne_quote ascii c _ _)
      · rw [readChar_escapeChar]
        simp only [List.length_cons] at h
        simp [ih (show chars.length < fuel by omega)]

theorem length_le_flatMap_escape (ascii : Bool) (chars : List Char) :
    chars.length ≤ (chars.flatMap (escapeChar ascii)).length := by
  induction chars with
  | nil => simp
  | cons c chars ih =>
    have hone : 1 ≤ (escapeChar ascii c).length := by
      unfold escapeChar
      split_ifs <;> simp [unicodeEscape]
    rw [List.flatMap_cons, List.length_append, List.length_cons]
    omega

/-! ## Dicts -/

/-- Set one item of a dict. -/
def insertItem (key : String) (value : Json F) : List (String × Json F) → List (String × Json F)
  | [] => [(key, value)]
  | (k, v) :: items =>
    match compare key k with
    | .lt => (key, value) :: (k, v) :: items
    | .eq => (key, value) :: items
    | .gt => (k, v) :: insertItem key value items

/-- The dict of these items, a later item over an earlier one of its key. -/
def dictOf (items : List (String × Json F)) : List (String × Json F) :=
  items.foldl (fun dict item => insertItem item.1 item.2 dict) []

/-- Items in key order, each key once. -/
def InOrder (items : List (String × Json F)) : Prop := items.Pairwise fun a b => compare a.1 b.1 = .lt

theorem insertItem_last {items : List (String × Json F)} {key : String} {value : Json F}
    (h : ∀ item ∈ items, compare item.1 key = .lt) : insertItem key value items = items ++ [(key, value)] := by
  induction items with
  | nil => rfl
  | cons item items ih =>
    obtain ⟨k, v⟩ := item
    have hk : compare key k = .gt := Std.OrientedCmp.gt_iff_lt.2 (h (k, v) (by simp))
    simp [insertItem, hk, ih fun x hx => h x (by simp [hx])]

theorem mem_insertItem {items : List (String × Json F)} {key : String} {value : Json F} {x : String × Json F}
    (h : x ∈ insertItem key value items) : x = (key, value) ∨ x ∈ items := by
  induction items with
  | nil => exact .inl (List.mem_singleton.1 h)
  | cons item items ih =>
    unfold insertItem at h
    split at h
    · exact List.mem_cons.1 h
    · rcases List.mem_cons.1 h with h | h
      · exact .inl h
      · exact .inr (List.mem_cons_of_mem _ h)
    · rcases List.mem_cons.1 h with h | h
      · exact .inr (by rw [h]; simp)
      · rcases ih h with h | h
        · exact .inl h
        · exact .inr (List.mem_cons_of_mem _ h)

/-- Setting an item keeps the order. -/
theorem inOrder_insertItem {items : List (String × Json F)} (key : String) (value : Json F) (h : InOrder items) :
    InOrder (insertItem key value items) := by
  induction items with
  | nil => exact List.pairwise_singleton _ _
  | cons item items ih =>
    obtain ⟨k, v⟩ := item
    obtain ⟨hhead, htail⟩ := List.pairwise_cons.1 h
    unfold insertItem
    split
    · rename_i hlt
      refine List.pairwise_cons.2 ⟨fun x hx => ?_, h⟩
      rcases List.mem_cons.1 hx with rfl | hx
      · exact hlt
      · exact Std.TransCmp.lt_trans hlt (hhead x hx)
    · rename_i heq
      have hkey : key = k := Std.LawfulEqCmp.eq_of_compare heq
      subst hkey
      exact List.pairwise_cons.2 ⟨hhead, htail⟩
    · rename_i hgt
      refine List.pairwise_cons.2 ⟨fun x hx => ?_, ih htail⟩
      rcases mem_insertItem hx with rfl | hx
      · exact Std.OrientedCmp.gt_iff_lt.1 hgt
      · exact hhead x hx

theorem inOrder_dictOf (items : List (String × Json F)) : InOrder (dictOf items) := by
  have hfold : ∀ (items dict : List (String × Json F)), InOrder dict →
      InOrder (items.foldl (fun dict item => insertItem item.1 item.2 dict) dict) := by
    intro items
    induction items with
    | nil => exact fun _ h => h
    | cons item items ih => exact fun dict h => ih _ (inOrder_insertItem _ _ h)
  exact hfold items [] List.Pairwise.nil

theorem mem_dictOf {items : List (String × Json F)} {x : String × Json F} (h : x ∈ dictOf items) : x ∈ items := by
  have hfold : ∀ (items dict : List (String × Json F)),
      x ∈ items.foldl (fun dict item => insertItem item.1 item.2 dict) dict → x ∈ items ∨ x ∈ dict := by
    intro items
    induction items with
    | nil => exact fun _ h => .inr h
    | cons item items ih =>
      intro dict h
      rcases ih _ h with h | h
      · exact .inl (List.mem_cons_of_mem _ h)
      · rcases mem_insertItem h with h | h
        · exact .inl (by rw [h]; simp)
        · exact .inr h
  rcases hfold items [] h with h | h
  · exact h
  · cases h

/-- The item set is the one found under its key. -/
theorem find?_insertItem (items : List (String × Json F)) (key k : String) (value : Json F) :
    (insertItem key value items).find? (fun item => item.1 = k) =
      if key = k then some (key, value) else items.find? fun item => item.1 = k := by
  induction items with
  | nil => by_cases h : key = k <;> simp [insertItem, h]
  | cons item items ih =>
    obtain ⟨k', v⟩ := item
    by_cases h : key = k
    · unfold insertItem
      split
      · simp [h]
      · simp [h]
      · rename_i hgt
        have hne : k' ≠ k := by
          rintro rfl
          have hrefl : compare k' k' = .eq := Std.ReflCmp.compare_self
          rw [h, hrefl] at hgt
          cases hgt
        rw [List.find?_cons_of_neg (by simpa using hne), ih, if_pos h, if_pos h]
    · unfold insertItem
      split
      · simp [h]
      · rename_i heq
        have hkey : key = k' := Std.LawfulEqCmp.eq_of_compare heq
        subst hkey
        simp [h]
      · by_cases hk : k' = k
        · simp [hk, h]
        · rw [List.find?_cons_of_neg (by simpa using hk), ih, if_neg h, if_neg h,
            List.find?_cons_of_neg (by simpa using hk)]

theorem dictOf_inOrder {items : List (String × Json F)} (h : InOrder items) : dictOf items = items := by
  have hfold : ∀ (xs dict : List (String × Json F)), InOrder (dict ++ xs) →
      xs.foldl (fun dict item => insertItem item.1 item.2 dict) dict = dict ++ xs := by
    intro xs
    induction xs with
    | nil => simp
    | cons x xs ih =>
      intro dict hd
      have hlast : ∀ item ∈ dict, compare item.1 x.1 = .lt :=
        fun item hitem => (List.pairwise_append.1 hd).2.2 item hitem x (by simp)
      rw [List.foldl_cons, insertItem_last hlast, ih _ (by simpa using hd)]
      simp
  exact hfold items [] h

/-! ## Values -/

/-- The literal of an integer. -/
def intNumeral (i : ℤ) : Numeral := ⟨i < 0, digitsOf i.natAbs, [], none⟩

/-- The integer of a literal without fraction and exponent. -/
def intOf (n : Numeral) : ℤ := if n.negative then -(natOf n.integer : ℤ) else natOf n.integer

theorem intNumeral_wellFormed (i : ℤ) : (intNumeral i).WellFormed where
  integer := digitsOf_ne_nil _
  leading := digitsOf_head _
  exponent neg ds h := by cases h

theorem intOf_intNumeral (i : ℤ) : intOf (intNumeral i) = i := by
  simp only [intOf, intNumeral, natOf_digitsOf, decide_eq_true_eq]
  split <;> omega

variable [FloatText F]

mutual

/-- The compact text of a value. -/
def dumps (ascii : Bool) : Json F → List Char
  | .null => "null".toList
  | .bool true => "true".toList
  | .bool false => "false".toList
  | .int i => (intNumeral i).render
  | .float f => (FloatText.toNumeral f).render
  | .str s => dumpsString ascii s
  | .arr [] => ['[', ']']
  | .arr (item :: items) => '[' :: (dumps ascii item ++ dumpsMore ascii items ++ [']'])
  | .obj [] => ['{', '}']
  | .obj ((key, value) :: items) =>
    '{' :: (dumpsString ascii key ++ ':' :: dumps ascii value ++ dumpsMorePairs ascii items ++ ['}'])

/-- Further items of an array. -/
def dumpsMore (ascii : Bool) : List (Json F) → List Char
  | [] => []
  | item :: items => ',' :: (dumps ascii item ++ dumpsMore ascii items)

/-- Further items of a dict. -/
def dumpsMorePairs (ascii : Bool) : List (String × Json F) → List Char
  | [] => []
  | (key, value) :: items => ',' :: (dumpsString ascii key ++ ':' :: dumps ascii value ++ dumpsMorePairs ascii items)

end

mutual

/-- Every float is finite, and every dict is in key order. -/
def Sound : Json F → Prop
  | .null | .bool _ | .int _ | .str _ => True
  | .float f => FloatText.isFinite f = true
  | .arr items => SoundItems items
  | .obj items => InOrder items ∧ SoundPairs items

def SoundItems : List (Json F) → Prop
  | [] => True
  | item :: items => Sound item ∧ SoundItems items

def SoundPairs : List (String × Json F) → Prop
  | [] => True
  | (_, value) :: items => Sound value ∧ SoundPairs items

end

theorem soundPairs_iff {items : List (String × Json F)} : SoundPairs items ↔ ∀ item ∈ items, Sound item.2 := by
  induction items with
  | nil => simp [SoundPairs]
  | cons item items ih => simp [SoundPairs, ih]

theorem soundItems_iff {items : List (Json F)} : SoundItems items ↔ ∀ item ∈ items, Sound item := by
  induction items with
  | nil => simp [SoundItems]
  | cons item items ih => simp [SoundItems, ih]

def skipSpace : List Char → List Char
  | c :: cs => if c = ' ' ∨ c = '\t' ∨ c = '\n' ∨ c = '\r' then skipSpace cs else c :: cs
  | [] => []

/-- The value of a number literal. -/
def ofNumeral (n : Numeral) : Json F := if n.isFloat then .float (FloatText.ofNumeral n) else .int (intOf n)

mutual

/-- The value at the start of a text, and the rest. -/
def readValue : ℕ → List Char → Option (Json F × List Char)
  | 0, _ => none
  | fuel + 1, cs =>
    match cs with
    | '"' :: cs => (readString (cs.length + 1) cs).map fun read => (.str (String.ofList read.1), read.2)
    | '[' :: cs =>
      match skipSpace cs with
      | ']' :: rest => some (.arr [], rest)
      | cs => (readItems fuel cs).map fun read => (.arr read.1, read.2)
    | '{' :: cs =>
      match skipSpace cs with
      | '}' :: rest => some (.obj [], rest)
      | cs => (readPairs fuel cs).map fun read => (.obj (dictOf read.1), read.2)
    | 'n' :: 'u' :: 'l' :: 'l' :: rest => some (.null, rest)
    | 't' :: 'r' :: 'u' :: 'e' :: rest => some (.bool true, rest)
    | 'f' :: 'a' :: 'l' :: 's' :: 'e' :: rest => some (.bool false, rest)
    | cs => (Numeral.lex cs).map fun read => (ofNumeral read.1, read.2)

/-- The items of a non-empty array, through its closing bracket. -/
def readItems : ℕ → List Char → Option (List (Json F) × List Char)
  | 0, _ => none
  | fuel + 1, cs =>
    match readValue fuel cs with
    | none => none
    | some (item, cs) =>
      match skipSpace cs with
      | ']' :: rest => some ([item], rest)
      | ',' :: cs => (readItems fuel (skipSpace cs)).map fun read => (item :: read.1, read.2)
      | _ => none

/-- The items of a non-empty dict, through its closing brace. -/
def readPairs : ℕ → List Char → Option (List (String × Json F) × List Char)
  | 0, _ => none
  | fuel + 1, cs =>
    match cs with
    | '"' :: cs =>
      match readString (cs.length + 1) cs with
      | none => none
      | some (key, cs) =>
        match skipSpace cs with
        | ':' :: cs =>
          match readValue fuel (skipSpace cs) with
          | none => none
          | some (value, cs) =>
            match skipSpace cs with
            | '}' :: rest => some ([(String.ofList key, value)], rest)
            | ',' :: cs =>
              (readPairs fuel (skipSpace cs)).map fun read => ((String.ofList key, value) :: read.1, read.2)
            | _ => none
        | _ => none
    | _ => none

end

/-- A whole text read as one value. -/
def loads (cs : List Char) : Option (Json F) :=
  match readValue (cs.length + 1) (skipSpace cs) with
  | some (value, rest) => if skipSpace rest = [] then some value else none
  | none => none

/-! ## Round trip -/

/-- A character no value starts with. -/
def isStructural (c : Char) : Bool := c = ' ' || c = '\t' || c = '\n' || c = '\r' || c = ']' || c = '}'

/-- A text that starts as a value does. -/
def StartsValue (cs : List Char) : Prop := ∃ c rest, cs = c :: rest ∧ isStructural c = false

theorem StartsValue.append {cs : List Char} (h : StartsValue cs) (more : List Char) : StartsValue (cs ++ more) := by
  obtain ⟨c, rest, rfl, hc⟩ := h
  exact ⟨c, rest ++ more, rfl, hc⟩

theorem skipSpace_cons {c : Char} (h : c ≠ ' ' ∧ c ≠ '\t' ∧ c ≠ '\n' ∧ c ≠ '\r') (cs : List Char) :
    skipSpace (c :: cs) = c :: cs := by
  unfold skipSpace
  rw [if_neg]
  rintro (h' | h' | h' | h')
  · exact h.1 h'
  · exact h.2.1 h'
  · exact h.2.2.1 h'
  · exact h.2.2.2 h'

theorem skipSpace_startsValue {cs : List Char} (h : StartsValue cs) : skipSpace cs = cs := by
  obtain ⟨c, rest, rfl, hc⟩ := h
  simp only [isStructural, Bool.or_eq_false_iff, decide_eq_false_iff_not] at hc
  exact skipSpace_cons ⟨hc.1.1.1.1.1, hc.1.1.1.1.2, hc.1.1.1.2, hc.1.1.2⟩ rest

/-- A literal starts with its sign or a digit. -/
theorem render_head {n : Numeral} (hn : n.WellFormed) :
    ∃ c rest, n.render = c :: rest ∧ (c = '-' ∨ ∃ d, c = digitChar d) := by
  unfold Numeral.render
  cases n.negative with
  | true => exact ⟨'-', _, rfl, .inl rfl⟩
  | false =>
    cases hint : n.integer with
    | nil => exact absurd hint hn.integer
    | cons d ds => exact ⟨digitChar d, _, rfl, .inr ⟨d, rfl⟩⟩

theorem digitChar_not_structural (d : Fin 10) : isStructural (digitChar d) = false := by
  revert d
  decide

theorem startsValue_render {n : Numeral} (hn : n.WellFormed) : StartsValue n.render := by
  obtain ⟨c, rest, hc, h⟩ := render_head hn
  refine ⟨c, rest, hc, ?_⟩
  rcases h with rfl | ⟨d, rfl⟩
  · decide
  · exact digitChar_not_structural d

variable {ascii : Bool}

theorem startsValue_dumps (ascii : Bool) {v : Json F} (h : Sound v) : StartsValue (dumps ascii v) := by
  cases v with
  | null => exact ⟨'n', _, rfl, by decide⟩
  | bool b => cases b <;> exact ⟨_, _, rfl, by decide⟩
  | int i => exact startsValue_render (intNumeral_wellFormed i)
  | float f => exact startsValue_render (FloatText.wellFormed f h)
  | str s => exact ⟨'"', _, rfl, by decide⟩
  | arr items => cases items <;> exact ⟨'[', _, by rw [dumps], by decide⟩
  | obj items =>
    cases items with
    | nil => exact ⟨'{', _, by rw [dumps], by decide⟩
    | cons item items => exact ⟨'{', _, by rw [dumps], by decide⟩

/-- Neither a quote, a bracket nor a word starts so. -/
def isNumeric (c : Char) : Bool := !(c = '"' || c = '[' || c = '{' || c = 'n' || c = 't' || c = 'f')

theorem digitChar_numeric (d : Fin 10) : isNumeric (digitChar d) = true := by
  revert d
  decide

/-- A literal is read as a number. -/
theorem readValue_render {n : Numeral} (hn : n.WellFormed) {rest : List Char} (hr : Numeral.Stops rest) (fuel : ℕ) :
    readValue (F := F) (fuel + 1) (n.render ++ rest) = some (ofNumeral n, rest) := by
  have hlex := Numeral.lex_render hn hr
  obtain ⟨c, more, hc, h⟩ := render_head hn
  rw [hc, List.cons_append] at hlex ⊢
  have hnumeric : isNumeric c = true := by
    rcases h with rfl | ⟨d, rfl⟩
    · decide
    · exact digitChar_numeric d
  have hhead : ∀ {c' : Char} {cs : List Char}, c :: (more ++ rest) = c' :: cs → isNumeric c' = true := by
    intro c' cs heq
    rw [← (List.cons.inj heq).1]
    exact hnumeric
  unfold readValue
  split
  · rename_i heq
    cases hhead heq
  · rename_i heq
    cases hhead heq
  · rename_i heq
    cases hhead heq
  · rename_i heq
    cases hhead heq
  · rename_i heq
    cases hhead heq
  · rename_i heq
    cases hhead heq
  · rw [hlex]
    rfl

/-- The text of the value is read back, whatever stops it. -/
def Reads (ascii : Bool) (v : Json F) : Prop :=
  ∀ fuel rest, (dumps ascii v).length ≤ fuel → Numeral.Stops rest →
    readValue fuel (dumps ascii v ++ rest) = some (v, rest)

theorem stops_of_structural {c : Char} (h : c = ',' ∨ c = ']' ∨ c = '}') (cs : List Char) :
    Numeral.Stops (c :: cs) := by
  intro c' cs' heq
  cases heq
  rcases h with rfl | rfl | rfl <;> decide

theorem readString_key (ascii : Bool) (key : String) (rest : List Char) :
    readString ((key.toList.flatMap (escapeChar ascii) ++ '"' :: rest).length + 1)
      (key.toList.flatMap (escapeChar ascii) ++ '"' :: rest) = some (key.toList, rest) := by
  refine readString_escape _ _ _ ?_
  have := length_le_flatMap_escape ascii key.toList
  rw [List.length_append]
  omega

mutual

theorem reads_value : ∀ v : Json F, Sound v → Reads ascii v
  | .null, _ => by
    intro fuel rest hf _
    cases fuel with
    | zero => simp [dumps] at hf
    | succ fuel => rfl
  | .bool b, _ => by
    intro fuel rest hf _
    cases fuel with
    | zero => cases b <;> simp [dumps] at hf
    | succ fuel => cases b <;> rfl
  | .int i, _ => by
    intro fuel rest hf hr
    have hwf := intNumeral_wellFormed i
    cases fuel with
    | zero =>
      obtain ⟨c, more, hc, -⟩ := render_head hwf
      rw [dumps, hc] at hf
      simp at hf
    | succ fuel =>
      rw [dumps, readValue_render hwf hr]
      change some (Json.int (intOf (intNumeral i)), rest) = _
      rw [intOf_intNumeral]
  | .float f, h => by
    intro fuel rest hf hr
    have hwf := FloatText.wellFormed f h
    cases fuel with
    | zero =>
      obtain ⟨c, more, hc, -⟩ := render_head hwf
      rw [dumps, hc] at hf
      simp at hf
    | succ fuel =>
      rw [dumps, readValue_render hwf hr, ofNumeral, if_pos (FloatText.isFloat f h), FloatText.ofNumeral_toNumeral f h]
  | .str s, _ => by
    intro fuel rest hf _
    cases fuel with
    | zero => simp [dumps, dumpsString] at hf
    | succ fuel =>
      have hkey := readString_key ascii s rest
      simp only [dumps, dumpsString, List.cons_append, List.append_assoc, readValue, List.nil_append]
      rw [hkey]
      simp
  | .arr [], _ => by
    intro fuel rest hf _
    cases fuel with
    | zero => simp [dumps] at hf
    | succ fuel =>
      rw [dumps]
      rfl
  | .arr (item :: items), h => by
    intro fuel rest hf _
    have hitem : Sound item := h.1
    cases fuel with
    | zero => simp [dumps] at hf
    | succ fuel =>
      have hread := reads_items items h.2 item (reads_value item hitem) (startsValue_dumps ascii hitem) fuel rest (by
        simp only [dumps, List.length_cons, List.length_append, List.length_nil] at hf
        omega)
      have hskip := skipSpace_startsValue ((startsValue_dumps ascii hitem).append (dumpsMore ascii items ++ ']' :: rest))
      rw [dumps]
      simp only [List.cons_append, List.append_assoc, List.nil_append, readValue]
      obtain ⟨c, more, hc, hstruct⟩ := (startsValue_dumps ascii hitem).append (dumpsMore ascii items ++ ']' :: rest)
      rw [hskip]
      split
      · rename_i heq
        rw [hc] at heq
        rw [(List.cons.inj heq).1] at hstruct
        cases hstruct
      · rw [hread]
        rfl
  | .obj [], _ => by
    intro fuel rest hf _
    cases fuel with
    | zero => simp [dumps] at hf
    | succ fuel =>
      rw [dumps]
      rfl
  | .obj ((key, value) :: items), h => by
    intro fuel rest hf _
    cases fuel with
    | zero => simp [dumps] at hf
    | succ fuel =>
      have hread := reads_pairs items h.2.2 key value (reads_value value h.2.1) (startsValue_dumps ascii h.2.1) fuel rest (by
        simp only [dumps, List.length_cons, List.length_append, List.length_nil] at hf
        omega)
      rw [dumps]
      simp only [dumpsString, List.cons_append, List.append_assoc, List.nil_append, readValue] at hread ⊢
      rw [skipSpace_cons (by decide)]
      change Option.map _ (readPairs fuel _) = _
      rw [hread]
      simp [dictOf_inOrder h.1]

theorem reads_items : ∀ items : List (Json F), SoundItems items → ∀ item : Json F, Reads ascii item →
    StartsValue (dumps ascii item) →
    ∀ fuel rest, (dumps ascii item).length + (dumpsMore ascii items).length + 1 ≤ fuel →
      readItems fuel (dumps ascii item ++ (dumpsMore ascii items ++ ']' :: rest)) = some (item :: items, rest)
  | [], _, item, hitem, _ => by
    intro fuel rest hf
    cases fuel with
    | zero => omega
    | succ fuel =>
      simp only [dumpsMore, List.nil_append, readItems]
      rw [hitem fuel _ (by omega) (stops_of_structural (by simp) rest)]
      simp only [skipSpace_cons (show ']' ≠ ' ' ∧ ']' ≠ '\t' ∧ ']' ≠ '\n' ∧ ']' ≠ '\r' by decide)]
  | next :: items, h, item, hitem, hstart => by
    intro fuel rest hf
    cases fuel with
    | zero => omega
    | succ fuel =>
      have hnext : Sound next := h.1
      have hlen : 1 ≤ (dumps ascii item).length := by
        obtain ⟨c, more, hc, -⟩ := hstart
        rw [hc]
        simp
      simp only [dumpsMore, List.length_cons, List.length_append] at hf
      have hread := reads_items items h.2 next (reads_value next hnext) (startsValue_dumps ascii hnext) fuel rest (by omega)
      have hskip := skipSpace_startsValue ((startsValue_dumps ascii hnext).append (dumpsMore ascii items ++ ']' :: rest))
      simp only [dumpsMore, List.cons_append, List.append_assoc, readItems]
      rw [hitem fuel _ (by omega) (stops_of_structural (by simp) _)]
      simp only [skipSpace_cons (show ',' ≠ ' ' ∧ ',' ≠ '\t' ∧ ',' ≠ '\n' ∧ ',' ≠ '\r' by decide), hskip, hread]
      rfl

theorem reads_pairs : ∀ items : List (String × Json F), SoundPairs items → ∀ (key : String) (value : Json F),
    Reads ascii value → StartsValue (dumps ascii value) →
    ∀ fuel rest,
      (dumpsString ascii key).length + (dumps ascii value).length + (dumpsMorePairs ascii items).length + 1 ≤ fuel →
      readPairs fuel
          (dumpsString ascii key ++ (':' :: (dumps ascii value ++ (dumpsMorePairs ascii items ++ '}' :: rest)))) =
        some ((key, value) :: items, rest)
  | [], _, key, value, hvalue, hstart => by
    intro fuel rest hf
    cases fuel with
    | zero => omega
    | succ fuel =>
      have hkey := readString_key ascii key (':' :: (dumps ascii value ++ ('}' :: rest)))
      have hskip := skipSpace_startsValue (hstart.append ('}' :: rest))
      have hread := hvalue fuel ('}' :: rest) (by omega) (stops_of_structural (by simp) rest)
      simp only [dumpsMorePairs, List.nil_append, dumpsString, List.cons_append, List.append_assoc, readPairs]
      rw [hkey]
      simp only [skipSpace_cons (show ':' ≠ ' ' ∧ ':' ≠ '\t' ∧ ':' ≠ '\n' ∧ ':' ≠ '\r' by decide), hskip, hread,
        skipSpace_cons (show '}' ≠ ' ' ∧ '}' ≠ '\t' ∧ '}' ≠ '\n' ∧ '}' ≠ '\r' by decide)]
      simp
  | (next, nextValue) :: items, h, key, value, hvalue, hstart => by
    intro fuel rest hf
    cases fuel with
    | zero => omega
    | succ fuel =>
      simp only [dumpsMorePairs, List.length_cons, List.length_append] at hf
      have hread := reads_pairs items h.2 next nextValue (reads_value nextValue h.1) (startsValue_dumps ascii h.1) fuel rest
        (by omega)
      have hfirst := hvalue fuel (',' :: (dumpsString ascii next ++ (':' :: (dumps ascii nextValue ++
        (dumpsMorePairs ascii items ++ '}' :: rest))))) (by omega) (stops_of_structural (by simp) _)
      have hkey := readString_key ascii key (':' :: (dumps ascii value ++ (',' :: (dumpsString ascii next ++
        (':' :: (dumps ascii nextValue ++ (dumpsMorePairs ascii items ++ '}' :: rest)))))))
      have hskip := skipSpace_startsValue (hstart.append (',' :: (dumpsString ascii next ++
        (':' :: (dumps ascii nextValue ++ (dumpsMorePairs ascii items ++ '}' :: rest))))))
      simp only [dumpsMorePairs, dumpsString, List.cons_append, List.append_assoc, List.nil_append,
        readPairs] at hfirst hkey hskip hread ⊢
      rw [hkey]
      simp only [skipSpace_cons (show ':' ≠ ' ' ∧ ':' ≠ '\t' ∧ ':' ≠ '\n' ∧ ':' ≠ '\r' by decide), hskip, hfirst,
        skipSpace_cons (show ',' ≠ ' ' ∧ ',' ≠ '\t' ∧ ',' ≠ '\n' ∧ ',' ≠ '\r' by decide),
        skipSpace_cons (show '"' ≠ ' ' ∧ '"' ≠ '\t' ∧ '"' ≠ '\n' ∧ '"' ≠ '\r' by decide), hread]
      simp

end

/-- **JSON text round-trips.** -/
theorem loads_dumps {v : Json F} (h : Sound v) : loads (dumps ascii v) = some v := by
  have hreads : Reads ascii v := reads_value v h
  have hread := hreads ((dumps ascii v).length + 1) [] (by omega) (fun c cs hc => by cases hc)
  rw [List.append_nil] at hread
  unfold loads
  rw [skipSpace_startsValue (startsValue_dumps ascii h), hread]
  rfl

end Json

end Text
