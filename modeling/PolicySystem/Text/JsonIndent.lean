import PolicySystem.Text.Json

/-!
# Indented JSON text

The text of a JSON value with each item on a line of its own, indented by its depth.

* `dumpsIndent`: the text of a value at a depth;
* `loads_dumpsIndent`: it is read back as that value.
-/

namespace Text.Json

variable {F : Type} [FloatText F]

/-- A line break and the indentation at a depth. -/
def newline (indent depth : ℕ) : List Char := '\n' :: List.replicate (indent * depth) ' '

mutual

/-- The indented text of a value at a depth. -/
def dumpsIndent (ascii : Bool) (indent depth : ℕ) : Json F → List Char
  | .arr [] => ['[', ']']
  | .arr (item :: items) =>
    '[' :: (newline indent (depth + 1) ++ (dumpsIndent ascii indent (depth + 1) item ++
      (indentMore ascii indent (depth + 1) items ++ (newline indent depth ++ [']']))))
  | .obj [] => ['{', '}']
  | .obj ((key, value) :: items) =>
    '{' :: (newline indent (depth + 1) ++ (dumpsString ascii key ++ (':' :: ' ' ::
      (dumpsIndent ascii indent (depth + 1) value ++
        (indentMorePairs ascii indent (depth + 1) items ++ (newline indent depth ++ ['}']))))))
  | .null => dumps ascii (.null : Json F)
  | .bool b => dumps ascii (.bool b : Json F)
  | .int i => dumps ascii (.int i : Json F)
  | .float f => dumps ascii (.float f)
  | .str s => dumps ascii (.str s : Json F)

/-- Further items of an array. -/
def indentMore (ascii : Bool) (indent depth : ℕ) : List (Json F) → List Char
  | [] => []
  | item :: items =>
    ',' :: (newline indent depth ++ (dumpsIndent ascii indent depth item ++ indentMore ascii indent depth items))

/-- Further items of a dict. -/
def indentMorePairs (ascii : Bool) (indent depth : ℕ) : List (String × Json F) → List Char
  | [] => []
  | (key, value) :: items =>
    ',' :: (newline indent depth ++ (dumpsString ascii key ++ (':' :: ' ' ::
      (dumpsIndent ascii indent depth value ++ indentMorePairs ascii indent depth items))))

end

variable {ascii : Bool} {indent : ℕ}

theorem skipSpace_newline (depth : ℕ) (cs : List Char) : skipSpace (newline indent depth ++ cs) = skipSpace cs := by
  have hspaces : ∀ n, skipSpace (List.replicate n ' ' ++ cs) = skipSpace cs := by
    intro n
    induction n with
    | zero => rfl
    | succ n ih =>
      rw [List.replicate_succ, List.cons_append, skipSpace, if_pos (by decide)]
      exact ih
  rw [newline, List.cons_append, skipSpace, if_pos (by decide)]
  exact hspaces _

theorem skipSpace_space (cs : List Char) : skipSpace (' ' :: cs) = skipSpace cs := by
  rw [skipSpace, if_pos (by decide)]

theorem stops_newline (depth : ℕ) (cs : List Char) : Numeral.Stops (newline indent depth ++ cs) := by
  intro c cs' heq
  cases heq
  decide

theorem startsValue_dumpsIndent (ascii : Bool) (indent depth : ℕ) {v : Json F} (h : Sound v) :
    StartsValue (dumpsIndent ascii indent depth v) := by
  cases v with
  | arr items =>
    cases items with
    | nil => exact ⟨_, _, rfl, by decide⟩
    | cons item items => exact ⟨_, _, rfl, by decide⟩
  | obj items =>
    cases items with
    | nil => exact ⟨_, _, rfl, by decide⟩
    | cons item items => exact ⟨_, _, rfl, by decide⟩
  | null => exact startsValue_dumps ascii h
  | bool b => exact startsValue_dumps ascii h
  | int i => exact startsValue_dumps ascii h
  | float f => exact startsValue_dumps ascii h
  | str s => exact startsValue_dumps ascii h

/-- The indented text of the value is read back, at any depth and whatever stops it. -/
def ReadsIndent (ascii : Bool) (indent : ℕ) (v : Json F) : Prop :=
  ∀ depth fuel rest, (dumpsIndent ascii indent depth v).length ≤ fuel → Numeral.Stops rest →
    readValue fuel (dumpsIndent ascii indent depth v ++ rest) = some (v, rest)

/-- After a value, the text goes on with a comma or a line break. -/
theorem stops_more (depth : ℕ) (items : List (Json F)) (cs : List Char) :
    Numeral.Stops (indentMore ascii indent (depth + 1) items ++ (newline indent depth ++ cs)) := by
  cases items with
  | nil => exact stops_newline depth cs
  | cons item items => exact stops_of_structural (.inl rfl) _

theorem stops_morePairs (depth : ℕ) (items : List (String × Json F)) (cs : List Char) :
    Numeral.Stops (indentMorePairs ascii indent (depth + 1) items ++ (newline indent depth ++ cs)) := by
  cases items with
  | nil => exact stops_newline depth cs
  | cons item items => exact stops_of_structural (.inl rfl) _

/-- What follows a structural character is no white space. -/
theorem skipSpace_structural {c : Char} (h : c = ',' ∨ c = ']' ∨ c = '}' ∨ c = ':' ∨ c = '"') (cs : List Char) :
    skipSpace (c :: cs) = c :: cs := by
  refine skipSpace_cons ?_ cs
  rcases h with rfl | rfl | rfl | rfl | rfl <;> decide

mutual

theorem readsIndent_value : ∀ v : Json F, Sound v → ReadsIndent ascii indent v
  | .null, h => fun _ => reads_value .null h
  | .bool b, h => fun _ => reads_value (.bool b) h
  | .int i, h => fun _ => reads_value (.int i) h
  | .float f, h => fun _ => reads_value (.float f) h
  | .str s, h => fun _ => reads_value (.str s) h
  | .arr [], h => fun _ => show Reads ascii (.arr []) from reads_value (.arr []) h
  | .obj [], h => fun _ => show Reads ascii (.obj []) from reads_value (.obj []) h
  | .arr (item :: items), h => by
    intro depth fuel rest hf _
    have hitem : Sound item := h.1
    cases fuel with
    | zero => simp [dumpsIndent] at hf
    | succ fuel =>
      have hread := readsIndent_items items h.2 item (readsIndent_value item hitem) hitem depth fuel rest (by
        simp only [dumpsIndent, List.length_cons, List.length_append, List.length_nil] at hf
        omega)
      have hstart := (startsValue_dumpsIndent ascii indent (depth + 1) hitem).append
        (indentMore ascii indent (depth + 1) items ++ (newline indent depth ++ ']' :: rest))
      have hskip := skipSpace_startsValue hstart
      obtain ⟨c, more, hc, hstruct⟩ := hstart
      simp only [dumpsIndent, List.cons_append, List.append_assoc, List.nil_append, readValue, skipSpace_newline]
      rw [hskip]
      split
      · rename_i heq
        rw [hc] at heq
        rw [(List.cons.inj heq).1] at hstruct
        cases hstruct
      · rw [hread]
        rfl
  | .obj ((key, value) :: items), h => by
    intro depth fuel rest hf _
    cases fuel with
    | zero => simp [dumpsIndent] at hf
    | succ fuel =>
      have hread := readsIndent_pairs items h.2.2 key value (readsIndent_value value h.2.1) h.2.1 depth fuel rest (by
        simp only [dumpsIndent, List.length_cons, List.length_append, List.length_nil] at hf
        omega)
      simp only [dumpsIndent, dumpsString, List.cons_append, List.append_assoc, List.nil_append, readValue,
        skipSpace_newline] at hread ⊢
      rw [skipSpace_structural (by simp)]
      change Option.map _ (readPairs fuel _) = _
      rw [hread]
      simp [dictOf_inOrder h.1]

theorem readsIndent_items : ∀ items : List (Json F), SoundItems items → ∀ item : Json F, ReadsIndent ascii indent item →
    Sound item → ∀ depth fuel rest,
      (dumpsIndent ascii indent (depth + 1) item).length + (indentMore ascii indent (depth + 1) items).length + 1 ≤ fuel →
      readItems fuel (dumpsIndent ascii indent (depth + 1) item ++
          (indentMore ascii indent (depth + 1) items ++ (newline indent depth ++ ']' :: rest))) =
        some (item :: items, rest)
  | [], _, item, hitem, _ => by
    intro depth fuel rest hf
    cases fuel with
    | zero => omega
    | succ fuel =>
      simp only [indentMore, List.nil_append, readItems]
      rw [hitem (depth + 1) fuel _ (by omega) (stops_newline depth _)]
      simp only [skipSpace_newline, skipSpace_structural (show ']' = ',' ∨ _ from .inr (.inl rfl))]
  | next :: items, h, item, hitem, hsound => by
    intro depth fuel rest hf
    cases fuel with
    | zero => omega
    | succ fuel =>
      have hnext : Sound next := h.1
      have hlen : 1 ≤ (dumpsIndent ascii indent (depth + 1) item).length := by
        obtain ⟨c, more, hc, -⟩ := startsValue_dumpsIndent ascii indent (depth + 1) hsound
        rw [hc]
        simp
      simp only [indentMore, List.length_cons, List.length_append] at hf
      have hread := readsIndent_items items h.2 next (readsIndent_value next hnext) hnext depth fuel rest (by omega)
      have hskip := skipSpace_startsValue ((startsValue_dumpsIndent ascii indent (depth + 1) hnext).append
        (indentMore ascii indent (depth + 1) items ++ (newline indent depth ++ ']' :: rest)))
      have hitem' := hitem (depth + 1) fuel (indentMore ascii indent (depth + 1) (next :: items) ++
        (newline indent depth ++ ']' :: rest)) (by omega) (stops_more depth _ _)
      simp only [indentMore, List.cons_append, List.append_assoc, readItems] at hitem' ⊢
      rw [hitem']
      simp only [skipSpace_structural (show ',' = ',' ∨ _ from .inl rfl), skipSpace_newline, hskip, hread]
      rfl

theorem readsIndent_pairs : ∀ items : List (String × Json F), SoundPairs items → ∀ (key : String) (value : Json F),
    ReadsIndent ascii indent value → Sound value → ∀ depth fuel rest,
      (dumpsString ascii key).length + (dumpsIndent ascii indent (depth + 1) value).length +
          (indentMorePairs ascii indent (depth + 1) items).length + 1 ≤ fuel →
      readPairs fuel (dumpsString ascii key ++ (':' :: ' ' :: (dumpsIndent ascii indent (depth + 1) value ++
          (indentMorePairs ascii indent (depth + 1) items ++ (newline indent depth ++ '}' :: rest))))) =
        some ((key, value) :: items, rest)
  | [], _, key, value, hvalue, hsound => by
    intro depth fuel rest hf
    cases fuel with
    | zero => omega
    | succ fuel =>
      have hkey := readString_key ascii key (':' :: ' ' :: (dumpsIndent ascii indent (depth + 1) value ++
        (newline indent depth ++ '}' :: rest)))
      have hskip := skipSpace_startsValue ((startsValue_dumpsIndent ascii indent (depth + 1) hsound).append
        (newline indent depth ++ '}' :: rest))
      have hread := hvalue (depth + 1) fuel (newline indent depth ++ '}' :: rest) (by omega) (stops_newline depth _)
      simp only [indentMorePairs, List.nil_append, dumpsString, List.cons_append, List.append_assoc, readPairs]
      rw [hkey]
      simp only [skipSpace_structural (show ':' = ',' ∨ _ from .inr (.inr (.inr (.inl rfl)))), skipSpace_space, hskip,
        hread, skipSpace_newline, skipSpace_structural (show '}' = ',' ∨ _ from .inr (.inr (.inl rfl)))]
      simp
  | (next, nextValue) :: items, h, key, value, hvalue, hsound => by
    intro depth fuel rest hf
    cases fuel with
    | zero => omega
    | succ fuel =>
      have hread := readsIndent_pairs items h.2 next nextValue (readsIndent_value nextValue h.1) h.1 depth fuel rest (by
        simp only [indentMorePairs, List.length_cons, List.length_append] at hf
        omega)
      have hfirst := hvalue (depth + 1) fuel (indentMorePairs ascii indent (depth + 1) ((next, nextValue) :: items) ++
        (newline indent depth ++ '}' :: rest)) (by omega) (stops_morePairs depth _ _)
      have hskip := skipSpace_startsValue ((startsValue_dumpsIndent ascii indent (depth + 1) hsound).append
        (indentMorePairs ascii indent (depth + 1) ((next, nextValue) :: items) ++ (newline indent depth ++ '}' :: rest)))
      have hkey := readString_key ascii key (':' :: ' ' :: (dumpsIndent ascii indent (depth + 1) value ++
        (indentMorePairs ascii indent (depth + 1) ((next, nextValue) :: items) ++ (newline indent depth ++ '}' :: rest))))
      simp only [indentMorePairs, dumpsString, List.cons_append, List.append_assoc, List.nil_append,
        readPairs] at hfirst hkey hskip hread ⊢
      rw [hkey]
      simp only [skipSpace_structural (show ':' = ',' ∨ _ from .inr (.inr (.inr (.inl rfl)))), skipSpace_space, hskip,
        hfirst, skipSpace_structural (show ',' = ',' ∨ _ from .inl rfl), skipSpace_newline,
        skipSpace_structural (show '"' = ',' ∨ _ from .inr (.inr (.inr (.inr rfl)))), hread]
      simp

end

/-- **Indented JSON text round-trips**, also before a line break. -/
theorem loads_dumpsIndent {v : Json F} (h : Sound v) : loads (dumpsIndent ascii indent 0 v ++ ['\n']) = some v := by
  have hreads : ReadsIndent ascii indent v := readsIndent_value v h
  have hread := hreads 0
    ((dumpsIndent ascii indent 0 v ++ ['\n']).length + 1) ['\n'] (by simp; omega) (fun c cs hc => by cases hc; decide)
  unfold loads
  rw [skipSpace_startsValue ((startsValue_dumpsIndent ascii indent 0 h).append _), hread]
  rfl

end Text.Json
