import Mathlib.Data.List.Basic
import Mathlib.Data.List.Infix

/-!
# The words of a text

* `words`: the runs of characters that are no white space;
* `collapse`: the words with one space between them;
* `words_append_space`: the words of a text in two parts with white space between them;
* `words_collapse`, `words_joined`: the words of a collapse, and of texts joined by spaces.
-/

namespace Text

/-- `str.isspace` of one character, which is also what `\s` matches and what `strip` removes. -/
def isSpace (c : Char) : Bool :=
  9 ≤ c.toNat ∧ c.toNat ≤ 13 ∨ 28 ≤ c.toNat ∧ c.toNat ≤ 32 ∨ c.toNat = 0x85 ∨ c.toNat = 0xa0 ∨ c.toNat = 0x1680 ∨
    0x2000 ≤ c.toNat ∧ c.toNat ≤ 0x200a ∨ c.toNat = 0x2028 ∨ c.toNat = 0x2029 ∨ c.toNat = 0x202f ∨
    c.toNat = 0x205f ∨ c.toNat = 0x3000

/-- `s.split()`. -/
def words (s : List Char) : List (List Char) := (s.splitOnP isSpace).filter fun run => run ≠ []

/-- `" ".join(words)`. -/
def join (ws : List (List Char)) : List Char := [' '].intercalate ws

/-- `re.sub(r"\s+", " ", s).strip()`: the words of the text, one space between two of them. -/
def collapse (s : List Char) : List Char := join (words s)

/-! ## The words of a join -/

/-- A run of characters that are no white space. -/
def IsWord (w : List Char) : Prop := w ≠ [] ∧ ∀ c ∈ w, isSpace c = false

@[simp] theorem words_nil : words [] = [] := rfl

/-- Every run that a split leaves is free of separators. -/
theorem not_mem_splitOnP {α : Type} {p : α → Bool} {s run : List α} (h : run ∈ s.splitOnP p) : ∀ c ∈ run, p c = false := by
  induction s generalizing run with
  | nil =>
    rw [List.splitOnP_nil, List.mem_singleton] at h
    subst h
    simp
  | cons a s ih =>
    rw [List.splitOnP_cons_eq_if_modifyHead] at h
    split at h
    · rcases List.mem_cons.1 h with rfl | h
      · simp
      · exact ih h
    · rename_i hpa
      obtain ⟨first, rest, hsplit⟩ := List.exists_cons_of_ne_nil (List.splitOnP_ne_nil p s)
      rw [hsplit, List.modifyHead_cons] at h
      rcases List.mem_cons.1 h with rfl | h
      · intro c hc
        rcases List.mem_cons.1 hc with rfl | hc
        · exact Bool.eq_false_iff.2 hpa
        · exact ih (hsplit ▸ List.mem_cons_self ..) c hc
      · exact ih (hsplit ▸ List.mem_cons_of_mem _ h)

theorem isWord_of_mem {s w : List Char} (h : w ∈ words s) : IsWord w := by
  obtain ⟨hmem, hne⟩ := List.mem_filter.1 h
  exact ⟨of_decide_eq_true hne, not_mem_splitOnP hmem⟩

/-- White space between two parts of a text parts its words. -/
theorem words_append_space (a b : List Char) {c : Char} (h : isSpace c = true) :
    words (a ++ c :: b) = words a ++ words b := by
  unfold words
  rw [List.splitOnP_append_cons a b h, List.filter_append]

theorem words_isWord {w : List Char} (h : IsWord w) : words w = [w] := by
  unfold words
  rw [List.splitOnP_eq_singleton h.2, List.filter_cons_of_pos (by simpa using h.1), List.filter_nil]

/-- **The words of texts joined by spaces** are the words of the texts. -/
theorem words_joined (ts : List (List Char)) : words (join ts) = ts.flatMap words := by
  unfold join
  induction ts with
  | nil => rfl
  | cons t ts ih =>
    cases ts with
    | nil => simp
    | cons u ts =>
      rw [List.flatMap_cons, ← ih]
      have hjoin : [' '].intercalate (t :: u :: ts) = t ++ ' ' :: [' '].intercalate (u :: ts) := by
        simp [List.intercalate]
      rw [hjoin]
      exact words_append_space _ _ (by decide)

/-- A text and its collapse have the same words. -/
theorem words_collapse (s : List Char) : words (collapse s) = words s := by
  have hwords : ∀ ws : List (List Char), (∀ w ∈ ws, IsWord w) → ws.flatMap words = ws := by
    intro ws h
    induction ws with
    | nil => rfl
    | cons w ws ih =>
      rw [List.flatMap_cons, words_isWord (h w (List.mem_cons_self ..)),
        ih fun v hv => h v (List.mem_cons_of_mem _ hv), List.singleton_append]
  unfold collapse
  rw [words_joined, hwords _ fun w hw => isWord_of_mem hw]

theorem collapse_eq_nil {s : List Char} : collapse s = [] ↔ words s = [] := by
  constructor
  · intro h
    rw [← words_collapse, h, words_nil]
  · intro h
    unfold collapse
    rw [h]
    rfl

end Text
