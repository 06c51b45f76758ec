import Mathlib.Data.List.Infix
import Mathlib.Tactic

/-!
# Matches in a text, and a text cut at marks

* `finditer`: the matches of a pattern from left to right, none overlapping another;
* `cutAt`: the pieces of a text between its marked characters;
* `intercalate_cutAt`: the pieces with the marked characters between them are the text;
* `cutAt_injective`: the pieces of a text tell where it is marked;
* `exists_first`: the first occurrence of a word.
-/

namespace Text

variable {α : Type}

/-! ## Matches -/

/-- `pattern.finditer(text)`, for a pattern given by what it matches at the head of a text: where each match starts and
what it is. The first number is the position of the text, the second one how much of it belongs to the last match. -/
def finditer (matchAt : List α → Option (List α)) : ℕ → ℕ → List α → List (ℕ × List α)
  | _, _, [] => []
  | start, skip + 1, _ :: text => finditer matchAt (start + 1) skip text
  | start, 0, a :: text =>
    match matchAt (a :: text) with
    | some found => (start, found) :: finditer matchAt (start + 1) (found.length - 1) text
    | none => finditer matchAt (start + 1) 0 text

/-! ## Cuts -/

/-- The pieces of a text between the characters that are marked. -/
def cutAt : List Bool → List α → List (List α)
  | true :: marks, _ :: text => [] :: cutAt marks text
  | false :: marks, a :: text => (cutAt marks text).modifyHead (a :: ·)
  | _, text => [text]

theorem cutAt_ne_nil (marks : List Bool) (text : List α) : cutAt marks text ≠ [] := by
  induction text generalizing marks with
  | nil => cases marks <;> simp [cutAt]
  | cons a text ih =>
    cases marks with
    | nil => simp [cutAt]
    | cons mark marks =>
      have hne := ih marks
      cases mark with
      | true => simp [cutAt]
      | false =>
        obtain ⟨piece, pieces, heq⟩ := List.exists_cons_of_ne_nil hne
        simp [cutAt, heq]

/-- **The marked characters put back give the text.** -/
theorem intercalate_cutAt {sep : α} {marks : List Bool} {text : List α}
    (h : ∀ p ∈ marks.zip text, p.1 = true → p.2 = sep) : [sep].intercalate (cutAt marks text) = text := by
  induction text generalizing marks with
  | nil => cases marks <;> simp [cutAt]
  | cons a text ih =>
    cases marks with
    | nil => simp [cutAt]
    | cons mark marks =>
      have hrest := ih fun p hp => h p (List.mem_cons_of_mem _ hp)
      obtain ⟨piece, pieces, heq⟩ := List.exists_cons_of_ne_nil (cutAt_ne_nil marks text)
      rw [heq] at hrest
      cases mark with
      | true =>
        have hsep : a = sep := h (true, a) List.mem_cons_self rfl
        rw [cutAt, heq, hsep, List.intercalate_cons_cons, hrest]
        rfl
      | false =>
        rw [cutAt, heq, List.modifyHead_cons]
        conv_rhs => rw [← hrest]
        cases pieces with
        | nil => simp
        | cons next pieces =>
          rw [List.intercalate_cons_cons, List.intercalate_cons_cons, List.cons_append, List.cons_append]

/-- **The pieces tell the marks.** -/
theorem cutAt_injective {text : List α} {marks marks' : List Bool} (hlength : marks.length = text.length)
    (hlength' : marks'.length = text.length) (h : cutAt marks text = cutAt marks' text) : marks = marks' := by
  induction text generalizing marks marks' with
  | nil => rw [List.eq_nil_of_length_eq_zero hlength, List.eq_nil_of_length_eq_zero hlength']
  | cons a text ih =>
    obtain ⟨mark, marks, rfl⟩ := List.exists_cons_of_length_eq_add_one hlength
    obtain ⟨mark', marks', rfl⟩ := List.exists_cons_of_length_eq_add_one hlength'
    have hrest : marks.length = text.length := Nat.succ.inj hlength
    have hrest' : marks'.length = text.length := Nat.succ.inj hlength'
    obtain ⟨piece, pieces, heq⟩ := List.exists_cons_of_ne_nil (cutAt_ne_nil marks text)
    obtain ⟨piece', pieces', heq'⟩ := List.exists_cons_of_ne_nil (cutAt_ne_nil marks' text)
    -- a first piece is empty exactly where the first character is marked
    cases mark <;> cases mark' <;> simp only [cutAt, heq, heq', List.modifyHead_cons, List.cons.injEq] at h
    · have hsame : cutAt marks text = cutAt marks' text := by rw [heq, heq', h.1.2, h.2]
      rw [ih hrest hrest' hsame]
    · exact absurd h.1 (by simp)
    · exact absurd h.1 (by simp)
    · have hsame : cutAt marks text = cutAt marks' text := by rw [heq, heq', h.2.1, h.2.2]
      rw [ih hrest hrest' hsame]

/-! ## The first occurrence -/

/-- **A word that occurs has a first occurrence**: none ends before it. -/
theorem exists_first {word text : List α} (hword : word ≠ []) (h : word <:+: text) :
    ∃ before after, text = before ++ (word ++ after) ∧ ¬ word <:+: before ++ word.dropLast := by
  induction text with
  | nil => exact absurd (List.infix_nil.1 h) hword
  | cons a text ih =>
    by_cases hhead : word <+: a :: text
    · obtain ⟨after, hafter⟩ := hhead
      refine ⟨[], after, hafter.symm, fun hin => ?_⟩
      have hle := hin.length_le
      have hpos := List.length_pos_iff.2 hword
      rw [List.nil_append, List.length_dropLast] at hle
      omega
    · obtain ⟨before, after, rfl, hfirst⟩ := ih ((List.infix_cons_iff.1 h).resolve_left hhead)
      refine ⟨a :: before, after, rfl, fun hin => ?_⟩
      rcases List.infix_cons_iff.1 hin with hin | hin
      · refine hhead (hin.trans ?_)
        exact List.cons_prefix_cons.2 ⟨rfl, (List.prefix_append_right_inj _).2
          ((List.dropLast_prefix word).trans (List.prefix_append word after))⟩
      · exact hfirst hin

end Text
