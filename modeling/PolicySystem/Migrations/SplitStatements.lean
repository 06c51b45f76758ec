import Mathlib
import PolicySystem.Text.FindIter
import PolicySystem.Text.LastSeparator
import PolicySystem.Text.PyInt

/-!
# Splitting a migration file into statements

`split_statements` of `persistence/migration_runner.py` beside the rule of the server: where a dollar quote opens, and
that its body ends at the next occurrence of the same delimiter.

* `rawStatements_eq`: the splitter cuts the text at its own marks;
* `Alike`: texts whose beginning both read alike, `Misread`: the three ways they part;
* `alike_total`: a text is read alike up to a place where nothing follows that could be cut, or up to a misreading;
* `split_statements_follows_server`: **where the splitter cuts as the server does**.
-/

namespace PolicySystem

namespace Migrations

open Text

/-! ## The splitter -/

/-- `[A-Za-z0-9_]`. -/
def isWordChar (c : Char) : Bool := c.isAlphanum || c = '_'

/-- `_SPLIT_TOKEN`, `;|\$[A-Za-z_]?[A-Za-z0-9_]*\$`: what it matches at the head of a text. The optional first character
of a tag is one of those that may follow. -/
def splitToken : List Char → Option (List Char)
  | ';' :: _ => some [';']
  | '$' :: text =>
    let tag := text.takeWhile isWordChar
    if (text.drop tag.length).head? = some '$' then some ('$' :: (tag ++ ['$'])) else none
  | _ => none

/-- What the loop of `split_statements` carries. -/
structure Splitter where
  statements : List (List Char)
  statementStart : ℕ
  openQuote : Option (List Char)

/-- The body of the loop, for one match. -/
def Splitter.step (sql : List Char) (s : Splitter) (found : ℕ × List Char) : Splitter :=
  match s.openQuote with
  | some quote => { s with openQuote := if found.2 = quote then none else some quote }
  | none =>
    if found.2 = [';'] then
      ⟨s.statements ++ [(sql.take found.1).drop s.statementStart], found.1 + found.2.length, none⟩
    else { s with openQuote := some found.2 }

/-- The pieces before the blank ones are dropped. -/
def rawStatements (sql : List Char) : List (List Char) :=
  let s := (finditer splitToken 0 0 sql).foldl (Splitter.step sql) ⟨[], 0, none⟩
  s.statements ++ [sql.drop s.statementStart]

/-- The pieces stripped, without those that are blank. -/
def stripped (pieces : List (List Char)) : List (List Char) :=
  (pieces.map UnicodeDigits.strip).filter fun statement => statement ≠ []

/-- **`split_statements`.** -/
def splitStatements (sql : List Char) : List (List Char) := stripped (rawStatements sql)

/-- Where the splitter cuts: one mark a character, given the open quote and how much of the text belongs to the last
match. -/
def splitMarks : Option (List Char) → ℕ → List Char → List Bool
  | _, _, [] => []
  | quote, skip + 1, _ :: text => false :: splitMarks quote skip text
  | quote, 0, c :: text =>
    match splitToken (c :: text) with
    | none => false :: splitMarks quote 0 text
    | some found =>
      match quote with
      | some d => false :: splitMarks (if found = d then none else some d) (found.length - 1) text
      | none =>
        if found = [';'] then true :: splitMarks none 0 text
        else false :: splitMarks (some found) (found.length - 1) text

/-! ## The server -/

/-- A character an identifier, or the tag of a dollar quote, may start with. -/
def isIdentStart (c : Char) : Bool := c.isAlpha || c = '_' || decide (128 ≤ c.toNat)

/-- A character of a tag behind its first one. -/
def isTagChar (c : Char) : Bool := isIdentStart c || c.isDigit

/-- Whether an identifier is being read behind `c`: a `$` belongs to the identifier it stands in. -/
def inIdent (before : Bool) (c : Char) : Bool := isIdentStart c || (before && (c.isDigit || c = '$'))

/-- The delimiter at the head of a text, where no identifier is being read. -/
def delimiter : List Char → Option (List Char)
  | '$' :: text =>
    let tag := text.takeWhile isTagChar
    if (text.drop tag.length).head? = some '$' ∧ tag.head?.all isIdentStart then some ('$' :: (tag ++ ['$']))
    else none
  | _ => none

/-- The delimiter that opens a body at the head of a text. -/
def opening (ident : Bool) (text : List Char) : Option (List Char) := if ident then none else delimiter text

/-- Where the server ends a statement: one mark a character. String literals, quoted identifiers and comments have no
state here: they hold neither `;` nor `$`, and none ends within an identifier (`serverMarks_literal`). -/
def serverMarks : Bool → Option (List Char) → ℕ → List Char → List Bool
  | _, _, _, [] => []
  | ident, body, skip + 1, _ :: text => false :: serverMarks ident body skip text
  | _, some d, 0, c :: text =>
    if d <+: c :: text then false :: serverMarks false none (d.length - 1) text
    else false :: serverMarks false (some d) 0 text
  | ident, none, 0, c :: text =>
    if c = ';' then true :: serverMarks false none 0 text
    else
      match opening ident (c :: text) with
      | some d => false :: serverMarks false (some d) (d.length - 1) text
      | none => false :: serverMarks (inIdent ident c) none 0 text

/-- The statements as the server delimits them. -/
def serverStatements (sql : List Char) : List (List Char) := cutAt (serverMarks false none 0 sql) sql

/-! ## The splitter cuts at its marks -/

theorem splitMarks_length (quote : Option (List Char)) (skip : ℕ) (text : List Char) :
    (splitMarks quote skip text).length = text.length := by
  induction text generalizing quote skip with
  | nil => simp [splitMarks]
  | cons c text ih =>
    cases skip with
    | succ skip => simp [splitMarks, ih]
    | zero =>
      unfold splitMarks
      split
      · simp [ih]
      · split
        · simp [ih]
        · split <;> simp [ih]

theorem serverMarks_length (ident : Bool) (body : Option (List Char)) (skip : ℕ) (text : List Char) :
    (serverMarks ident body skip text).length = text.length := by
  induction text generalizing ident body skip with
  | nil => simp [serverMarks]
  | cons c text ih =>
    cases skip with
    | succ skip => simp [serverMarks, ih]
    | zero =>
      cases body with
      | some d =>
        unfold serverMarks
        split <;> simp [ih]
      | none =>
        unfold serverMarks
        split
        · simp [ih]
        · split <;> simp [ih]

/-- The matches from a place on, folded from a state there. -/
theorem foldl_step {sql : List Char} (text read : List Char) (skip : ℕ) (s : Splitter) (hsql : sql = read ++ text)
    (hstart : s.statementStart ≤ read.length) :
    let last := (finditer splitToken read.length skip text).foldl (Splitter.step sql) s
    last.statements ++ [sql.drop last.statementStart] = s.statements ++
      (cutAt (splitMarks s.openQuote skip text) text).modifyHead (read.drop s.statementStart ++ ·) := by
  induction text generalizing read skip s with
  | nil => simp [finditer, splitMarks, cutAt, hsql]
  | cons c text ih =>
    have hsql' : sql = (read ++ [c]) ++ text := by simp [hsql]
    have hlength : (read ++ [c]).length = read.length + 1 := by simp
    -- a character that is not cut belongs to the piece begun
    have hpass : ∀ (s : Splitter) (hstart : s.statementStart ≤ read.length) (pieces : List (List Char)),
        pieces.modifyHead ((read ++ [c]).drop s.statementStart ++ ·) =
          (pieces.modifyHead (c :: ·)).modifyHead (read.drop s.statementStart ++ ·) := by
      intro s hstart pieces
      rw [List.drop_append_of_le_length hstart, List.modifyHead_modifyHead]
      congr 1
      funext piece
      simp
    have hkept : ∀ (s : Splitter) (skip : ℕ), s.statementStart ≤ read.length →
        let last := (finditer splitToken (read.length + 1) skip text).foldl (Splitter.step sql) s
        last.statements ++ [sql.drop last.statementStart] = s.statements ++
          (cutAt (false :: splitMarks s.openQuote skip text) (c :: text)).modifyHead
            (read.drop s.statementStart ++ ·) := by
      intro s skip hstart
      have hrest := ih (read ++ [c]) skip s hsql' (by omega)
      rw [hlength, hpass s hstart] at hrest
      exact hrest
    cases skip with
    | succ skip => exact hkept s skip hstart
    | zero =>
      obtain ⟨statements, statementStart, openQuote⟩ := s
      unfold finditer splitMarks
      cases htoken : splitToken (c :: text) with
      | none => exact hkept _ 0 hstart
      | some found =>
        dsimp only
        rw [List.foldl_cons]
        cases openQuote with
        | some d => exact hkept ⟨statements, statementStart, if found = d then none else some d⟩ _ hstart
        | none =>
          unfold Splitter.step
          dsimp only
          by_cases hcut : found = [';']
          · have hrest := ih (read ++ [c]) 0 ⟨statements ++ [(sql.take read.length).drop statementStart],
              read.length + 1, none⟩ hsql' (by simp)
            have hpiece : (sql.take read.length).drop statementStart = read.drop statementStart := by
              rw [hsql, List.take_left]
            have hnil : (read ++ [c]).drop (read.length + 1) = [] := by simp
            dsimp only at hrest
            rw [hlength, hnil, hpiece] at hrest
            rw [if_pos hcut, if_pos hcut, hcut, hpiece, cutAt, List.modifyHead_cons, List.append_nil]
            refine hrest.trans ?_
            have hsame : (cutAt (splitMarks none 0 text) text).modifyHead ([] ++ ·) =
                cutAt (splitMarks none 0 text) text := by
              obtain ⟨piece, pieces, heq⟩ := List.exists_cons_of_ne_nil (cutAt_ne_nil (splitMarks none 0 text) text)
              rw [heq, List.modifyHead_cons, List.nil_append]
            rw [hsame, List.append_assoc, List.singleton_append]
          · rw [if_neg hcut, if_neg hcut]
            exact hkept ⟨statements, statementStart, some found⟩ _ hstart

/-- **The splitter cuts at its marks.** -/
theorem rawStatements_eq (sql : List Char) : rawStatements sql = cutAt (splitMarks none 0 sql) sql := by
  have h := foldl_step sql [] 0 ⟨[], 0, none⟩ rfl (Nat.le_refl 0)
  obtain ⟨piece, pieces, heq⟩ := List.exists_cons_of_ne_nil (cutAt_ne_nil (splitMarks none 0 sql) sql)
  simp only [heq, List.modifyHead_cons, List.drop_nil, List.nil_append] at h
  rw [heq]
  exact h

/-! ## Tokens -/

/-- The form of a match that is no `;`. -/
def IsQuote (d : List Char) : Prop := ∃ tag, (∀ c ∈ tag, isWordChar c = true) ∧ d = '$' :: (tag ++ ['$'])

theorem takeWhile_append_stop {p : Char → Bool} {tag text : List Char} {c : Char} (htag : ∀ c ∈ tag, p c = true)
    (hc : p c = false) : (tag ++ c :: text).takeWhile p = tag := by
  rw [List.takeWhile_append_of_pos htag, List.takeWhile_cons_of_neg (by simp [hc]), List.append_nil]

/-- What a `takeWhile` with the stop behind it says of the text. -/
theorem eq_append_of_takeWhile {p : Char → Bool} {text : List Char} {c : Char}
    (h : (text.drop (text.takeWhile p).length).head? = some c) :
    ∃ rest, text = text.takeWhile p ++ c :: rest := by
  obtain ⟨rest, hrest⟩ := List.head?_eq_some_iff.1 h
  have happend := List.prefix_iff_eq_append.1 (List.takeWhile_prefix (l := text) p)
  rw [hrest] at happend
  exact ⟨rest, happend.symm⟩

theorem IsQuote.token {d : List Char} (h : IsQuote d) (text : List Char) : splitToken (d ++ text) = some d := by
  obtain ⟨tag, htag, rfl⟩ := h
  have htake : (tag ++ '$' :: text).takeWhile isWordChar = tag := takeWhile_append_stop htag (by decide)
  simp [splitToken, htake]

theorem splitToken_cases {text found : List Char} (h : splitToken text = some found) :
    (∃ rest, text = ';' :: rest ∧ found = [';']) ∨ (∃ rest, text = found ++ rest) ∧ IsQuote found := by
  unfold splitToken at h
  split at h
  · rename_i rest
    exact .inl ⟨rest, rfl, (Option.some.inj h).symm⟩
  · rename_i rest
    dsimp only at h
    split at h
    · rename_i hstop
      obtain ⟨after, hafter⟩ := eq_append_of_takeWhile hstop
      obtain rfl := Option.some.inj h
      refine .inr ⟨⟨after, ?_⟩, _, fun c hc => List.mem_takeWhile_imp hc, rfl⟩
      conv_lhs => rw [hafter]
      simp
    · cases h
  · cases h

theorem splitToken_quote {text found : List Char} (h : splitToken text = some found) (hne : found ≠ [';']) :
    (∃ rest, text = found ++ rest) ∧ IsQuote found := by
  rcases splitToken_cases h with ⟨-, -, heq⟩ | h
  · exact absurd heq hne
  · exact h

theorem IsQuote.ne_semicolon {d : List Char} (h : IsQuote d) : d ≠ [';'] := by
  obtain ⟨tag, -, rfl⟩ := h
  simp

theorem IsQuote.ne_nil {d : List Char} (h : IsQuote d) : d ≠ [] := by
  obtain ⟨tag, -, rfl⟩ := h
  simp

theorem IsQuote.not_mem {d : List Char} (h : IsQuote d) : ';' ∉ d := by
  obtain ⟨tag, htag, rfl⟩ := h
  intro hmem
  have hin : ';' ∈ tag := by simpa using hmem
  exact absurd (htag ';' hin) (by decide)

theorem splitToken_eq_none_of_head {c : Char} {text : List Char} (hcut : c ≠ ';') (hquote : c ≠ '$') :
    splitToken (c :: text) = none := by
  unfold splitToken
  split <;> simp_all

/-- A match at the head of a text that a `$` ends goes no further than that `$`. -/
theorem splitToken_before (c : Char) (body text : List Char) :
    splitToken (c :: (body ++ '$' :: text)) = splitToken (c :: (body ++ ['$'])) := by
  have htake : (body ++ '$' :: text).takeWhile isWordChar = (body ++ ['$']).takeWhile isWordChar := by
    rw [List.takeWhile_append, List.takeWhile_append]
    simp [show isWordChar '$' = false by decide]
  have hle : ((body ++ ['$']).takeWhile isWordChar).length ≤ body.length := by
    by_contra hgt
    have hall : (body ++ ['$']).takeWhile isWordChar = body ++ ['$'] := by
      refine (List.takeWhile_prefix isWordChar).eq_of_length_le ?_
      simp only [List.length_append, List.length_singleton]
      omega
    have hmem : '$' ∈ (body ++ ['$']).takeWhile isWordChar := by rw [hall]; simp
    exact absurd (List.mem_takeWhile_imp hmem) (by decide)
  have hhead : ∀ n, n ≤ body.length → ((body ++ '$' :: text).drop n).head? = ((body ++ ['$']).drop n).head? := by
    intro n hn
    rw [List.head?_drop, List.head?_drop]
    rcases Nat.lt_or_eq_of_le hn with hlt | rfl
    · rw [List.getElem?_append_left hlt, List.getElem?_append_left hlt]
    · simp
  by_cases hc : c = '$'
  · subst hc
    simp only [splitToken, htake, hhead _ hle]
  · by_cases hcut : c = ';'
    · subst hcut
      rfl
    · rw [splitToken_eq_none_of_head hcut hc, splitToken_eq_none_of_head hcut hc]

theorem delimiter_cases {text d : List Char} (h : delimiter text = some d) :
    ∃ tag rest, text = '$' :: (tag ++ '$' :: rest) ∧ d = '$' :: (tag ++ ['$']) ∧ '$' ∉ tag ∧ ';' ∉ tag := by
  unfold delimiter at h
  split at h
  · rename_i text
    dsimp only at h
    split at h
    · rename_i hstop
      obtain ⟨after, hafter⟩ := eq_append_of_takeWhile hstop.1
      refine ⟨_, after, congrArg _ hafter, (Option.some.inj h).symm, fun hmem => ?_, fun hmem => ?_⟩
      · exact absurd (List.mem_takeWhile_imp hmem) (by decide)
      · exact absurd (List.mem_takeWhile_imp hmem) (by decide)
    · cases h
  · cases h

theorem delimiter_eq_none_of_head {c : Char} {text : List Char} (hc : c ≠ '$') : delimiter (c :: text) = none := by
  unfold delimiter
  split <;> simp_all

/-- A tag does not reach over a `;`. -/
theorem tag_before_cut {s text tag rest : List Char} (hs : '$' ∉ s) (htag : ';' ∉ tag) :
    s ++ ';' :: text ≠ tag ++ '$' :: rest := by
  intro heq
  rcases List.append_eq_append_iff.1 heq with ⟨more, htag', hmore⟩ | ⟨more, hs', hmore⟩
  · cases more with
    | nil => simp at hmore
    | cons x more =>
      have hx : ';' = x := (List.cons.inj hmore).1
      exact htag (by rw [htag', ← hx]; simp)
  · cases more with
    | nil => simp at hmore
    | cons x more =>
      have hx : '$' = x := (List.cons.inj hmore).1
      exact hs (by rw [hs', ← hx]; simp)

theorem delimiter_eq_none_of_cut {s text : List Char} (hs : '$' ∉ s) :
    delimiter ('$' :: (s ++ ';' :: text)) = none := by
  by_contra hne
  obtain ⟨d, hd⟩ := Option.ne_none_iff_exists'.1 hne
  obtain ⟨tag, rest, htext, -, -, hcut⟩ := delimiter_cases hd
  exact tag_before_cut hs hcut (List.cons.inj htext).2

theorem splitToken_eq_none_of_cut {s text : List Char} (hs : '$' ∉ s) :
    splitToken ('$' :: (s ++ ';' :: text)) = none := by
  by_contra hne
  obtain ⟨found, hfound⟩ := Option.ne_none_iff_exists'.1 hne
  rcases splitToken_cases hfound with ⟨rest, heq, -⟩ | ⟨⟨rest, heq⟩, tag, htag, rfl⟩
  · exact absurd (List.cons.inj heq).1 (by decide)
  · have hcut : ';' ∉ tag := fun hmem => absurd (htag ';' hmem) (by decide)
    exact tag_before_cut hs hcut (by simpa using heq)

/-- Where both read a delimiter they read the same one. -/
theorem token_eq_delimiter {text d found : List Char} (hd : delimiter text = some d)
    (hfound : splitToken text = some found) : found = d ∧ IsQuote d := by
  obtain ⟨tag, rest, rfl, rfl, htag, -⟩ := delimiter_cases hd
  rcases splitToken_cases hfound with ⟨_, heq, -⟩ | ⟨⟨rest', heq⟩, tag', hword, rfl⟩
  · cases heq
  · have htag' : '$' ∉ tag' := fun hmem => absurd (hword '$' hmem) (by decide)
    have hsame : tag ++ '$' :: rest = tag' ++ '$' :: rest' := by simpa using heq
    obtain ⟨rfl, -⟩ := (Text.join_inj_first htag htag').1 hsame
    exact ⟨rfl, tag, hword, rfl⟩

/-! ## Single characters and skipped ones -/

section Marks

variable {ident : Bool} {quote body : Option (List Char)} {d text : List Char}

theorem splitMarks_skip (s : List Char) :
    splitMarks quote s.length (s ++ text) = List.replicate s.length false ++ splitMarks quote 0 text := by
  induction s with
  | nil => rfl
  | cons c s ih => rw [List.length_cons, List.cons_append, splitMarks, ih, List.replicate_succ, List.cons_append]

theorem serverMarks_skip (s : List Char) :
    serverMarks ident body s.length (s ++ text) = List.replicate s.length false ++ serverMarks ident body 0 text := by
  induction s with
  | nil => rfl
  | cons c s ih => rw [List.length_cons, List.cons_append, serverMarks, ih, List.replicate_succ, List.cons_append]

theorem splitMarks_none {c : Char} (h : splitToken (c :: text) = none) :
    splitMarks quote 0 (c :: text) = false :: splitMarks quote 0 text := by
  rw [splitMarks, h]

theorem splitMarks_cut : splitMarks none 0 (';' :: text) = true :: splitMarks none 0 text := rfl

/-- A match outside every quote opens one. -/
theorem splitMarks_quote (hd : IsQuote d) :
    splitMarks none 0 (d ++ text) = List.replicate d.length false ++ splitMarks (some d) 0 text := by
  have htoken := hd.token text
  have hne := hd.ne_semicolon
  obtain ⟨c, rest, rfl⟩ := List.exists_cons_of_ne_nil hd.ne_nil
  rw [List.cons_append] at htoken ⊢
  rw [splitMarks, htoken]
  dsimp only
  rw [if_neg hne, List.length_cons, Nat.add_sub_cancel, splitMarks_skip, List.replicate_succ, List.cons_append]

/-- A match that is the open quote closes it. -/
theorem splitMarks_close (hd : IsQuote d) :
    splitMarks (some d) 0 (d ++ text) = List.replicate d.length false ++ splitMarks none 0 text := by
  have htoken := hd.token text
  obtain ⟨c, rest, rfl⟩ := List.exists_cons_of_ne_nil hd.ne_nil
  rw [List.cons_append] at htoken ⊢
  rw [splitMarks, htoken]
  dsimp only
  rw [if_pos rfl, List.length_cons, Nat.add_sub_cancel, splitMarks_skip, List.replicate_succ, List.cons_append]

theorem serverMarks_cut : serverMarks ident none 0 (';' :: text) = true :: serverMarks false none 0 text := rfl

theorem serverMarks_none {c : Char} (hc : c ≠ ';') (h : opening ident (c :: text) = none) :
    serverMarks ident none 0 (c :: text) = false :: serverMarks (inIdent ident c) none 0 text := by
  rw [serverMarks, if_neg hc, h]

theorem serverMarks_opening (h : opening ident (d ++ text) = some d) :
    serverMarks ident none 0 (d ++ text) = List.replicate d.length false ++ serverMarks false (some d) 0 text := by
  have hdelimiter : delimiter (d ++ text) = some d := by
    unfold opening at h
    split at h
    · cases h
    · exact h
  obtain ⟨tag, rest, htext, rfl, -, -⟩ := delimiter_cases hdelimiter
  rw [List.cons_append] at h ⊢
  rw [serverMarks, if_neg (by decide), h]
  dsimp only
  rw [List.length_cons, Nat.add_sub_cancel, serverMarks_skip, List.replicate_succ, List.cons_append]

/-- Text without `;` is not cut. -/
theorem splitMarks_plain (h : ';' ∉ text) (quote : Option (List Char)) (skip : ℕ) :
    splitMarks quote skip text = List.replicate text.length false := by
  induction text generalizing quote skip with
  | nil => simp [splitMarks]
  | cons c text ih =>
    rw [List.mem_cons, not_or] at h
    cases skip with
    | succ skip => rw [splitMarks, ih h.2, List.length_cons, List.replicate_succ]
    | zero =>
      unfold splitMarks
      cases htoken : splitToken (c :: text) with
      | none => simp [ih h.2, List.replicate_succ]
      | some found =>
        have hne : found ≠ [';'] := by
          rintro rfl
          rcases splitToken_cases htoken with ⟨rest, heq, -⟩ | ⟨-, hquote⟩
          · exact h.1 (List.cons.inj heq).1.symm
          · exact hquote.ne_semicolon rfl
        cases quote <;> simp [ih h.2, hne, List.replicate_succ]

theorem serverMarks_plain (h : ';' ∉ text) (ident : Bool) (body : Option (List Char)) (skip : ℕ) :
    serverMarks ident body skip text = List.replicate text.length false := by
  induction text generalizing ident body skip with
  | nil => simp [serverMarks]
  | cons c text ih =>
    rw [List.mem_cons, not_or] at h
    cases skip with
    | succ skip => rw [serverMarks, ih h.2, List.length_cons, List.replicate_succ]
    | zero =>
      cases body with
      | some d =>
        unfold serverMarks
        split <;> simp [ih h.2, List.replicate_succ]
      | none =>
        unfold serverMarks
        rw [if_neg (Ne.symm h.1)]
        split <;> simp [ih h.2, List.replicate_succ]

theorem opening_eq_none_of_head {c : Char} (hc : c ≠ '$') : opening ident (c :: text) = none := by
  unfold opening
  split
  · rfl
  · exact delimiter_eq_none_of_head hc

/-- Characters that neither cut nor quote are passed over. -/
theorem splitMarks_pass {s : List Char} (hcut : ';' ∉ s) (hquote : '$' ∉ s) :
    splitMarks quote 0 (s ++ text) = List.replicate s.length false ++ splitMarks quote 0 text := by
  induction s with
  | nil => rfl
  | cons c s ih =>
    rw [List.mem_cons, not_or] at hcut hquote
    rw [List.cons_append, splitMarks_none (splitToken_eq_none_of_head (Ne.symm hcut.1) (Ne.symm hquote.1)),
      ih hcut.2 hquote.2]
    rfl

theorem serverMarks_pass {s : List Char} (hcut : ';' ∉ s) (hquote : '$' ∉ s) :
    serverMarks ident none 0 (s ++ text) =
      List.replicate s.length false ++ serverMarks (s.foldl inIdent ident) none 0 text := by
  induction s generalizing ident with
  | nil => rfl
  | cons c s ih =>
    rw [List.mem_cons, not_or] at hcut hquote
    rw [List.cons_append, serverMarks_none (Ne.symm hcut.1) (opening_eq_none_of_head (Ne.symm hquote.1)),
      ih hcut.2 hquote.2]
    rfl

end Marks

/-! ## Bodies -/

/-- How much of what follows a body the last match in it takes with it, given that a `$` follows: nothing, or that
`$`. -/
def overrun : ℕ → List Char → ℕ
  | skip, [] => skip
  | skip + 1, _ :: body => overrun skip body
  | 0, c :: body =>
    match splitToken (c :: (body ++ ['$'])) with
    | some found => overrun (found.length - 1) body
    | none => overrun 0 body

theorem splitToken_length {text found : List Char} (h : splitToken text = some found) :
    found.length ≤ text.length := by
  rcases splitToken_cases h with ⟨rest, rfl, rfl⟩ | ⟨⟨rest, rfl⟩, -⟩ <;> simp

theorem overrun_le {skip : ℕ} {body : List Char} (h : skip ≤ body.length + 1) : overrun skip body ≤ 1 := by
  induction body generalizing skip with
  | nil => simpa [overrun] using h
  | cons c body ih =>
    rw [List.length_cons] at h
    cases skip with
    | succ skip => exact ih (by omega)
    | zero =>
      unfold overrun
      cases htoken : splitToken (c :: (body ++ ['$'])) with
      | none => exact ih (by omega)
      | some found =>
        have hle := splitToken_length htoken
        simp only [List.length_cons, List.length_append, List.length_nil] at hle
        exact ih (by omega)

section Bodies

variable {d body text : List Char}

theorem not_prefix_of_first {rest : List Char} (h : ¬ d <:+: body ++ d.dropLast) (hbody : body ≠ []) :
    ¬ d <+: body ++ (d ++ rest) := by
  intro hprefix
  refine h (List.IsPrefix.isInfix ?_)
  have hwhole : body ++ d.dropLast <+: body ++ (d ++ rest) :=
    (List.prefix_append_right_inj _).2 ((List.dropLast_prefix d).trans (List.prefix_append d rest))
  refine List.prefix_of_prefix_length_le hprefix hwhole ?_
  have hpos := List.length_pos_iff.2 hbody
  rw [List.length_append, List.length_dropLast]
  omega

/-- **The server passes over a body** up to the next occurrence of its delimiter. -/
theorem serverMarks_body (hd : d ≠ []) (h : ¬ d <:+: body ++ d.dropLast) (ident : Bool) :
    serverMarks ident (some d) 0 (body ++ (d ++ text)) =
      List.replicate (body.length + d.length) false ++ serverMarks false none 0 text := by
  induction body generalizing ident with
  | nil =>
    obtain ⟨c, rest, rfl⟩ := List.exists_cons_of_ne_nil hd
    have hhead : c :: rest <+: c :: (rest ++ text) := List.prefix_append (c :: rest) text
    rw [List.nil_append, List.cons_append, serverMarks, if_pos hhead, List.length_nil, Nat.zero_add,
      List.length_cons, Nat.add_sub_cancel, serverMarks_skip]
    rfl
  | cons c body ih =>
    have hnot : ¬ d <+: c :: body ++ (d ++ text) := not_prefix_of_first h (by simp)
    rw [List.cons_append] at hnot
    have hrest := ih fun hin => h (hin.trans (List.suffix_cons c _).isInfix)
    rw [List.cons_append, serverMarks, if_neg hnot, hrest, List.length_cons, Nat.add_right_comm]
    rfl

theorem serverMarks_unclosed (h : ¬ d <:+: body) (ident : Bool) :
    serverMarks ident (some d) 0 body = List.replicate body.length false := by
  induction body generalizing ident with
  | nil => simp [serverMarks]
  | cons c body ih =>
    have hnot : ¬ d <+: c :: body := fun hprefix => h hprefix.isInfix
    have hrest := ih fun hin => h (hin.trans (List.suffix_cons c _).isInfix)
    rw [serverMarks, if_neg hnot, hrest, List.length_cons, List.replicate_succ]

/-- A quote that does not occur again stays open. -/
theorem splitMarks_unclosed (hd : IsQuote d) (h : ¬ d <:+: body) (skip : ℕ) :
    splitMarks (some d) skip body = List.replicate body.length false := by
  induction body generalizing skip with
  | nil => simp [splitMarks]
  | cons c body ih =>
    have hrest := ih fun hin => h (hin.trans (List.suffix_cons c _).isInfix)
    cases skip with
    | succ skip => rw [splitMarks, hrest, List.length_cons, List.replicate_succ]
    | zero =>
      unfold splitMarks
      cases htoken : splitToken (c :: body) with
      | none => simp [hrest, List.replicate_succ]
      | some found =>
        have hne : found ≠ d := by
          rintro rfl
          obtain ⟨⟨rest, heq⟩, -⟩ := splitToken_quote htoken hd.ne_semicolon
          exact h (heq ▸ (List.prefix_append found rest).isInfix)
        simp [hne, hrest, List.replicate_succ]

/-- **The splitter passes over a body** in which its delimiter does not occur: what is left of the last match reaches at
most over the `$` behind it. -/
theorem splitMarks_body (hd : IsQuote d) (h : ¬ d <:+: body ++ ['$']) (skip : ℕ) :
    splitMarks (some d) skip (body ++ '$' :: text) =
      List.replicate body.length false ++ splitMarks (some d) (overrun skip body) ('$' :: text) := by
  induction body generalizing skip with
  | nil => rfl
  | cons c body ih =>
    have hrest := ih fun hin => h (hin.trans (List.suffix_cons c _).isInfix)
    cases skip with
    | succ skip =>
      rw [List.cons_append, splitMarks, hrest]
      rfl
    | zero =>
      rw [List.cons_append, splitMarks, splitToken_before]
      unfold overrun
      cases htoken : splitToken (c :: (body ++ ['$'])) with
      | none =>
        dsimp only
        rw [hrest]
        rfl
      | some found =>
        have hne : found ≠ d := by
          rintro rfl
          obtain ⟨⟨rest, heq⟩, -⟩ := splitToken_quote htoken hd.ne_semicolon
          have hprefix : found <+: c :: (body ++ ['$']) := ⟨rest, heq.symm⟩
          exact h hprefix.isInfix
        dsimp only
        rw [if_neg hne, hrest]
        rfl

theorem IsQuote.infix_dropLast (hd : IsQuote d) (h : ¬ d <:+: body ++ d.dropLast) : ¬ d <:+: body ++ ['$'] := by
  obtain ⟨tag, -, rfl⟩ := hd
  intro hin
  refine h (hin.trans (List.IsPrefix.isInfix ?_))
  rw [← List.cons_append, List.dropLast_concat]
  exact (List.prefix_append_right_inj _).2 (by simp)

/-- A body is left where its delimiter is not touched. -/
theorem splitMarks_closed (hd : IsQuote d) (h : ¬ d <:+: body ++ d.dropLast) (hrun : overrun 0 body = 0) :
    splitMarks (some d) 0 (body ++ (d ++ text)) =
      List.replicate (body.length + d.length) false ++ splitMarks none 0 text := by
  obtain ⟨tag, -, heq⟩ := id hd
  have hsplit : d ++ text = '$' :: (tag ++ '$' :: text) := by simp [heq]
  rw [hsplit, splitMarks_body hd (hd.infix_dropLast h), hrun, ← hsplit, splitMarks_close hd, ← List.append_assoc,
    List.replicate_append_replicate]

/-- It goes on behind the first `$` of its delimiter where a match has taken that. -/
theorem splitMarks_swallowed {tag : List Char} (htag : ∀ c ∈ tag, isWordChar c = true)
    (hd : d = '$' :: (tag ++ ['$'])) (h : ¬ d <:+: body ++ d.dropLast) (hrun : overrun 0 body = 1) :
    splitMarks (some d) 0 (body ++ (d ++ text)) =
      List.replicate (body.length + 1) false ++ splitMarks (some d) 0 (tag ++ '$' :: text) := by
  have hquote : IsQuote d := ⟨tag, htag, hd⟩
  have hbefore := hquote.infix_dropLast h
  have hsplit : d ++ text = '$' :: (tag ++ '$' :: text) := by simp [hd]
  rw [hsplit, splitMarks_body hquote hbefore, hrun, splitMarks, List.replicate_succ', List.append_assoc]
  rfl

end Bodies

/-! ## Reading alike -/

/-- **A text and a rest of it that both readings reach alike**, outside every quote, with the server's reading of
identifiers at both ends. -/
inductive Alike : Bool → List Char → Bool → List Char → Prop
  | refl (ident : Bool) (text : List Char) : Alike ident text ident text
  | char {ident ident' : Bool} {c : Char} {text rest : List Char} (hc : c ≠ ';')
      (hopen : opening ident (c :: text) = none) (htoken : splitToken (c :: text) = none)
      (h : Alike (inIdent ident c) text ident' rest) : Alike ident (c :: text) ident' rest
  | cut {ident ident' : Bool} {text rest : List Char} (h : Alike false text ident' rest) :
      Alike ident (';' :: text) ident' rest
  | body {ident ident' : Bool} {d body text rest : List Char}
      (hopen : opening ident (d ++ (body ++ (d ++ text))) = some d)
      (htoken : splitToken (d ++ (body ++ (d ++ text))) = some d) (hfirst : ¬ d <:+: body ++ d.dropLast)
      (hrun : overrun 0 body = 0) (h : Alike false text ident' rest) :
      Alike ident (d ++ (body ++ (d ++ text))) ident' rest

/-- **The misreadings**, with the text behind them: a match where the server reads no delimiter (a `$` within an
identifier, a tag that starts with a digit), a delimiter that is no match (a tag outside ASCII), and a match in a body
that takes the first `$` of the closing delimiter. -/
inductive Misread : Bool → List Char → List Char → Prop
  | spurious {ident : Bool} {found rest : List Char} (hopen : opening ident (found ++ rest) = none)
      (htoken : splitToken (found ++ rest) = some found) (hne : found ≠ [';']) : Misread ident (found ++ rest) rest
  | missed {ident : Bool} {d rest : List Char} (hopen : opening ident (d ++ rest) = some d)
      (htoken : splitToken (d ++ rest) = none) : Misread ident (d ++ rest) rest
  | swallowed {ident : Bool} {d body rest : List Char} (hopen : opening ident (d ++ (body ++ (d ++ rest))) = some d)
      (htoken : splitToken (d ++ (body ++ (d ++ rest))) = some d) (hfirst : ¬ d <:+: body ++ d.dropLast)
      (hrun : overrun 0 body = 1) : Misread ident (d ++ (body ++ (d ++ rest))) rest

/-- Nothing is left to cut: no `;`, a body that does not end, or a misreading with no `;` behind it. -/
inductive Quiet : Bool → List Char → Prop
  | plain {ident : Bool} {text : List Char} (h : ';' ∉ text) : Quiet ident text
  | unclosed {ident : Bool} {d body : List Char} (hopen : opening ident (d ++ body) = some d)
      (htoken : splitToken (d ++ body) = some d) (h : ¬ d <:+: body) : Quiet ident (d ++ body)
  | misread {ident : Bool} {text rest : List Char} (h : Misread ident text rest) (hrest : ';' ∉ rest) : Quiet ident text

/-- No misreading comes before a `;`. -/
def WellRead (sql : List Char) : Prop := ∃ ident rest, Alike false sql ident rest ∧ Quiet ident rest

theorem delimiter_of_opening {ident : Bool} {text d : List Char} (h : opening ident text = some d) :
    delimiter text = some d := by
  unfold opening at h
  split at h
  · cases h
  · exact h

section Reading

variable {ident ident' : Bool} {text rest : List Char}

/-- **What is read alike is cut alike.** -/
theorem Alike.marks (h : Alike ident text ident' rest) : ∃ marks,
    splitMarks none 0 text = marks ++ splitMarks none 0 rest ∧
    serverMarks ident none 0 text = marks ++ serverMarks ident' none 0 rest := by
  induction h with
  | refl ident text => exact ⟨[], rfl, rfl⟩
  | char hc hopen htoken h ih =>
    obtain ⟨marks, hsplit, hserver⟩ := ih
    refine ⟨false :: marks, ?_, ?_⟩
    · rw [splitMarks_none htoken, hsplit, List.cons_append]
    · rw [serverMarks_none hc hopen, hserver, List.cons_append]
  | cut h ih =>
    obtain ⟨marks, hsplit, hserver⟩ := ih
    refine ⟨true :: marks, ?_, ?_⟩
    · rw [splitMarks_cut, hsplit, List.cons_append]
    · rw [serverMarks_cut, hserver, List.cons_append]
  | @body ident ident' d body text rest hopen htoken hfirst hrun h ih =>
    obtain ⟨marks, hsplit, hserver⟩ := ih
    have hquote := (token_eq_delimiter (delimiter_of_opening hopen) htoken).2
    refine ⟨List.replicate d.length false ++ (List.replicate (body.length + d.length) false ++ marks), ?_, ?_⟩
    · rw [splitMarks_quote hquote, splitMarks_closed hquote hfirst hrun, hsplit]
      simp only [List.append_assoc]
    · rw [serverMarks_opening hopen, serverMarks_body hquote.ne_nil hfirst, hserver]
      simp only [List.append_assoc]

theorem not_mem_of_opening {d : List Char} (h : opening ident text = some d) : ';' ∉ d := by
  obtain ⟨tag, -, -, rfl, -, htag⟩ := delimiter_cases (delimiter_of_opening h)
  simp [htag]

/-- **Where nothing is left to cut nothing is cut differently.** -/
theorem Quiet.marks (h : Quiet ident text) : splitMarks none 0 text = serverMarks ident none 0 text := by
  cases h with
  | plain h => rw [splitMarks_plain h, serverMarks_plain h]
  | unclosed hopen htoken h =>
    have hquote := (token_eq_delimiter (delimiter_of_opening hopen) htoken).2
    rw [splitMarks_quote hquote, splitMarks_unclosed hquote h, serverMarks_opening hopen, serverMarks_unclosed h]
  | misread h hrest =>
    rename_i after
    cases h with
    | @spurious found _ hopen htoken hne =>
      have hplain : ';' ∉ found ++ after := by
        rw [List.mem_append, not_or]
        exact ⟨(splitToken_quote htoken hne).2.not_mem, hrest⟩
      rw [splitMarks_plain hplain, serverMarks_plain hplain]
    | @missed d _ hopen htoken =>
      have hplain : ';' ∉ d ++ after := by
        rw [List.mem_append, not_or]
        exact ⟨not_mem_of_opening hopen, hrest⟩
      rw [splitMarks_plain hplain, serverMarks_plain hplain]
    | @swallowed d body _ hopen htoken hfirst hrun =>
      obtain ⟨-, hquote⟩ := token_eq_delimiter (delimiter_of_opening hopen) htoken
      obtain ⟨tag, htag, hd⟩ := id hquote
      have hplain : ';' ∉ tag ++ '$' :: after := by
        have hnot := hquote.not_mem
        simp only [hd, List.mem_cons, List.mem_append, not_or] at hnot
        simp [hnot.2.1, hrest]
      rw [splitMarks_quote hquote, splitMarks_swallowed htag hd hfirst hrun, splitMarks_plain hplain,
        serverMarks_opening hopen, serverMarks_body hquote.ne_nil hfirst, serverMarks_plain hrest]
      simp only [List.replicate_append_replicate, hd, List.length_cons, List.length_append, List.length_nil]
      congr 1
      omega

end Reading

/-! ## Misreadings are cut differently -/

section Differs

variable {ident : Bool} {d s text : List Char}

/-- In an open quote nothing is cut. -/
theorem splitMarks_open (hd : IsQuote d) (hs : '$' ∉ s) :
    splitMarks (some d) 0 (s ++ ';' :: text) = List.replicate (s.length + 1) false ++ splitMarks (some d) 0 text := by
  have hne : [';'] ≠ d := hd.ne_semicolon.symm
  induction s with
  | nil => rw [List.nil_append, splitMarks]; simp [splitToken, hne]
  | cons c s ih =>
    rw [List.mem_cons, not_or] at hs
    have hrest := ih hs.2
    by_cases hc : c = ';'
    · subst hc
      rw [List.cons_append, splitMarks]
      simp only [splitToken, hne, if_false, List.length_singleton, Nat.sub_self, hrest]
      rfl
    · rw [List.cons_append, splitMarks_none (splitToken_eq_none_of_head hc (Ne.symm hs.1)), hrest]
      rfl

/-- Outside every quote a `;` is cut, whatever stands before it that opens none. -/
theorem splitMarks_outside (hs : '$' ∉ s) : (splitMarks none 0 (s ++ ';' :: text))[s.length]? = some true := by
  induction s with
  | nil => rfl
  | cons c s ih =>
    rw [List.mem_cons, not_or] at hs
    have hrest := ih hs.2
    by_cases hc : c = ';'
    · subst hc
      rw [List.cons_append, splitMarks_cut, List.length_cons, List.getElem?_cons_succ, hrest]
    · rw [List.cons_append, splitMarks_none (splitToken_eq_none_of_head hc (Ne.symm hs.1)), List.length_cons,
        List.getElem?_cons_succ, hrest]

theorem serverMarks_outside (hs : '$' ∉ s) : (serverMarks ident none 0 (s ++ ';' :: text))[s.length]? = some true := by
  induction s generalizing ident with
  | nil => rfl
  | cons c s ih =>
    rw [List.mem_cons, not_or] at hs
    have hrest := fun ident => @ih ident hs.2
    by_cases hc : c = ';'
    · subst hc
      rw [List.cons_append, serverMarks_cut, List.length_cons, List.getElem?_cons_succ, hrest]
    · rw [List.cons_append, serverMarks_none hc (opening_eq_none_of_head (Ne.symm hs.1)), List.length_cons,
        List.getElem?_cons_succ, hrest]

/-- In a body that has not ended nothing is cut. -/
theorem serverMarks_inside {tag : List Char} (hs : '$' ∉ s) :
    (serverMarks ident (some ('$' :: tag)) 0 (s ++ ';' :: text))[s.length]? = some false := by
  have hnot : ∀ (c : Char) (rest : List Char), c ≠ '$' → ¬ '$' :: tag <+: c :: rest := by
    intro c rest hc hprefix
    exact hc (List.cons_prefix_cons.1 hprefix).1.symm
  induction s generalizing ident with
  | nil =>
    rw [List.nil_append, serverMarks, if_neg (hnot _ _ (by decide))]
    rfl
  | cons c s ih =>
    rw [List.mem_cons, not_or] at hs
    rw [List.cons_append, serverMarks, if_neg (hnot _ _ (Ne.symm hs.1)), List.length_cons, List.getElem?_cons_succ,
      ih hs.2]

theorem getElem?_behind (n k : ℕ) (marks : List Bool) : (List.replicate n false ++ marks)[n + k]? = marks[k]? := by
  rw [List.getElem?_append_right (by simp), List.length_replicate, Nat.add_sub_cancel_left]

theorem getElem?_within {n k : ℕ} (h : k < n) (marks : List Bool) :
    (List.replicate n false ++ marks)[k]? = some false := by
  rw [List.getElem?_append_left (by simpa using h), List.getElem?_replicate, if_pos h]

/-- **A misreading with a `;` before the next `$`** is cut differently. -/
theorem Misread.marks {more : List Char} (h : Misread ident text (s ++ ';' :: more)) (hs : '$' ∉ s) :
    splitMarks none 0 text ≠ serverMarks ident none 0 text := by
  intro heq
  generalize hrest : s ++ ';' :: more = rest at h
  cases h with
  | @spurious found _ hopen htoken hne =>
    -- the splitter has opened a quote, the server has not
    obtain ⟨-, hquote⟩ := splitToken_quote htoken hne
    obtain ⟨tag, htag, hfound⟩ := id hquote
    have hcut : ';' ∉ tag := fun hmem => absurd (htag ';' hmem) (by decide)
    have hdollar : '$' ∉ tag := fun hmem => absurd (htag '$' hmem) (by decide)
    have hsplit : (splitMarks none 0 (found ++ rest))[found.length + s.length]? = some false := by
      rw [splitMarks_quote hquote, getElem?_behind, ← hrest, splitMarks_open hquote hs, getElem?_within (by omega)]
    have hserver : (serverMarks ident none 0 (found ++ rest))[found.length + s.length]? = some true := by
      have hlength : found.length + s.length = tag.length + (s.length + 1) + 1 := by
        simp only [hfound, List.length_cons, List.length_append, List.length_nil]
        omega
      have htext : found ++ rest = '$' :: (tag ++ '$' :: (s ++ ';' :: more)) := by simp [hfound, hrest]
      have hnone : opening (tag.foldl inIdent (inIdent ident '$')) ('$' :: (s ++ ';' :: more)) = none := by
        unfold opening
        rw [delimiter_eq_none_of_cut hs, ite_self]
      rw [htext] at hopen
      rw [htext, hlength, serverMarks_none (by decide) hopen, List.getElem?_cons_succ, serverMarks_pass hcut hdollar,
        getElem?_behind, serverMarks_none (by decide) hnone, List.getElem?_cons_succ, serverMarks_outside hs]
    rw [heq, hserver] at hsplit
    exact absurd hsplit (by decide)
  | @missed d _ hopen htoken =>
    -- the server is in a body, the splitter in no quote
    obtain ⟨tag, after, -, hd, hdollar, hcut⟩ := delimiter_cases (delimiter_of_opening hopen)
    have hlength : d.length + s.length = tag.length + (s.length + 1) + 1 := by
      simp only [hd, List.length_cons, List.length_append, List.length_nil]
      omega
    have htext : d ++ rest = '$' :: (tag ++ '$' :: (s ++ ';' :: more)) := by simp [hd, hrest]
    have hsplit : (splitMarks none 0 (d ++ rest))[d.length + s.length]? = some true := by
      rw [htext] at htoken
      rw [htext, hlength, splitMarks_none htoken, List.getElem?_cons_succ, splitMarks_pass hcut hdollar,
        getElem?_behind, splitMarks_none (splitToken_eq_none_of_cut hs), List.getElem?_cons_succ, splitMarks_outside hs]
    have hserver : (serverMarks ident none 0 (d ++ rest))[d.length + s.length]? = some false := by
      rw [serverMarks_opening hopen, getElem?_behind, ← hrest, hd, serverMarks_inside hs]
    rw [heq, hserver] at hsplit
    exact absurd hsplit (by decide)
  | @swallowed d body _ hopen htoken hfirst hrun =>
    -- the body has ended for the server, its quote is still open for the splitter
    obtain ⟨-, hquote⟩ := token_eq_delimiter (delimiter_of_opening hopen) htoken
    obtain ⟨tag, htag, hd⟩ := id hquote
    have hcut : ';' ∉ tag := fun hmem => absurd (htag ';' hmem) (by decide)
    have hdollar : '$' ∉ tag := fun hmem => absurd (htag '$' hmem) (by decide)
    have hsplit : (splitMarks none 0 (d ++ (body ++ (d ++ rest))))[d.length + (body.length + d.length + s.length)]? =
        some false := by
      have hlength : body.length + d.length + s.length = body.length + 1 + (tag.length + (s.length + 1)) := by
        simp only [hd, List.length_cons, List.length_append, List.length_nil]
        omega
      rw [splitMarks_quote hquote, getElem?_behind, splitMarks_swallowed htag hd hfirst hrun, hlength, getElem?_behind,
        splitMarks_pass hcut hdollar, getElem?_behind, ← hrest, splitMarks_none (splitToken_eq_none_of_cut hs),
        List.getElem?_cons_succ, splitMarks_open hquote hs, getElem?_within (by omega)]
    have hserver :
        (serverMarks ident none 0 (d ++ (body ++ (d ++ rest))))[d.length + (body.length + d.length + s.length)]? =
        some true := by
      rw [serverMarks_opening hopen, getElem?_behind, serverMarks_body hquote.ne_nil hfirst, getElem?_behind, ← hrest,
        serverMarks_outside hs]
    rw [heq, hserver] at hsplit
    exact absurd hsplit (by decide)

end Differs

/-! ## Every text -/

/-- **Every text is read alike** up to a place where nothing is left to cut, or up to a misreading with a `;` behind
it. -/
theorem alike_total (ident : Bool) (text : List Char) : ∃ ident' rest, Alike ident text ident' rest ∧
    (Quiet ident' rest ∨ ∃ after, Misread ident' rest after ∧ ';' ∈ after) := by
  induction hn : text.length using Nat.strong_induction_on generalizing ident text with
  | _ n ih =>
    subst hn
    -- the rest behind what is read alike is shorter
    have hnext : ∀ (ident₁ : Bool) (text₁ : List Char), text₁.length < text.length →
        (∀ ident' rest, Alike ident₁ text₁ ident' rest → Alike ident text ident' rest) →
        ∃ ident' rest, Alike ident text ident' rest ∧
          (Quiet ident' rest ∨ ∃ after, Misread ident' rest after ∧ ';' ∈ after) := by
      intro ident₁ text₁ hlt hstep
      obtain ⟨ident', rest, halike, hend⟩ := ih _ hlt ident₁ text₁ rfl
      exact ⟨ident', rest, hstep ident' rest halike, hend⟩
    have hmisread : ∀ after, Misread ident text after → ∃ ident' rest, Alike ident text ident' rest ∧
        (Quiet ident' rest ∨ ∃ after, Misread ident' rest after ∧ ';' ∈ after) := by
      intro after h
      refine ⟨ident, text, .refl ident text, ?_⟩
      by_cases hcut : ';' ∈ after
      · exact .inr ⟨after, h, hcut⟩
      · exact .inl (.misread h hcut)
    cases text with
    | nil => exact ⟨ident, [], .refl ident [], .inl (.plain (by simp))⟩
    | cons c text =>
      by_cases hc : c = ';'
      · subst hc
        exact hnext false text (by simp) fun ident' rest h => .cut h
      cases hopen : opening ident (c :: text) with
      | none =>
        cases htoken : splitToken (c :: text) with
        | none => exact hnext (inIdent ident c) text (by simp) fun ident' rest h => .char hc hopen htoken h
        | some found =>
          have hne : found ≠ [';'] := by
            rintro rfl
            rcases splitToken_cases htoken with ⟨rest, heq, -⟩ | ⟨-, hquote⟩
            · exact hc (List.cons.inj heq).1
            · exact hquote.ne_semicolon rfl
          obtain ⟨⟨after, hafter⟩, -⟩ := splitToken_quote htoken hne
          rw [hafter] at hopen htoken hmisread ⊢
          exact hmisread after (.spurious hopen htoken hne)
      | some d =>
        obtain ⟨tag, after, htext, hd, -, -⟩ := delimiter_cases (delimiter_of_opening hopen)
        have hbegin : c :: text = d ++ ('$' :: after).tail := by simp [htext, hd]
        cases htoken : splitToken (c :: text) with
        | none =>
          rw [hbegin] at hopen htoken hmisread ⊢
          exact hmisread _ (.missed hopen htoken)
        | some found =>
          obtain ⟨rfl, hquote⟩ := token_eq_delimiter (delimiter_of_opening hopen) htoken
          rw [hbegin, List.tail_cons] at hopen htoken
          by_cases hin : found <:+: after
          · obtain ⟨body, rest, rfl, hfirst⟩ := exists_first hquote.ne_nil hin
            have hrun : overrun 0 body = 0 ∨ overrun 0 body = 1 := by
              have hle : overrun 0 body ≤ 1 := overrun_le (Nat.zero_le _)
              omega
            rw [hbegin, List.tail_cons] at hnext hmisread ⊢
            rcases hrun with hrun | hrun
            · have hpos := List.length_pos_iff.2 hquote.ne_nil
              refine hnext false rest ?_ fun ident' rest' h => .body hopen htoken hfirst hrun h
              simp only [List.length_append]
              omega
            · exact hmisread rest (.swallowed hopen htoken hfirst hrun)
          · rw [hbegin, List.tail_cons]
            exact ⟨ident, _, .refl ident _, .inl (.unclosed hopen htoken hin)⟩

/-! ## The pieces -/

/-- Only a `;` is cut. -/
theorem splitMarks_semicolon (quote : Option (List Char)) (skip : ℕ) (text : List Char) :
    ∀ p ∈ (splitMarks quote skip text).zip text, p.1 = true → p.2 = ';' := by
  induction text generalizing quote skip with
  | nil => simp
  | cons c text ih =>
    have hpass : ∀ quote skip, ∀ p ∈ (false :: splitMarks quote skip text).zip (c :: text), p.1 = true → p.2 = ';' := by
      intro quote skip p hp hmark
      rw [List.zip_cons_cons, List.mem_cons] at hp
      rcases hp with rfl | hp
      · cases hmark
      · exact ih quote skip p hp hmark
    cases skip with
    | succ skip => exact hpass quote skip
    | zero =>
      by_cases hc : c = ';'
      · subst hc
        cases quote with
        | some d => exact hpass _ _
        | none =>
          intro p hp hmark
          rw [splitMarks_cut, List.zip_cons_cons, List.mem_cons] at hp
          rcases hp with rfl | hp
          · rfl
          · exact ih none 0 p hp hmark
      · unfold splitMarks
        cases htoken : splitToken (c :: text) with
        | none => exact hpass quote 0
        | some found =>
          have hne : found ≠ [';'] := by
            rintro rfl
            rcases splitToken_cases htoken with ⟨rest, heq, -⟩ | ⟨-, hquote⟩
            · exact hc (List.cons.inj heq).1
            · exact hquote.ne_semicolon rfl
          cases quote with
          | some d => exact hpass _ _
          | none =>
            dsimp only
            rw [if_neg hne]
            exact hpass _ _

/-- **The pieces and the `;` between them are the text.** -/
theorem intercalate_rawStatements (sql : List Char) : [';'].intercalate (rawStatements sql) = sql := by
  rw [rawStatements_eq]
  exact intercalate_cutAt (splitMarks_semicolon none 0 sql)

theorem rawStatements_eq_server {sql : List Char} :
    rawStatements sql = serverStatements sql ↔ splitMarks none 0 sql = serverMarks false none 0 sql := by
  rw [rawStatements_eq, serverStatements]
  constructor
  · exact cutAt_injective (splitMarks_length _ _ _) (serverMarks_length _ _ _ _)
  · intro h
    rw [h]

/-- **The splitter follows the server** on the texts in which no misreading comes before a `;`; every other text holds
such a misreading, and where the `;` comes before the next `$` the two cut differently. The pieces of any text give it
back. -/
theorem split_statements_follows_server (sql : List Char) :
    (WellRead sql → rawStatements sql = serverStatements sql ∧ splitStatements sql = stripped (serverStatements sql)) ∧
    (WellRead sql ∨ ∃ ident rest after, Alike false sql ident rest ∧ Misread ident rest after ∧ ';' ∈ after) ∧
    (∀ ident rest s more, Alike false sql ident rest → Misread ident rest (s ++ ';' :: more) → '$' ∉ s →
      rawStatements sql ≠ serverStatements sql) ∧
    [';'].intercalate (rawStatements sql) = sql := by
  refine ⟨?_, ?_, ?_, intercalate_rawStatements sql⟩
  · rintro ⟨ident, rest, halike, hquiet⟩
    obtain ⟨marks, hsplit, hserver⟩ := halike.marks
    have hraw : rawStatements sql = serverStatements sql := by
      rw [rawStatements_eq_server, hsplit, hserver, hquiet.marks]
    exact ⟨hraw, congrArg stripped hraw⟩
  · obtain ⟨ident, rest, halike, hquiet | ⟨after, hmisread, hcut⟩⟩ := alike_total false sql
    · exact .inl ⟨ident, rest, halike, hquiet⟩
    · exact .inr ⟨ident, rest, after, halike, hmisread, hcut⟩
  · intro ident rest s more halike hmisread hs heq
    obtain ⟨marks, hsplit, hserver⟩ := halike.marks
    rw [rawStatements_eq_server, hsplit, hserver] at heq
    exact hmisread.marks hs (List.append_cancel_left heq)

/-- Two statements, the second one with a `;` in its body. -/
def blockText : List Char := ['x', ';', '$', 'q', '$', 'a', ';', '$', 'q', '$', ';', 'y']

theorem split_statements_follows_server_block :
    rawStatements blockText = serverStatements blockText ∧
      splitStatements blockText = stripped (serverStatements blockText) := by
  have hbody : Alike false (['$', 'q', '$'] ++ (['a', ';'] ++ (['$', 'q', '$'] ++ [';', 'y']))) false ['y'] :=
    .body (by decide) (by decide) (by decide) (by decide) (.cut (.refl false ['y']))
  have hread : Alike false blockText false ['y'] := .char (by decide) (by decide) (by decide) (.cut hbody)
  exact (split_statements_follows_server blockText).1 ⟨false, ['y'], hread, .plain (by decide)⟩

/-- A function whose body ends with a parameter. -/
def parameterText : List Char :=
  "CREATE FUNCTION f(integer) RETURNS integer LANGUAGE sql AS $$SELECT $1$$; SELECT f(2)".toList

/-- The match `$1$` takes the first `$` of the closing delimiter: one statement is returned, not two. -/
theorem parameter_glued : rawStatements parameterText ≠ serverStatements parameterText ∧
    splitStatements parameterText = [parameterText] ∧
    stripped (serverStatements parameterText) =
      ["CREATE FUNCTION f(integer) RETURNS integer LANGUAGE sql AS $$SELECT $1$$".toList, "SELECT f(2)".toList] := by
  decide +kernel

end Migrations

end PolicySystem
