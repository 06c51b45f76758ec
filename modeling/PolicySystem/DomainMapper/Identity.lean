import PolicySystem.PolicyLifecycle.GraphWriter
import PolicySystem.Text.LastSeparator

/-!
# Identities of the domain mapper

The ids of Roles, Requirements, Obligations and Capabilities (`domain_mapper/identity.py`) and the normal form of a
Role's name (`domain_mapper/role_names.py`).

* `IdHash`: what is assumed of the hash;
* `obligationId_role`: **an Obligation's id tells its Role.**
-/

namespace PolicySystem.DomainMapper

open PolicyLifecycle

/-! ## Ids -/

/-- `role_id`. -/
def roleId (h : Hashing) (name regulatoryInstrumentId : String) : String :=
  "role_" ++ h.slug name ++ "_" ++ h.hash (regulatoryInstrumentId ++ ":" ++ h.lower name)

/-- `requirement_id`. -/
def requirementId (regulatoryInstrumentId article paragraph : String) (letter : Option String) : String :=
  regulatoryInstrumentId ++ "_req_art_" ++ article ++ "." ++ paragraph ++ letter.getD ""

/-- `obligation_id`. -/
def obligationId (h : Hashing) (roleNodeId text : String) : String :=
  "obl_" ++ h.slug text ++ "_" ++ h.hash (roleNodeId ++ ":" ++ h.lower text)

/-- `capability_id`. -/
def capabilityId (h : Hashing) (name : String) : String := "cap_" ++ h.slug name ++ "_" ++ h.hash (h.lower name)

/-- The hash is injective, and its texts hold neither an underscore nor a colon, as hexadecimal digits do. -/
structure IdHash (h : Hashing) : Prop where
  injective : ∀ s t, h.hash s = h.hash t → s = t
  noUnderscore : ∀ s, '_' ∉ (h.hash s).toList
  noColon : ∀ s, ':' ∉ (h.hash s).toList

section Ids

variable {h : Hashing}

theorem not_mem_splitOnP {p : Char → Bool} {cs run : List Char} (h : run ∈ cs.splitOnP p) : ∀ c ∈ run, p c = false := by
  induction cs generalizing run with
  | nil =>
    rw [List.splitOnP_nil, List.mem_singleton] at h
    subst h
    simp
  | cons a cs ih =>
    rw [List.splitOnP_cons_eq_if_modifyHead] at h
    by_cases ha : p a = true
    · rw [if_pos ha] at h
      rcases List.mem_cons.1 h with rfl | h
      · simp
      · exact ih h
    · rw [if_neg ha] at h
      cases hsplit : cs.splitOnP p with
      | nil => exact absurd hsplit (List.splitOnP_ne_nil p cs)
      | cons first rest =>
        rw [hsplit] at h ih
        rcases List.mem_cons.1 h with rfl | h
        · intro c hc
          rcases List.mem_cons.1 hc with rfl | hc
          · exact Bool.eq_false_iff.2 ha
          · exact ih (by simp) c hc
        · exact ih (List.mem_cons_of_mem _ h)

theorem mem_intercalate {sep : String} {runs : List String} {c : Char} (h : c ∈ (sep.intercalate runs).toList) :
    c ∈ sep.toList ∨ ∃ run ∈ runs, c ∈ run.toList := by
  induction runs with
  | nil => simp at h
  | cons run runs ih =>
    cases runs with
    | nil =>
      rw [String.intercalate_singleton] at h
      exact .inr ⟨run, by simp, h⟩
    | cons next runs =>
      rw [String.intercalate_cons_cons, String.toList_append, String.toList_append, List.mem_append,
        List.mem_append] at h
      rcases h with (h | h) | h
      · exact .inr ⟨run, by simp, h⟩
      · exact .inl h
      · obtain h | ⟨found, hfound, hc⟩ := ih h
        · exact .inl h
        · exact .inr ⟨found, List.mem_cons_of_mem _ hfound, hc⟩

/-- A slug holds letters, digits and underscores only. -/
theorem colon_not_mem_slug (text : String) : ':' ∉ (h.slug text).toList := by
  intro hmem
  unfold Hashing.slug at hmem
  rcases mem_intercalate hmem with hsep | ⟨run, hrun, hc⟩
  · exact absurd hsep (by decide)
  · obtain ⟨chars, hchars, rfl⟩ := List.mem_map.1 hrun
    rw [String.toList_ofList] at hc
    have hno := not_mem_splitOnP (List.mem_filter.1 hchars).1 ':' hc
    exact absurd hno (by decide)

/-- A Role's id holds no colon. -/
theorem colon_not_mem_roleId (hash : IdHash h) (name regulatoryInstrumentId : String) :
    ':' ∉ (roleId h name regulatoryInstrumentId).toList := by
  unfold roleId
  simp only [String.toList_append, List.mem_append, not_or]
  exact ⟨⟨⟨by decide, colon_not_mem_slug name⟩, by decide⟩, hash.noColon _⟩

/-- **An Obligation's id tells its Role**, and its text up to case. -/
theorem obligationId_role (hash : IdHash h) {role role' text text' : String} (hrole : ':' ∉ role.toList)
    (hrole' : ':' ∉ role'.toList) (heq : obligationId h role text = obligationId h role' text') :
    role = role' ∧ h.lower text = h.lower text' := by
  have hchars := congrArg String.toList heq
  simp only [obligationId, String.toList_append] at hchars
  have hjoin : ("obl_".toList ++ (h.slug text).toList) ++ '_' :: (h.hash (role ++ ":" ++ h.lower text)).toList =
      ("obl_".toList ++ (h.slug text').toList) ++ '_' :: (h.hash (role' ++ ":" ++ h.lower text')).toList := by
    simpa using hchars
  have hhash := String.toList_inj.1 ((Text.join_inj (hash.noUnderscore _) (hash.noUnderscore _)).1 hjoin).2
  have hinput := congrArg String.toList (hash.injective _ _ hhash)
  simp only [String.toList_append] at hinput
  have hfirst : role.toList ++ ':' :: (h.lower text).toList = role'.toList ++ ':' :: (h.lower text').toList := by
    simpa using hinput
  obtain ⟨hr, ht⟩ := (Text.join_inj_first hrole hrole').1 hfirst
  exact ⟨String.toList_inj.1 hr, String.toList_inj.1 ht⟩

end Ids

/-! ## Names of Roles -/

/-- Python's string methods and the hash of the ids. -/
structure StringRules extends Hashing where
  casefold : String → String
  /-- `str.isspace` of one character: what `split` and `strip` take for white space. -/
  isSpace : Char → Bool
  isUpper : String → Bool

/-- `str.split()`. -/
def StringRules.split (rules : StringRules) (s : String) : List String :=
  ((s.toList.splitOnP rules.isSpace).filter fun run => run ≠ []).map String.ofList

/-- `str.strip()` leaves nothing. -/
def StringRules.isBlank (rules : StringRules) (s : String) : Bool := s.toList.all rules.isSpace

/-- `word[:-n]`. -/
def dropLast (n : ℕ) (word : String) : String := String.ofList (word.toList.take (word.toList.length - n))

def endsIn (word ending : String) : Bool := ending.toList.isSuffixOf word.toList

/-- `_KEPT_ENDINGS`. -/
def keptEndings : List String := ["ss", "us", "is"]

/-- `_singular`. -/
def singular (rules : StringRules) (word : String) : String :=
  let lowered := rules.lower word
  if word.toList.length < 4 || rules.isUpper word || !endsIn lowered "s" then word
  else if endsIn lowered "ies" then
    let third := String.ofList ((word.toList.drop (word.toList.length - 3)).take 1)
    dropLast 3 word ++ if rules.isUpper third then "Y" else "y"
  else if endsIn lowered "sses" then dropLast 2 word
  else if keptEndings.any (endsIn lowered) then word
  else dropLast 1 word

/-- `_ARTICLES`. -/
def articles : List String := ["the", "a", "an"]

/-- One leading article is dropped where something follows it. -/
def dropArticle (rules : StringRules) : List String → List String
  | first :: next :: rest => if rules.lower first ∈ articles then next :: rest else first :: next :: rest
  | words => words

/-- Only the last word is made singular. -/
def singularLast (rules : StringRules) : List String → List String
  | [] => []
  | [word] => [singular rules word]
  | word :: words => word :: singularLast rules words

/-- `normalise_role_name`. -/
def normaliseRoleName (rules : StringRules) (raw : String) : String :=
  " ".intercalate (singularLast rules (dropArticle rules (rules.split raw)))

/-- `_normalize_term`. -/
def normalizeTerm (rules : StringRules) (text : String) : String :=
  " ".intercalate (rules.split (rules.casefold text))

end PolicySystem.DomainMapper
