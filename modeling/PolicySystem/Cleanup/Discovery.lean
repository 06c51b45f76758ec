import PolicySystem.Cleanup.StateDigest
import PolicySystem.Order.StableSort
import PolicySystem.Order.UnionFind

/-!
# Duplicate groups

`graph_cleanup/discovery.py`: the Capabilities that look alike, and the Obligations of one Role whose texts do. The
records are put in the order of their ids and joined in a union-find forest over their positions.

* `capabilities_joined`, `obligations_joined`: what the two loops join;
* `capability_groups`, `obligation_groups`: the groups are the classes of two or more records of the links;
* `duplicate_groups_exact`: so a pair that is skipped changes nothing, and the order of the records does not matter.
-/

namespace PolicySystem.Discovery

open UnionFind

/-! ## Records and groups -/

/-- `CapabilityRecord`. -/
structure CapabilityRecord (Emb : Type) where
  id : String
  name : String
  embedding : Option Emb
  governingPolicy : Option GoverningPolicy
  obligationCount : Int

/-- `CapabilityCandidateMember`. -/
structure CapabilityCandidateMember where
  id : String
  name : String
  obligationCount : Int
  governingPolicy : Option GoverningPolicy

/-- `MergeCase`: 1, 2 or 3. -/
inductive MergeCase where
  | ungoverned
  | oneGoverned
  | manyGoverned
  deriving DecidableEq

inductive CapabilityBasis where
  | name
  | embedding
  deriving DecidableEq

/-- `CapabilityCandidateGroup`: two or more members. -/
structure CapabilityCandidateGroup where
  basis : CapabilityBasis
  mergeCase : MergeCase
  policiesDistinct : Bool
  members : List CapabilityCandidateMember
  several : 1 < members.length

/-- `RequirementSourceRef`. -/
structure RequirementSourceRef where
  requirementId : String
  sourceRef : Option String
  deriving DecidableEq

/-- `ObligationRecord`. -/
structure ObligationRecord where
  id : String
  text : String
  roleId : String
  roleName : String
  requirements : List RequirementSourceRef

/-- `ObligationCandidateMember`. -/
structure ObligationCandidateMember where
  id : String
  text : String
  requirements : List RequirementSourceRef

/-- `ObligationCandidateGroup`: two or more members. -/
structure ObligationCandidateGroup where
  roleId : String
  roleName : String
  basis : DuplicateBasis
  members : List ObligationCandidateMember
  several : 1 < members.length

/-! ## Capabilities -/

section Capabilities

variable {Emb Score : Type} [LE Score] [DecidableLE Score]

/-- `classify_case`. -/
def classifyCase (members : List (CapabilityRecord Emb)) : MergeCase × Bool :=
  let policies := members.filterMap CapabilityRecord.governingPolicy
  let governed := (policies.map GoverningPolicy.id).toFinset
  (if policies.length = 0 then .ungoverned else if policies.length = 1 then .oneGoverned else .manyGoverned,
    1 < governed.card)

/-- `_build_group`. -/
def buildGroup (rules : TextRules) (members : List (CapabilityRecord Emb)) (several : 1 < members.length) :
    CapabilityCandidateGroup where
  basis :=
    if ((members.map fun c => rules.normaliseName c.name).toFinset).card = 1 then .name else .embedding
  mergeCase := (classifyCase members).1
  policiesDistinct := (classifyCase members).2
  members := members.map fun c => ⟨c.id, c.name, c.obligationCount, c.governingPolicy⟩
  several := by
    rw [List.length_map]
    exact several

/-- `cosine_similarity`, which may raise. -/
abbrev Cosine (Emb Score : Type) := Emb → Emb → Option Score

/-- `_similar`. -/
def similar (cosine : Cosine Emb Score) (threshold : Score) (a b : CapabilityRecord Emb) : Bool :=
  match a.embedding, b.embedding with
  | some x, some y => (cosine x y).any fun score => threshold ≤ score
  | _, _ => false

/-- One item of the pass over the names: the forest, and the first position of each name. -/
def nameStep {n : ℕ} (key : Fin n → String) (state : Forest (Fin n) × List (String × Fin n)) (index : Fin n) :
    Forest (Fin n) × List (String × Fin n) :=
  match state.2.lookup (key index) with
  | some first => (union state.1 first index, state.2)
  | none => (state.1, state.2 ++ [(key index, index)])

/-- What an inner loop does with a pair: the links, the item of the outer loop, the forest, the item of the inner loop. -/
abbrev PairStep (n : ℕ) := (Fin n → Fin n → Bool) → Fin n → Forest (Fin n) → Fin n → Forest (Fin n)

/-- One pair of the pass over the scores: a pair in one component already is not scored. -/
def scoreStep {n : ℕ} (linked : Fin n → Fin n → Bool) (i : Fin n) (f : Forest (Fin n)) (j : Fin n) :
    Forest (Fin n) :=
  let (rootI, f) := find f i
  let (rootJ, f) := find f j
  if rootI ≠ rootJ ∧ linked i j then union f i j else f

/-- The same pass with every pair scored. -/
def scoreEvery {n : ℕ} (linked : Fin n → Fin n → Bool) (i : Fin n) (f : Forest (Fin n)) (j : Fin n) :
    Forest (Fin n) :=
  if linked i j then union f i j else f

/-- `range(i + 1, len(ordered))`. -/
def after {n : ℕ} (i : Fin n) : List (Fin n) := (List.finRange n).filter fun j => i < j

/-- The forest of `group_capabilities`, with the given step of its inner loop. -/
def joinCapabilities (rules : TextRules) (cosine : Cosine Emb Score) (minSimilarity : Score)
    (ordered : List (CapabilityRecord Emb)) (step : PairStep ordered.length) : Forest (Fin ordered.length) :=
  let indexes := List.finRange ordered.length
  let named := (indexes.foldl (nameStep fun i => rules.normaliseName ordered[i].name) (.start, [])).1
  indexes.foldl (fun f i =>
    if ordered[i].embedding.isNone then f
    else (after i).foldl (step (fun i j => similar cosine minSimilarity ordered[i] ordered[j]) i) f) named

/-- The groups of a forest over the ordered records. -/
def capabilityGroups (rules : TextRules) (ordered : List (CapabilityRecord Emb)) (f : Forest (Fin ordered.length)) :
    List CapabilityCandidateGroup :=
  let components := gather (fun i => ordered[i]) f (List.finRange ordered.length)
  let groups := build (buildGroup rules) components
  StableSort.sortBy (fun g => (g.members.head (List.ne_nil_of_length_pos (Nat.zero_lt_of_lt g.several))).id) groups

/-- `group_capabilities`. -/
def groupCapabilities (rules : TextRules) (cosine : Cosine Emb Score) (minSimilarity : Score)
    (capabilities : List (CapabilityRecord Emb)) : List CapabilityCandidateGroup :=
  let ordered := StableSort.sortBy CapabilityRecord.id capabilities
  capabilityGroups rules ordered (joinCapabilities rules cosine minSimilarity ordered scoreStep)

/-- `group_capabilities` without the test of the components before a pair is scored. -/
def groupCapabilitiesUnskipped (rules : TextRules) (cosine : Cosine Emb Score) (minSimilarity : Score)
    (capabilities : List (CapabilityRecord Emb)) : List CapabilityCandidateGroup :=
  let ordered := StableSort.sortBy CapabilityRecord.id capabilities
  capabilityGroups rules ordered (joinCapabilities rules cosine minSimilarity ordered scoreEvery)

end Capabilities

/-! ## Obligations -/

/-- `_texts_match` of two normalised texts and their token sets. -/
def textsMatch (leftText : String) (leftTokens : Finset String) (rightText : String) (rightTokens : Finset String) :
    Bool :=
  leftText = rightText || jaccardAtLeastFloor leftTokens rightTokens

/-- The forest of one Role's Obligations, with the given step of the inner loop. -/
def joinObligations (rules : TextRules) (members : List ObligationRecord) (step : PairStep members.length) : Forest (Fin members.length) :=
  let normalised := fun i : Fin members.length => rules.normaliseName members[i].text
  let tokens := fun i : Fin members.length => (rules.words members[i].text).toFinset
  (List.finRange members.length).foldl (fun f i =>
    (after i).foldl (step (fun i j => textsMatch (normalised i) (tokens i) (normalised j) (tokens j)) i) f) .start

/-- The requirements of a member, by source reference and id. -/
def sortRequirements (requirements : List RequirementSourceRef) : List RequirementSourceRef :=
  StableSort.sortBy (fun r => toLex (r.sourceRef.getD "", r.requirementId)) requirements

/-- A candidate group of Obligations. -/
def obligationGroup (rules : TextRules) (roleId : String) (members : List ObligationRecord)
    (several : 1 < members.length) : ObligationCandidateGroup where
  roleId := roleId
  roleName := (members.head (List.ne_nil_of_length_pos (Nat.zero_lt_of_lt several))).roleName
  basis :=
    if ((members.map fun o => rules.normaliseName o.text).toFinset).card = 1 then .identicalText else .nearText
  members := members.map fun o => ⟨o.id, o.text, sortRequirements o.requirements⟩
  several := by
    rw [List.length_map]
    exact several

/-- The groups of one Role. -/
def roleGroups (rules : TextRules) (step : ∀ n, PairStep n) (roleId : String) (members : List ObligationRecord) : List ObligationCandidateGroup :=
  let components := gather id (joinObligations rules members (step members.length)) (List.finRange members.length)
  build (fun indexes several =>
    obligationGroup rules roleId (indexes.map fun i => members[i]) (by rwa [List.length_map])) components

/-- The groups of every Role, in the order of the Roles' ids. -/
def obligationGroups (rules : TextRules) (step : ∀ n, PairStep n) (obligations : List ObligationRecord) : List ObligationCandidateGroup :=
  let byRole := Grouped.grouped ObligationRecord.roleId (StableSort.sortBy ObligationRecord.id obligations)
  (StableSort.sortBy Prod.fst byRole).flatMap fun role => roleGroups rules step role.1 role.2

/-- `group_duplicate_obligations`. -/
def groupDuplicateObligations (rules : TextRules) (obligations : List ObligationRecord) :
    List ObligationCandidateGroup :=
  obligationGroups rules (fun _ => scoreStep) obligations

/-- `group_duplicate_obligations` without the test of the components before a pair is compared. -/
def groupDuplicateObligationsUnskipped (rules : TextRules) (obligations : List ObligationRecord) :
    List ObligationCandidateGroup :=
  obligationGroups rules (fun _ => scoreEvery) obligations

/-! ## What the loops join -/

variable {n : ℕ}

/-- One step of an inner loop adds its pair if the pair is linked. -/
def Adds (step : PairStep n) : Prop :=
  ∀ (linked : Fin n → Fin n → Bool) (i : Fin n) (f : Forest (Fin n)) (r : Fin n → Fin n → Prop) (j : Fin n),
    Joins f r → Joins (step linked i f j) fun x y => r x y ∨ linked i j ∧ x = i ∧ y = j

theorem adds_scoreEvery : Adds (scoreEvery : PairStep n) := by
  intro linked i f r j h
  unfold scoreEvery
  by_cases hlinked : linked i j
  · rw [if_pos hlinked]
    simpa only [hlinked, true_and] using h.union i j
  · rw [if_neg hlinked]
    simpa only [hlinked, Bool.false_eq_true, false_and, or_false] using h

/-- **A pair that is skipped adds nothing**: it is in one component already. -/
theorem adds_scoreStep : Adds (scoreStep : PairStep n) := by
  intro linked i f r j h
  have hfound : (find (find f i).2 j).1 = root f j := by rw [find_fst, root_find_snd]
  have hjoins : Joins (find (find f i).2 j).2 r := (h.find i).find j
  unfold scoreStep
  simp only [find_fst f i, hfound]
  by_cases hlinked : linked i j
  · by_cases hroots : root f i = root f j
    · rw [if_neg fun hne => hne.1 hroots]
      have hsame : root (find (find f i).2 j).2 i = root (find (find f i).2 j).2 j := by
        simp only [root_find_snd]
        exact hroots
      simpa only [hlinked, true_and] using hjoins.joined hsame
    · rw [if_pos ⟨hroots, hlinked⟩]
      simpa only [hlinked, true_and] using hjoins.union i j
  · rw [if_neg fun hne => hlinked hne.2]
    simpa only [hlinked, Bool.false_eq_true, false_and, or_false] using hjoins

section Loops

variable {step : PairStep n}

theorem mem_after {i j : Fin n} : j ∈ after i ↔ i < j := by
  unfold after
  rw [List.mem_filter, decide_eq_true_eq]
  exact and_iff_right (List.mem_finRange j)

/-- What the double loop joins, where an item may be passed over. -/
theorem joins_pairs (hstep : Adds step) (linked : Fin n → Fin n → Bool) (skip : Fin n → Bool) {f : Forest (Fin n)}
    {r : Fin n → Fin n → Prop} (h : Joins f r) :
    Joins ((List.finRange n).foldl (fun f i => if skip i then f else (after i).foldl (step linked i) f) f) fun x y =>
      r x y ∨ x < y ∧ skip x = false ∧ linked x y := by
  have hinner : ∀ (f : Forest (Fin n)) (r : Fin n → Fin n → Prop) (i : Fin n), Joins f r →
      Joins (if skip i then f else (after i).foldl (step linked i) f) fun x y =>
        r x y ∨ skip i = false ∧ ∃ j ∈ after i, linked i j ∧ x = i ∧ y = j := by
    intro f r i h
    by_cases hskip : skip i = true
    · rw [if_pos hskip]
      simpa only [hskip, Bool.true_eq_false, false_and, or_false] using h
    · rw [if_neg hskip]
      simpa only [Bool.not_eq_true _ ▸ hskip, true_and] using
        Joins.foldl (fun f r j hf => hstep linked i f r j hf) h (after i)
  have houter := Joins.foldl hinner h (List.finRange n)
  refine houter.of_le (fun x y hxy => ?_) fun x y hxy => ?_
  · rcases hxy with hxy | ⟨i, -, hskip, j, hj, hlinked, rfl, rfl⟩
    · exact .inl hxy
    · exact .inr ⟨mem_after.1 hj, hskip, hlinked⟩
  · rcases hxy with hxy | ⟨hlt, hskip, hlinked⟩
    · exact .rel _ _ (.inl hxy)
    · exact .rel _ _ (.inr ⟨x, List.mem_finRange x, hskip, y, mem_after.2 hlt, hlinked, rfl, rfl⟩)

/-- The pass over the names: the forest joins equal names, and the dict holds the first position of each. -/
theorem joins_names (key : Fin n → String) (done : List (Fin n)) :
    Joins (done.foldl (nameStep key) (.start, [])).1 (fun x y => x ∈ done ∧ y ∈ done ∧ key x = key y) ∧
      ∀ name, (done.foldl (nameStep key) (.start, [])).2.lookup name = done.find? fun i => key i = name := by
  induction done using List.reverseRecOn with
  | nil =>
    refine ⟨joins_start.of_le (fun _ _ h => h.elim) fun _ _ h => ?_, fun _ => rfl⟩
    exact absurd h.1 List.not_mem_nil
  | append_singleton done i ih =>
    obtain ⟨hjoins, hfirst⟩ := ih
    rw [List.foldl_append, List.foldl_cons, List.foldl_nil]
    generalize done.foldl (nameStep key) (.start, []) = state at hjoins hfirst ⊢
    have hold : ∀ {x y}, x ∈ done ∧ y ∈ done ∧ key x = key y →
        x ∈ done ++ [i] ∧ y ∈ done ++ [i] ∧ key x = key y :=
      fun h => ⟨List.mem_append_left _ h.1, List.mem_append_left _ h.2.1, h.2.2⟩
    have hi : i ∈ done ++ [i] := List.mem_append_right _ (List.mem_singleton_self i)
    unfold nameStep
    cases hlookup : state.2.lookup (key i) with
    | some first =>
      have hfound := hlookup
      rw [hfirst] at hfound
      have hmem : first ∈ done := List.mem_of_find?_eq_some hfound
      have hkey : key first = key i := by simpa using List.find?_some hfound
      refine ⟨(hjoins.union first i).of_le (fun x y h => ?_) fun x y h => ?_, fun name => ?_⟩
      · rcases h with h | ⟨rfl, rfl⟩
        · exact hold h
        · exact ⟨List.mem_append_left _ hmem, hi, hkey⟩
      · -- every item of the new one's name is connected to the first item of that name
        have hup : ∀ z, z ∈ done ++ [i] → key z = key i → Relation.EqvGen
            (fun x y => (x ∈ done ∧ y ∈ done ∧ key x = key y) ∨ x = first ∧ y = i) first z := by
          intro z hz hname
          rcases List.mem_append.1 hz with hz | hz
          · exact .rel _ _ (.inl ⟨hmem, hz, hkey.trans hname.symm⟩)
          · exact .rel _ _ (.inr ⟨rfl, List.mem_singleton.1 hz⟩)
        obtain ⟨hx, hy, hxy⟩ := h
        by_cases hname : key x = key i
        · exact .trans _ _ _ (.symm _ _ (hup x hx hname)) (hup y hy (hxy.symm.trans hname))
        · have hdone : ∀ z, z ∈ done ++ [i] → key z ≠ key i → z ∈ done := fun z hz hne =>
            (List.mem_append.1 hz).resolve_right fun h => hne (congrArg key (List.mem_singleton.1 h))
          exact .rel _ _ (.inl ⟨hdone x hx hname, hdone y hy fun h => hname (hxy.trans h), hxy⟩)
      · rw [hfirst, List.find?_append]
        by_cases hname : key i = name
        · rw [← hname, hfound, Option.some_or]
        · rw [List.find?_singleton, if_neg (by simpa using hname), Option.or_none]
    | none =>
      have hnone : ∀ z ∈ done, key z ≠ key i := by
        have hnone := hlookup
        rw [hfirst, List.find?_eq_none] at hnone
        exact fun z hz h => hnone z hz (decide_eq_true h)
      refine ⟨hjoins.of_le (fun _ _ => hold) fun x y h => ?_, fun name => ?_⟩
      · obtain ⟨hx, hy, hxy⟩ := h
        rcases List.mem_append.1 hx with hx | hx <;> rcases List.mem_append.1 hy with hy | hy
        · exact .rel _ _ ⟨hx, hy, hxy⟩
        · rw [List.mem_singleton.1 hy] at hxy
          exact absurd hxy (hnone x hx)
        · rw [List.mem_singleton.1 hx] at hxy
          exact absurd hxy.symm (hnone y hy)
        · rw [List.mem_singleton.1 hx, List.mem_singleton.1 hy]
          exact .refl i
      · rw [List.lookup_append, hfirst, List.find?_append]
        congr 1
        by_cases hname : key i = name
        · simp [hname]
        · simp [hname, Ne.symm hname]

end Loops

/-- The link of two Capabilities. -/
def LinkedCapabilities {Emb Score : Type} [LE Score] [DecidableLE Score] (rules : TextRules) (cosine : Cosine Emb Score)
    (minSimilarity : Score) (a b : CapabilityRecord Emb) : Prop :=
  rules.normaliseName a.name = rules.normaliseName b.name ∨ similar cosine minSimilarity a b = true

/-- The link of two Obligations. -/
def LinkedObligations (rules : TextRules) (a b : ObligationRecord) : Prop :=
  a.roleId = b.roleId ∧ (duplicateTextBasis rules a.text b.text).isSome = true

section Joined

variable {Emb Score : Type} [LE Score] [DecidableLE Score] {rules : TextRules} {cosine : Cosine Emb Score}
  {minSimilarity : Score}

theorem similar_symm (hsymm : ∀ x y, cosine x y = cosine y x) (a b : CapabilityRecord Emb) :
    similar cosine minSimilarity a b = similar cosine minSimilarity b a := by
  unfold similar
  cases a.embedding with
  | none => cases b.embedding <;> rfl
  | some x =>
    cases b.embedding with
    | none => rfl
    | some y => simp only [hsymm x y]

/-- A record without an embedding has no link by its score. -/
theorem not_similar {a b : CapabilityRecord Emb} (h : a.embedding.isNone = true) :
    similar cosine minSimilarity a b = false := by
  unfold similar
  rw [Option.isNone_iff_eq_none.1 h]

/-- **The forest of the Capabilities** joins the linked ones. -/
theorem capabilities_joined (hsymm : ∀ x y, cosine x y = cosine y x) (ordered : List (CapabilityRecord Emb))
    {step : PairStep ordered.length} (hstep : Adds step) :
    Joins (joinCapabilities rules cosine minSimilarity ordered step) fun i j =>
      LinkedCapabilities rules cosine minSimilarity ordered[i] ordered[j] := by
  have hnames := (joins_names (fun i : Fin ordered.length => rules.normaliseName ordered[i].name)
    (List.finRange ordered.length)).1
  have hpairs := joins_pairs hstep (fun i j => similar cosine minSimilarity ordered[i] ordered[j])
    (fun i => ordered[i].embedding.isNone) hnames
  refine hpairs.of_le (fun i j h => ?_) fun i j h => ?_
  · rcases h with ⟨-, -, h⟩ | ⟨-, -, h⟩
    · exact .inl h
    · exact .inr h
  · rcases h with h | h
    · exact .rel _ _ (.inl ⟨List.mem_finRange i, List.mem_finRange j, h⟩)
    · have hskip : ∀ {a b : CapabilityRecord Emb}, similar cosine minSimilarity a b = true → a.embedding.isNone = false := by
        intro a b hab
        by_contra hnone
        rw [not_similar (Bool.not_eq_false _ ▸ hnone)] at hab
        exact absurd hab (by simp)
      rcases lt_trichotomy i j with hlt | rfl | hlt
      · exact .rel _ _ (.inr ⟨hlt, hskip h, h⟩)
      · exact .refl i
      · rw [similar_symm hsymm] at h
        exact .symm _ _ (.rel _ _ (.inr ⟨hlt, hskip h, h⟩))

theorem textsMatch_eq (a b : ObligationRecord) :
    textsMatch (rules.normaliseName a.text) (rules.words a.text).toFinset (rules.normaliseName b.text)
      (rules.words b.text).toFinset = (duplicateTextBasis rules a.text b.text).isSome := by
  unfold textsMatch duplicateTextBasis
  by_cases heq : rules.normaliseName a.text = rules.normaliseName b.text
  · simp [heq]
  · rw [if_neg heq]
    split <;> simp_all

theorem jaccard_symm (left right : Finset String) : jaccardAtLeastFloor left right = jaccardAtLeastFloor right left := by
  unfold jaccardAtLeastFloor
  rw [Finset.union_comm, Finset.inter_comm]

theorem duplicate_symm (left right : String) :
    (duplicateTextBasis rules left right).isSome = (duplicateTextBasis rules right left).isSome := by
  unfold duplicateTextBasis
  by_cases heq : rules.normaliseName left = rules.normaliseName right
  · rw [if_pos heq, if_pos heq.symm]
  · rw [if_neg heq, if_neg (Ne.symm heq), jaccard_symm]

/-- **The forest of one Role's Obligations** joins those with duplicate texts. -/
theorem obligations_joined (members : List ObligationRecord) {step : PairStep members.length} (hstep : Adds step) :
    Joins (joinObligations rules members step) fun i j =>
      (duplicateTextBasis rules members[i].text members[j].text).isSome = true := by
  have hpairs := joins_pairs hstep (fun i j =>
    textsMatch (rules.normaliseName members[i].text) (rules.words members[i].text).toFinset
      (rules.normaliseName members[j].text) (rules.words members[j].text).toFinset)
    (fun _ => false) joins_start
  simp only [Bool.false_eq_true, if_false] at hpairs
  refine Joins.of_le hpairs (fun i j h => ?_) fun i j h => ?_
  · rcases h with h | ⟨-, -, h⟩
    · exact h.elim
    · rwa [textsMatch_eq] at h
  · rcases lt_trichotomy i j with hlt | rfl | hlt
    · refine .rel _ _ (.inr ⟨hlt, trivial, ?_⟩)
      rwa [textsMatch_eq]
    · exact .refl i
    · refine .symm _ _ (.rel _ _ (.inr ⟨hlt, trivial, ?_⟩))
      rwa [textsMatch_eq, duplicate_symm]

end Joined

/-! ## The groups -/

section Groups

variable {Emb Score : Type} [LE Score] [DecidableLE Score] {rules : TextRules} {cosine : Cosine Emb Score}
  {minSimilarity : Score}

/-- An order of the classes goes over to what is made of them. -/
theorem pairwise_of_forall₂ {α β : Type} {R : α → β → Prop} {P : α → α → Prop} {Q : β → β → Prop} {as : List α}
    {bs : List β} (hRQ : ∀ {a a' b b'}, P a a' → R a b → R a' b' → Q b b') (h : List.Forall₂ R as bs)
    (has : as.Pairwise P) : bs.Pairwise Q := by
  obtain ⟨hlength, hget⟩ := List.forall₂_iff_get.1 h
  refine List.pairwise_iff_get.2 fun i j hij => ?_
  have hi : i.1 < as.length := by
    rw [hlength]
    exact i.2
  have hj : j.1 < as.length := by
    rw [hlength]
    exact j.2
  exact hRQ (List.pairwise_iff_get.1 has ⟨i, hi⟩ ⟨j, hj⟩ hij) (hget i hi i.2) (hget j hj j.2)

/-- The groups stand in the order of their classes already. -/
theorem capabilityGroups_eq {ordered : List (CapabilityRecord Emb)} {f : Forest (Fin ordered.length)}
    (hordered : ordered.Pairwise fun a b => a.id ≤ b.id)
    (hclasses : (classesOf f (List.finRange ordered.length)).Pairwise (FirstBefore id)) :
    capabilityGroups rules ordered f =
      build (buildGroup rules) (gather (fun i => ordered[i]) f (List.finRange ordered.length)) := by
  refine StableSort.sortBy_of_pairwise ?_
  refine pairwise_of_forall₂ (fun {c d g g'} hbefore hg hg' => ?_) (forall₂_build (buildGroup rules)) hclasses
  obtain ⟨several, rfl⟩ := hg
  obtain ⟨several', rfl⟩ := hg'
  obtain ⟨i, hi, j, hj, hlt⟩ := hbefore
  -- the first member of a group is the first record of its class
  cases c with
  | nil => cases hi
  | cons i' c =>
    cases d with
    | nil => cases hj
    | cons j' d =>
      obtain rfl := Option.some.inj hi
      obtain rfl := Option.some.inj hj
      exact List.pairwise_iff_getElem.1 hordered i' j' i'.2 j'.2 hlt

/-- **The Capability groups** are made of the classes of the links. -/
theorem capability_groups (hsymm : ∀ x y, cosine x y = cosine y x) {ordered : List (CapabilityRecord Emb)}
    (hordered : ordered.Pairwise fun a b => a.id ≤ b.id) {step : PairStep ordered.length} (hstep : Adds step) :
    ∃ classes : List (List (Fin ordered.length)),
      Components (fun i j => LinkedCapabilities rules cosine minSimilarity ordered[i] ordered[j]) classes ∧
      classes.Pairwise (FirstBefore id) ∧
      List.Forall₂ (fun c g => ∃ several, g = buildGroup rules (c.map fun i => ordered[i]) several) classes
        (capabilityGroups rules ordered (joinCapabilities rules cosine minSimilarity ordered step)) := by
  obtain ⟨hcomponents, hbefore⟩ := components_gathered (capabilities_joined hsymm ordered hstep)
    (List.pairwise_lt_finRange _) List.mem_finRange
  refine ⟨_, hcomponents, hbefore, ?_⟩
  rw [capabilityGroups_eq hordered hbefore]
  exact forall₂_build (buildGroup rules)

/-- Two loops that add the same pairs make the same groups. -/
theorem capabilityGroups_congr (hsymm : ∀ x y, cosine x y = cosine y x) {ordered : List (CapabilityRecord Emb)}
    (hordered : ordered.Pairwise fun a b => a.id ≤ b.id) {step step' : PairStep ordered.length} (hstep : Adds step)
    (hstep' : Adds step') :
    capabilityGroups rules ordered (joinCapabilities rules cosine minSimilarity ordered step) =
      capabilityGroups rules ordered (joinCapabilities rules cosine minSimilarity ordered step') := by
  obtain ⟨hcomponents, hbefore⟩ := components_gathered (capabilities_joined hsymm ordered hstep)
    (List.pairwise_lt_finRange _) List.mem_finRange
  obtain ⟨hcomponents', hbefore'⟩ := components_gathered (capabilities_joined hsymm ordered hstep')
    (List.pairwise_lt_finRange _) List.mem_finRange
  rw [capabilityGroups_eq hordered hbefore, capabilityGroups_eq hordered hbefore']
  exact build_congr (hcomponents.eq FirstBefore.asymm hcomponents' hbefore hbefore')

/-! ### One Role -/

/-- The positions of a Role's Obligations. -/
def positions (ordered : List ObligationRecord) (roleId : String) : List (Fin ordered.length) :=
  (List.finRange ordered.length).filter fun i => ordered[i].roleId = roleId

theorem filter_positions (ordered : List ObligationRecord) (roleId : String) :
    ordered.filter (fun o => o.roleId = roleId) = (positions ordered roleId).map fun i => ordered[i] := by
  conv_lhs => rw [← List.map_getElem_finRange ordered]
  rw [List.filter_map]
  rfl

theorem roleGroups_eq (step : ∀ n, PairStep n) (roleId : String) (members : List ObligationRecord) :
    List.Forall₂ (fun c g => ∃ several, g = obligationGroup rules roleId (c.map fun i => members[i]) several)
      (classesOf (joinObligations rules members (step members.length)) (List.finRange members.length))
      (roleGroups rules step roleId members) := by
  refine (@forall₂_build _ _ _ _ id (joinObligations rules members (step members.length))
    (List.finRange members.length) _ fun indexes several => obligationGroup rules roleId
      (indexes.map fun i => members[i]) (by rwa [List.length_map])).imp fun c g h => ?_
  obtain ⟨several, rfl⟩ := h
  exact ⟨by simpa using several, by simp only [List.map_id]⟩

/-- **The groups of one Role** are made of the classes of the links among its Obligations. -/
theorem role_groups {step : ∀ n, PairStep n} (hstep : ∀ n, Adds (step n)) (ordered : List ObligationRecord)
    (roleId : String) :
    ∃ classes : List (List (Fin ordered.length)), ComponentsOn (fun i => ordered[i].roleId = roleId)
        (fun i j => LinkedObligations rules ordered[i] ordered[j]) classes ∧
      classes.Pairwise (FirstBefore id) ∧
      List.Forall₂ (fun c g => ∃ several, (∀ i ∈ c, ordered[i].roleId = roleId) ∧
        g = obligationGroup rules roleId (c.map fun i => ordered[i]) several) classes
        (roleGroups rules step roleId (ordered.filter fun o => o.roleId = roleId)) := by
  rw [filter_positions]
  have hpositions : ∀ i, i ∈ positions ordered roleId ↔ ordered[i].roleId = roleId := by
    intro i
    unfold positions
    rw [List.mem_filter, decide_eq_true_eq]
    exact and_iff_right (List.mem_finRange i)
  have hsorted : (positions ordered roleId).Pairwise (· < ·) :=
    (List.pairwise_lt_finRange _).sublist List.filter_sublist
  generalize positions ordered roleId = indexes at hpositions hsorted
  have hlength : (indexes.map fun i => ordered[i]).length = indexes.length := List.length_map ..
  let e : Fin (indexes.map fun i => ordered[i]).length → Fin ordered.length := fun k => indexes.get (k.cast hlength)
  have hmember : ∀ k, (indexes.map fun i => ordered[i])[k] = ordered[e k] := fun k => List.getElem_map ..
  have he : StrictMono e := fun k l hkl => List.pairwise_iff_getElem.1 hsorted k l _ _ hkl
  have hrole : ∀ k, ordered[e k].roleId = roleId := fun k => (hpositions _).1 (List.getElem_mem _)
  have hrange : ∀ i, (∃ k, e k = i) ↔ ordered[i].roleId = roleId := by
    intro i
    constructor
    · rintro ⟨k, rfl⟩
      exact hrole k
    · intro hi
      obtain ⟨n, hn, heq⟩ := List.mem_iff_getElem.1 ((hpositions i).2 hi)
      exact ⟨⟨n, hlength ▸ hn⟩, heq⟩
  obtain ⟨hcomponents, hbefore⟩ := components_gathered
    (@obligations_joined rules (indexes.map fun i => ordered[i]) _ (hstep _))
    (List.pairwise_lt_finRange _) List.mem_finRange
  have hreindexed := hcomponents.reindex (r := fun i j => LinkedObligations rules ordered[i] ordered[j]) he
    (fun k l => ?_) (fun k j h => ?_)
  · refine ⟨_, ⟨hreindexed.sorted, hreindexed.several, fun c hc i hi => (hrange i).1 (hreindexed.within c hc i hi),
      hreindexed.closed, fun i j hi => hreindexed.covered i j ((hrange i).2 hi), hreindexed.disjoint⟩, ?_, ?_⟩
    · refine List.pairwise_map.2 (hbefore.imp fun {c d} h => ?_)
      obtain ⟨k, hk, l, hl, hlt⟩ := h
      rw [Option.mem_def] at hk hl
      exact ⟨e k, by rw [List.head?_map, hk]; rfl, e l, by rw [List.head?_map, hl]; rfl, he hlt⟩
    · refine List.forall₂_map_left_iff.2 ((roleGroups_eq step roleId _).imp fun c g h => ?_)
      obtain ⟨several, rfl⟩ := h
      have heq : (c.map e).map (fun i => ordered[i]) = c.map fun k => (indexes.map fun i => ordered[i])[k] := by
        rw [List.map_map]
        exact List.map_congr_left fun k _ => (hmember k).symm
      refine ⟨by rwa [heq], fun i hi => ?_, by simp only [heq]⟩
      obtain ⟨k, -, rfl⟩ := List.mem_map.1 hi
      exact hrole k
  · rw [hmember, hmember]
    unfold LinkedObligations
    rw [hrole, hrole]
    exact (and_iff_right rfl).symm
  · rw [hrange]
    rcases h with h | h
    · exact h.1.symm.trans (hrole k)
    · exact h.1.trans (hrole k)

/-- The Roles with their Obligations, in the order of their ids. -/
theorem sorted_roles (ordered : List ObligationRecord) :
    ∃ keys : List String, keys.Pairwise (· < ·) ∧ (∀ o ∈ ordered, o.roleId ∈ keys) ∧
      StableSort.sortBy Prod.fst (Grouped.grouped ObligationRecord.roleId ordered) =
        keys.map fun k => (k, ordered.filter fun o => o.roleId = k) := by
  have hperm := @StableSort.sortBy_perm _ _ _ Prod.fst (Grouped.grouped ObligationRecord.roleId ordered)
  have hle := @StableSort.sortBy_pairwise _ _ _ Prod.fst (Grouped.grouped ObligationRecord.roleId ordered)
  have hmem : ∀ entry, entry ∈ StableSort.sortBy Prod.fst (Grouped.grouped ObligationRecord.roleId ordered) ↔
      entry.1 ∈ ordered.map ObligationRecord.roleId ∧ entry.2 = ordered.filter fun o => o.roleId = entry.1 :=
    fun entry => hperm.mem_iff.trans Grouped.mem_grouped
  have hnodup : ((StableSort.sortBy Prod.fst (Grouped.grouped ObligationRecord.roleId ordered)).map Prod.fst).Nodup := by
    refine (hperm.map Prod.fst).nodup_iff.2 ?_
    rw [Grouped.grouped_eq, List.map_map]
    exact (List.map_id (FirstWins.collect id (ordered.map ObligationRecord.roleId))).symm ▸ FirstWins.nodup_collect_id
  generalize StableSort.sortBy Prod.fst (Grouped.grouped ObligationRecord.roleId ordered) = sorted at hle hmem hnodup
  refine ⟨sorted.map Prod.fst, ?_, fun o ho => ?_, ?_⟩
  · refine List.pairwise_map.2 ((hle.and (List.pairwise_map.1 hnodup)).imp fun h => ?_)
    exact lt_of_le_of_ne h.1 h.2
  · have hentry := (hmem (o.roleId, ordered.filter fun p => p.roleId = o.roleId)).2 ⟨List.mem_map_of_mem ho, rfl⟩
    exact List.mem_map_of_mem hentry
  · rw [List.map_map]
    exact (List.map_id _).symm.trans (List.map_congr_left fun entry hentry => Prod.ext rfl ((hmem entry).1 hentry).2)

/-- **The Obligation groups** are made of the classes of the links, by Role and first position. -/
theorem obligation_groups {step : ∀ n, PairStep n} (hstep : ∀ n, Adds (step n)) (obligations : List ObligationRecord)
    {ordered : List ObligationRecord} (hordered : ordered = StableSort.sortBy ObligationRecord.id obligations) :
    ∃ classes : List (List (Fin ordered.length)),
      Components (fun i j => LinkedObligations rules ordered[i] ordered[j]) classes ∧
      classes.Pairwise (FirstBefore fun i => toLex (ordered[i].roleId, i)) ∧
      List.Forall₂ (fun c g => ∃ roleId several, (∀ i ∈ c, ordered[i].roleId = roleId) ∧
        g = obligationGroup rules roleId (c.map fun i => ordered[i]) several) classes
        (obligationGroups rules step obligations) := by
  obtain ⟨keys, hkeys, hcover, hroles⟩ := sorted_roles ordered
  choose parts hparts hbefore hgroups using @role_groups rules _ hstep ordered
  have hcomponents := ComponentsOn.flatMap (hkeys.imp ne_of_lt)
    (fun i : Fin ordered.length => hcover ordered[i] (List.getElem_mem _)) fun k _ => hparts k
  refine ⟨keys.flatMap parts, hcomponents, ?_, ?_⟩
  · refine List.pairwise_flatMap.2 ⟨fun k _ => ?_, hkeys.imp fun {k l} hlt c hc d hd => ?_⟩
    · refine (hbefore k).imp_of_mem fun {c d} hc hd h => ?_
      obtain ⟨i, hi, j, hj, hlt⟩ := h
      refine ⟨i, hi, j, hj, Prod.Lex.toLex_lt_toLex.2 (.inr ⟨?_, hlt⟩)⟩
      exact ((hparts k).within c hc i (List.mem_of_mem_head? hi)).trans
        ((hparts k).within d hd j (List.mem_of_mem_head? hj)).symm
    · have hhead : ∀ {k c}, c ∈ parts k → ∃ i ∈ c.head?, ordered[i].roleId = k := by
        intro k c hc
        have hsome := (hparts k).several c hc
        cases c with
        | nil => exact absurd hsome (by simp)
        | cons i c => exact ⟨i, rfl, (hparts k).within _ hc i (List.mem_cons_self ..)⟩
      obtain ⟨i, hi, hik⟩ := hhead hc
      obtain ⟨j, hj, hjl⟩ := hhead hd
      refine ⟨i, hi, j, hj, Prod.Lex.toLex_lt_toLex.2 (.inl ?_)⟩
      rw [hik, hjl]
      exact hlt
  · unfold obligationGroups
    simp only [← hordered, hroles, List.flatMap_map]
    clear hkeys hcover hroles hcomponents
    induction keys with
    | nil => exact .nil
    | cons k keys ih =>
      rw [List.flatMap_cons, List.flatMap_cons]
      refine List.rel_append ((hgroups k).imp fun c g h => ?_) ih
      obtain ⟨several, hrole, hg⟩ := h
      exact ⟨k, several, hrole, hg⟩

/-- Two loops that add the same pairs make the same groups. -/
theorem obligationGroups_congr {step step' : ∀ n, PairStep n} (hstep : ∀ n, Adds (step n))
    (hstep' : ∀ n, Adds (step' n)) (obligations : List ObligationRecord) :
    obligationGroups rules step obligations = obligationGroups rules step' obligations := by
  have hrole : ∀ roleId members, roleGroups rules step roleId members = roleGroups rules step' roleId members := by
    intro roleId members
    obtain ⟨hcomponents, hbefore⟩ := components_gathered (@obligations_joined rules members _ (hstep _))
      (List.pairwise_lt_finRange _) List.mem_finRange
    obtain ⟨hcomponents', hbefore'⟩ := components_gathered (@obligations_joined rules members _ (hstep' _))
      (List.pairwise_lt_finRange _) List.mem_finRange
    unfold roleGroups
    exact build_congr (hcomponents.eq FirstBefore.asymm hcomponents' hbefore hbefore')
  unfold obligationGroups
  simp only [hrole]

/-- **The duplicate groups** are made of the classes of two or more linked records; no pair that is skipped changes
them, and neither does the order of records with distinct ids. -/
theorem duplicate_groups_exact (rules : TextRules) (cosine : Cosine Emb Score) (hsymm : ∀ x y, cosine x y = cosine y x)
    (minSimilarity : Score) :
    (∀ capabilities ordered, ordered = StableSort.sortBy CapabilityRecord.id capabilities →
      (∃ classes : List (List (Fin ordered.length)),
        Components (fun i j => LinkedCapabilities rules cosine minSimilarity ordered[i] ordered[j]) classes ∧
        classes.Pairwise (FirstBefore id) ∧
        List.Forall₂ (fun c g => ∃ several, g = buildGroup rules (c.map fun i => ordered[i]) several) classes
          (groupCapabilities rules cosine minSimilarity capabilities)) ∧
      groupCapabilities rules cosine minSimilarity capabilities =
        groupCapabilitiesUnskipped rules cosine minSimilarity capabilities ∧
      ((capabilities.map CapabilityRecord.id).Nodup → ∀ other, capabilities.Perm other →
        groupCapabilities rules cosine minSimilarity other = groupCapabilities rules cosine minSimilarity capabilities)) ∧
    ∀ obligations ordered, ordered = StableSort.sortBy ObligationRecord.id obligations →
      (∃ classes : List (List (Fin ordered.length)),
        Components (fun i j => LinkedObligations rules ordered[i] ordered[j]) classes ∧
        classes.Pairwise (FirstBefore fun i => toLex (ordered[i].roleId, i)) ∧
        List.Forall₂ (fun c g => ∃ roleId several, (∀ i ∈ c, ordered[i].roleId = roleId) ∧
          g = obligationGroup rules roleId (c.map fun i => ordered[i]) several) classes
          (groupDuplicateObligations rules obligations)) ∧
      groupDuplicateObligations rules obligations = groupDuplicateObligationsUnskipped rules obligations ∧
      ((obligations.map ObligationRecord.id).Nodup → ∀ other, obligations.Perm other →
        groupDuplicateObligations rules other = groupDuplicateObligations rules obligations) := by
  refine ⟨fun capabilities ordered hordered => ?_, fun obligations ordered hordered => ?_⟩
  · subst hordered
    have hsorted := @StableSort.sortBy_pairwise _ _ _ CapabilityRecord.id capabilities
    refine ⟨capability_groups hsymm hsorted adds_scoreStep, ?_, fun hnodup other hperm => ?_⟩
    · exact capabilityGroups_congr hsymm hsorted adds_scoreStep adds_scoreEvery
    · have huntied : StableSort.Untied CapabilityRecord.id capabilities :=
        fun a ha b hb => List.inj_on_of_nodup_map hnodup ha hb
      unfold groupCapabilities
      rw [huntied.sortBy_eq hperm]
  · refine ⟨obligation_groups (fun _ => adds_scoreStep) obligations hordered, ?_, fun hnodup other hperm => ?_⟩
    · exact obligationGroups_congr (fun _ => adds_scoreStep) (fun _ => adds_scoreEvery) obligations
    · have huntied : StableSort.Untied ObligationRecord.id obligations :=
        fun a ha b hb => List.inj_on_of_nodup_map hnodup ha hb
      unfold groupDuplicateObligations obligationGroups
      rw [huntied.sortBy_eq hperm]

/-- Case folding and word characters of ASCII. -/
def asciiText : TextRules := ⟨String.toLower, fun c => c.isAlphanum || c = '_'⟩

/-- The cosine of two numbers, as vectors of one component. -/
def lineCosine (x y : ℤ) : Option ℤ := if x = 0 ∨ y = 0 then none else some (x.sign * y.sign)

/-- Two records of one name. -/
def riskRecord (id : String) : CapabilityRecord ℤ := ⟨id, "Risk management", none, none, 0⟩

theorem duplicate_groups_exact_pair :
    groupCapabilities asciiText lineCosine 1 [riskRecord "cap_b", riskRecord "cap_a"] =
      groupCapabilities asciiText lineCosine 1 [riskRecord "cap_a", riskRecord "cap_b"] := by
  have hsymm : ∀ x y, lineCosine x y = lineCosine y x := by
    intro x y
    unfold lineCosine
    simp only [or_comm, mul_comm]
  have hgroups := (duplicate_groups_exact asciiText lineCosine hsymm 1).1
    [riskRecord "cap_a", riskRecord "cap_b"] _ rfl
  exact hgroups.2.2 (by decide) _ (.swap ..)

end Groups

end PolicySystem.Discovery
