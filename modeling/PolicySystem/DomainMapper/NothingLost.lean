import PolicySystem.DomainMapper.Extraction
import PolicySystem.DomainMapper.WellFormed

/-!
# What domain mapping loses

A duty found by the model is lost without a report in three ways: a text met before at its citation is taken for a
duplicate although another Role bears it; the id of a further text at one citation is the id of another citation; and
an answer that lists no Capability leaves its Obligation without edge and report.

* `duties_kept_iff`, `ids_distinct_iff`, `obligations_accounted_iff`: each is the only way;
* `nothing_lost_iff`: **nothing is lost exactly when none of the three happens.**
-/

namespace PolicySystem.DomainMapper

open LastWins (under)

/-! ## Duties -/

section Requirements

variable {rules : StringRules} {rid : String} {candidates : List RequirementCandidate} {g : RequirementGraph}

/-- Each candidate's text is on a Requirement of its Role. -/
def DutiesKept (rules : StringRules) (rid : String) (candidates : List RequirementCandidate) (g : RequirementGraph) : Prop :=
  ∀ c ∈ candidates, ∃ node ∈ g.nodes, node.text = c.text ∧ node.roleId = roleOf rules rid c.roleName

instance : Decidable (DutiesKept rules rid candidates g) :=
  inferInstanceAs (Decidable (∀ c ∈ candidates, ∃ node ∈ g.nodes, node.text = c.text ∧ node.roleId = roleOf rules rid c.roleName))

/-- Each candidate's text is, for its Role, the first of its citation and text somewhere. -/
def NoForeignDuplicate (rules : StringRules) (rid : String) (candidates : List RequirementCandidate) : Prop :=
  ∀ c ∈ candidates, ∃ d ∈ candidates, under (duty rid) (duty rid d) candidates = some d ∧ d.text = c.text ∧
    roleOf rules rid d.roleName = roleOf rules rid c.roleName

/-- **Only a text taken for another Role's duplicate is lost.** -/
theorem duties_kept_iff (hg : Built rules rid candidates g) :
    DutiesKept rules rid candidates g ↔ NoForeignDuplicate rules rid candidates := by
  have hnode : ∀ text role, (∃ node ∈ g.nodes, node.text = text ∧ node.roleId = role) ↔
      ∃ d ∈ firsts rid candidates, d.text = text ∧ roleOf rules rid d.roleName = role := by
    intro text role
    have hmem : (text, role) ∈ g.nodes.map (fun n => (n.text, n.roleId)) ↔
        (text, role) ∈ (firsts rid candidates).map fun c => (c.text, roleOf rules rid c.roleName) := by rw [hg.duties]
    simpa only [List.mem_map, Prod.mk.injEq] using hmem
  have hfirst : ∀ d, d ∈ firsts rid candidates ↔ d ∈ candidates ∧ under (duty rid) (duty rid d) candidates = some d := by
    intro d
    exact ⟨fun h => ⟨FirstWins.mem_of_mem_collect h, FirstWins.mem_collect.1 h⟩, fun h => FirstWins.mem_collect.2 h.2⟩
  unfold DutiesKept NoForeignDuplicate
  simp only [hnode, hfirst, and_assoc]

/-! ## Ids -/

/-- The texts of a citation. -/
def textsAt (rid : String) (candidates : List RequirementCandidate) (base : String) : Finset String :=
  ((candidates.filter (baseId rid · = base)).map (·.text)).toFinset

/-- No citation's id is that of a further text of another citation. -/
def NoCounterLookalike (rid : String) (candidates : List RequirementCandidate) : Prop :=
  ∀ c ∈ candidates, ∀ d ∈ candidates, ∀ n, 2 ≤ n → n ≤ (textsAt rid candidates (baseId rid d)).card →
    baseId rid c ≠ baseId rid d ++ "#" ++ toString n

/-- As many first candidates have a citation as there are texts of it. -/
theorem count_firsts (base : String) :
    ((firsts rid candidates).map (baseId rid)).count base = (textsAt rid candidates base).card := by
  have hnodup : (((firsts rid candidates).filter (baseId rid · = base)).map (·.text)).Nodup := by
    have hduties : ((firsts rid candidates).map (duty rid)).Nodup := FirstWins.nodup_collect
    have hpairs : (((firsts rid candidates).filter (baseId rid · = base)).map (duty rid)).Nodup :=
      hduties.sublist (List.Sublist.map _ List.filter_sublist)
    refine List.Nodup.of_map (fun text => (base, text)) ?_
    rw [List.map_map]
    refine (List.map_congr_left fun c hc => ?_) ▸ hpairs
    exact Prod.ext (of_decide_eq_true (List.mem_filter.1 hc).2) rfl
  have hset : (((firsts rid candidates).filter (baseId rid · = base)).map (·.text)).toFinset =
      textsAt rid candidates base := by
    ext text
    unfold textsAt
    simp only [List.mem_toFinset, List.mem_map, List.mem_filter, decide_eq_true_eq]
    constructor
    · rintro ⟨c, ⟨hc, hbase⟩, htext⟩
      exact ⟨c, ⟨FirstWins.mem_of_mem_collect hc, hbase⟩, htext⟩
    · rintro ⟨c, ⟨hc, hbase⟩, htext⟩
      obtain ⟨d, hd, heq⟩ : ∃ d ∈ FirstWins.collect (duty rid) _, duty rid d = duty rid c := FirstWins.exists_first hc
      obtain ⟨hdbase, hdtext⟩ := Prod.mk.inj heq
      exact ⟨d, ⟨hd, hdbase.trans hbase⟩, hdtext.trans htext⟩
  rw [← hset, List.toFinset_card_of_nodup hnodup, List.length_map, List.count_eq_length_filter, List.filter_map,
    List.length_map]
  rfl

theorem hash_not_mem_toString (n : ℕ) : '#' ∉ (toString n).toList := by
  intro hmem
  rw [Nat.toString_eq_ofList_toDigits, String.toList_ofList] at hmem
  exact absurd (Nat.isDigit_of_mem_toDigits (by omega) (by omega) hmem) (by decide)

theorem toString_injective {m n : ℕ} (h : toString m = toString n) : m = n := by
  rw [Nat.toString_eq_ofList_toDigits, Nat.toString_eq_ofList_toDigits] at h
  have hdigits := congrArg (fun cs => Nat.ofDigitChars 10 cs 0) (String.ofList_injective h)
  simpa only [Nat.ofDigitChars_ten_toDigits] using hdigits

/-- The ids of further texts are told apart. -/
theorem counter_injective {base base' : String} {m n : ℕ} (h : base ++ "#" ++ toString m = base' ++ "#" ++ toString n) :
    base = base' ∧ m = n := by
  have hchars := congrArg String.toList h
  simp only [String.toList_append] at hchars
  have hjoin : base.toList ++ '#' :: (toString m).toList = base'.toList ++ '#' :: (toString n).toList := by
    simpa using hchars
  obtain ⟨hbase, hnumber⟩ := (Text.join_inj (hash_not_mem_toString m) (hash_not_mem_toString n)).1 hjoin
  exact ⟨String.toList_inj.1 hbase, toString_injective (String.toList_inj.1 hnumber)⟩

/-- **Only a further text's id that is another citation's collides.** -/
theorem ids_distinct_iff (hg : Built rules rid candidates g) :
    (g.nodes.map (·.id)).Nodup ↔ NoCounterLookalike rid candidates := by
  rw [hg.ids, List.nodup_map_iff_inj_on FirstWins.nodup_numbered]
  have hplace : ∀ base n, (base, n) ∈ FirstWins.numbered ((firsts rid candidates).map (baseId rid)) ↔
      1 ≤ n ∧ n ≤ (textsAt rid candidates base).card := by
    intro base n
    rw [FirstWins.mem_numbered, count_firsts]
  have hfurther : ∀ (base : String) (n : ℕ), 2 ≤ n → finalId base n = base ++ "#" ++ toString n :=
    fun base n hn => if_neg (by omega)
  have hbase : ∀ base, 1 ≤ (textsAt rid candidates base).card ↔ ∃ c ∈ candidates, baseId rid c = base := by
    intro base
    rw [Nat.one_le_iff_ne_zero, Ne, Finset.card_eq_zero, ← Ne, ← Finset.nonempty_iff_ne_empty]
    unfold textsAt
    constructor
    · rintro ⟨text, htext⟩
      obtain ⟨c, hc, -⟩ := List.mem_map.1 (List.mem_toFinset.1 htext)
      exact ⟨c, (List.mem_filter.1 hc).1, of_decide_eq_true (List.mem_filter.1 hc).2⟩
    · rintro ⟨c, hc, heq⟩
      exact ⟨c.text, List.mem_toFinset.2 (List.mem_map_of_mem (List.mem_filter.2 ⟨hc, decide_eq_true heq⟩))⟩
  constructor
  · intro hinj c hc d hd n hn hcard heq
    have hone : (baseId rid c, 1) ∈ FirstWins.numbered ((firsts rid candidates).map (baseId rid)) :=
      (hplace _ _).2 ⟨Nat.le_refl 1, (hbase _).2 ⟨c, hc, rfl⟩⟩
    have hmany : (baseId rid d, n) ∈ FirstWins.numbered ((firsts rid candidates).map (baseId rid)) :=
      (hplace _ _).2 ⟨by omega, hcard⟩
    have hpair := hinj _ hone _ hmany (heq.trans (hfurther _ n hn).symm)
    have hnumber : 1 = n := (Prod.mk.inj hpair).2
    omega
  · rintro hno ⟨base, m⟩ hm ⟨base', n⟩ hn heq
    obtain ⟨hm1, hmcard⟩ := (hplace _ _).1 hm
    obtain ⟨hn1, hncard⟩ := (hplace _ _).1 hn
    simp only at heq
    obtain ⟨c, hc, rfl⟩ := (hbase base).1 (by omega)
    obtain ⟨d, hd, rfl⟩ := (hbase base').1 (by omega)
    rcases Nat.lt_or_ge m 2 with hm2 | hm2 <;> rcases Nat.lt_or_ge n 2 with hn2 | hn2
    · obtain rfl : m = 1 := by omega
      obtain rfl : n = 1 := by omega
      exact Prod.ext heq rfl
    · obtain rfl : m = 1 := by omega
      exact absurd (heq.trans (hfurther _ n hn2)) (hno c hc d hd n hn2 hncard)
    · obtain rfl : n = 1 := by omega
      exact absurd (heq.symm.trans (hfurther _ m hm2)) (hno d hd c hc m hm2 hmcard)
    · rw [hfurther _ m hm2, hfurther _ n hn2] at heq
      obtain ⟨hsame, rfl⟩ := counter_injective heq
      rw [hsame]

end Requirements

/-! ## Obligations -/

section Obligations

variable {rules : AnswerRules} {answers : ℕ → ObligationAnswers} {obligations : List ObligationNode}
  {c : CapabilityDerivationState}

/-- Each Obligation requires a Capability or is reported. -/
def ObligationsAccounted (obligations : List ObligationNode) (c : CapabilityDerivationState) : Prop :=
  ∀ o ∈ obligations, (∃ edge ∈ c.requiresEdges, edge.obligationNodeId = o.id) ∨ o.id ∈ c.unmatchedObligationIds

instance : Decidable (ObligationsAccounted obligations c) :=
  inferInstanceAs (Decidable (∀ o ∈ obligations, (∃ edge ∈ c.requiresEdges, edge.obligationNodeId = o.id) ∨
    o.id ∈ c.unmatchedObligationIds))

/-- No distinct Obligation's answer lists no Capability. -/
def NoEmptyAnswer (rules : AnswerRules) (answers : ℕ → ObligationAnswers) (obligations : List ObligationNode) : Prop :=
  ∀ k < (distinctObligations obligations).length, loadCapabilityItems rules (answers k).answer ≠ .ok []

theorem length_of_mapM_ok {α β : Type} {f : α → Except Failure β} {xs : List α} {ys : List β} (h : xs.mapM f = .ok ys) :
    xs.length = ys.length := by
  induction xs generalizing ys with
  | nil =>
    cases h
    rfl
  | cons x xs ih =>
    rw [List.mapM_cons] at h
    obtain ⟨y, -, h⟩ := bind_ok h
    obtain ⟨zs, hzs, h⟩ := bind_ok h
    cases h
    rw [List.length_cons, List.length_cons, ih hzs]

/-- An answer gives no decision exactly when it lists no Capability. -/
theorem resolve_nil_iff {id : String} {registry : List CapabilityEntry} {a : ObligationAnswers} :
    resolveDecisions rules id registry a = .ok [] ↔ loadCapabilityItems rules a.answer = .ok [] := by
  constructor
  · intro h
    obtain ⟨proposed, hproposed, h⟩ := bind_ok h
    obtain ⟨items, hitems, hproposed⟩ := bind_ok hproposed
    have hlength := (length_of_mapM_ok hproposed).trans ((List.length_zipIdx ..).symm.trans (length_of_mapM_ok h))
    rw [hitems, List.length_eq_zero_iff.1 hlength]
  · intro h
    unfold resolveDecisions parseCapabilityResponse
    rw [h]
    rfl

/-- **Only an answer that lists no Capability leaves an Obligation unaccounted.** -/
theorem obligations_accounted_iff (h : deriveCapabilities rules answers obligations = some c) :
    ObligationsAccounted obligations c ↔ NoEmptyAnswer rules answers obligations := by
  obtain ⟨-, hall⟩ := deriveCapabilities_sound h
  have hedges : ∀ id, (∃ edge ∈ c.requiresEdges, edge.obligationNodeId = id) ↔ requiresOf c id ≠ [] := by
    intro id
    unfold requiresOf
    rw [Ne, List.map_eq_nil_iff, List.filter_eq_nil_iff]
    simp
  have hone : ∀ k o, (distinctObligations obligations)[k]? = some o →
      (requiresOf c o.1 ≠ [] ∨ o.1 ∈ c.unmatchedObligationIds ↔ loadCapabilityItems rules (answers k).answer ≠ .ok []) := by
    intro k o hk
    obtain ⟨before, -, hanswered⟩ := hall k o hk
    rcases hanswered with ⟨decisions, hok, hrequires, hmissing, -⟩ | ⟨herror, -, hcount⟩
    · rw [hrequires, Ne, List.map_eq_nil_iff, or_iff_left hmissing, Ne, ← @resolve_nil_iff rules o.1 before.registry, hok,
        Except.ok.injEq]
    · refine iff_of_true (.inr (List.count_pos_iff.1 (by omega))) fun hempty => ?_
      have hnil := (@resolve_nil_iff rules o.1 before.registry _).2 hempty
      rw [herror] at hnil
      cases hnil
  unfold ObligationsAccounted NoEmptyAnswer
  simp only [hedges]
  constructor
  · intro hacc k hk
    have hget := List.getElem?_eq_getElem hk
    refine (hone k _ hget).1 ?_
    have hkey : (distinctObligations obligations)[k].1 ∈ (distinctObligations obligations).map Prod.fst :=
      List.mem_map_of_mem (List.getElem_mem hk)
    have hid := FirstWins.mem_keys_collect.1 hkey
    rw [List.map_map] at hid
    obtain ⟨o, ho, heq⟩ := List.mem_map.1 hid
    exact heq ▸ hacc o ho
  · intro hno o ho
    have hkey : o.id ∈ (distinctObligations obligations).map Prod.fst := by
      refine FirstWins.mem_keys_collect.2 ?_
      rw [List.map_map]
      exact List.mem_map_of_mem ho
    obtain ⟨found, hfound, heq⟩ := List.mem_map.1 hkey
    obtain ⟨k, hk⟩ := List.mem_iff_getElem?.1 hfound
    have hlt : k < (distinctObligations obligations).length := (List.getElem?_eq_some_iff.1 hk).1
    exact heq ▸ (hone k found hk).2 (hno k hlt)

end Obligations

/-! ## Both -/

/-- Domain mapping loses nothing without a report. -/
structure NothingLost (rules : AnswerRules) (rid : String) (actors : List RequirementCandidate) (e : Extraction)
    (obligations : List ObligationNode) (c : CapabilityDerivationState) : Prop where
  duties : DutiesKept rules.toStringRules rid actors e.requirements
  ids : (e.requirements.nodes.map (·.id)).Nodup
  accounted : ObligationsAccounted obligations c

/-- **Nothing is lost exactly when** no text is taken for another Role's duplicate, no citation looks like a further
text of another, and no Obligation's answer lists no Capability. -/
theorem nothing_lost_iff (rules : AnswerRules) (rid : String) (candidates : List RequirementCandidate)
    (terms : List DefinedTermCandidate) (answers : ℕ → ObligationAnswers) (obligations : List ObligationNode)
    (c : CapabilityDerivationState) (h : deriveCapabilities rules answers obligations = some c) :
    ∃ e, extractRolesAndRequirements rules.toStringRules rid candidates terms = some e ∧
      (NothingLost rules rid (dropNonActorCandidates candidates).1 e obligations c ↔
        NoForeignDuplicate rules.toStringRules rid (dropNonActorCandidates candidates).1 ∧
        NoCounterLookalike rid (dropNonActorCandidates candidates).1 ∧ NoEmptyAnswer rules answers obligations) := by
  obtain ⟨e, hrun, hg⟩ := extraction_built rules.toStringRules rid candidates terms
  refine ⟨e, hrun, ?_, ?_⟩
  · intro hlost
    exact ⟨(duties_kept_iff hg).1 hlost.duties, (ids_distinct_iff hg).1 hlost.ids,
      (obligations_accounted_iff h).1 hlost.accounted⟩
  · rintro ⟨hduplicate, hcounter, hempty⟩
    exact ⟨(duties_kept_iff hg).2 hduplicate, (ids_distinct_iff hg).2 hcounter, (obligations_accounted_iff h).2 hempty⟩

/-- A duty found in Article 13(1). -/
def foundDuty (roleName text : String) (letter : Option String) (hrole : roleName ≠ "") (htext : text ≠ "") :
    RequirementCandidate :=
  ⟨"Article 13(1)", "13", "1", roleName, true, text, .requirement, letter, half, hrole, htext⟩

/-- One duty of two actors. -/
def sharedDuty : List RequirementCandidate :=
  [foundDuty "Manufacturer" "Keep records." none (by decide) (by decide),
    foundDuty "Importer" "Keep records." none (by decide) (by decide)]

/-- Two duties of one citation, and one whose letter looks like a counter. -/
def counterDuties : List RequirementCandidate :=
  [foundDuty "Manufacturer" "Keep records." none (by decide) (by decide),
    foundDuty "Manufacturer" "Report incidents." none (by decide) (by decide),
    foundDuty "Manufacturer" "Appoint a contact." (some "#2") (by decide) (by decide)]

def oneObligation : List ObligationNode := [⟨"obl_keep_records_aa7d8f", "Keep Records", half⟩]

/-- **Duties lost without a report**: a duty of two actors is kept for the first only; two Requirements take one id; an
Obligation whose answer lists no Capability has no edge and is not reported. -/
theorem duties_lost :
    (∃ e, extractRolesAndRequirements sampleRules.toStringRules "CRA-1.0" sharedDuty [] = some e ∧
      ¬ DutiesKept sampleRules.toStringRules "CRA-1.0" (dropNonActorCandidates sharedDuty).1 e.requirements) ∧
    (∃ e, extractRolesAndRequirements sampleRules.toStringRules "CRA-1.0" counterDuties [] = some e ∧
      ¬ (e.requirements.nodes.map (·.id)).Nodup) ∧
    ∃ c, deriveCapabilities sampleRules (fun _ => ⟨sampleAnswer 5, sampleAnswer⟩) oneObligation = some c ∧
      ¬ ObligationsAccounted oneObligation c := by
  have hshared : (extractRolesAndRequirements sampleRules.toStringRules "CRA-1.0" sharedDuty []).map (fun e =>
      decide (DutiesKept sampleRules.toStringRules "CRA-1.0" (dropNonActorCandidates sharedDuty).1 e.requirements)) =
      some false := by decide +kernel
  have hcounter : (extractRolesAndRequirements sampleRules.toStringRules "CRA-1.0" counterDuties []).map (fun e =>
      decide (e.requirements.nodes.map (·.id)).Nodup) = some false := by decide +kernel
  have hempty : (deriveCapabilities sampleRules (fun _ => ⟨sampleAnswer 5, sampleAnswer⟩) oneObligation).map (fun c =>
      decide (ObligationsAccounted oneObligation c)) = some false := by decide +kernel
  obtain ⟨e, he, hlost⟩ := Option.map_eq_some_iff.1 hshared
  obtain ⟨e', he', hids⟩ := Option.map_eq_some_iff.1 hcounter
  obtain ⟨c, hc, hsilent⟩ := Option.map_eq_some_iff.1 hempty
  exact ⟨⟨e, he, of_decide_eq_false hlost⟩, ⟨e', he', of_decide_eq_false hids⟩, c, hc, of_decide_eq_false hsilent⟩

/-- One duty of two actors, as two lettered duties. -/
def letteredDuties : List RequirementCandidate :=
  [foundDuty "Manufacturer" "Keep records." (some "a") (by decide) (by decide),
    foundDuty "Importer" "Keep records." (some "b") (by decide) (by decide)]

theorem nothing_lost_iff_lettered : ∃ e c,
    extractRolesAndRequirements sampleRules.toStringRules "CRA-1.0" letteredDuties [] = some e ∧
    deriveCapabilities sampleRules (fun _ => ⟨sampleAnswer 2, sampleAnswer⟩) oneObligation = some c ∧
    NothingLost sampleRules "CRA-1.0" (dropNonActorCandidates letteredDuties).1 e oneObligation c := by
  have hsome : (deriveCapabilities sampleRules (fun _ => ⟨sampleAnswer 2, sampleAnswer⟩) oneObligation).isSome := by
    decide +kernel
  obtain ⟨c, hc⟩ := Option.isSome_iff_exists.1 hsome
  obtain ⟨e, he, hiff⟩ := nothing_lost_iff sampleRules "CRA-1.0" letteredDuties [] _ oneObligation c hc
  refine ⟨e, c, he, hc, hiff.2 ⟨?_, ?_, ?_⟩⟩
  · unfold NoForeignDuplicate
    decide +kernel
  · have hone : ∀ d ∈ (dropNonActorCandidates letteredDuties).1,
        (textsAt "CRA-1.0" (dropNonActorCandidates letteredDuties).1 (baseId "CRA-1.0" d)).card ≤ 1 := by
      decide +kernel
    intro c hc d hd n hn hcard
    have hle := hone d hd
    omega
  · intro k hk
    have hlists : loadCapabilityItems sampleRules (sampleAnswer 2) =
        .ok [.dict [("new_name", .str "Record Keeping"), ("confidence", .float half)]] := rfl
    simp only [hlists]
    intro heq
    cases heq

end PolicySystem.DomainMapper
