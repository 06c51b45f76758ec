import PolicySystem.CellarEli.Metadata
import PolicySystem.Text.Iso8601
import PolicySystem.Dict.FirstWins
import Mathlib.Data.Prod.Lex
import Mathlib.Data.List.Perm.Basic

/-!
# What the effective date depends on

* `mem_candidates`: the candidates are the admissible values, whatever order the notice is written in;
* `date_iff_wins`: the date read is that of an admissible value of the first role, the earliest of that role;
* `effective_date_order_free_iff`: the date is the same in every order of the notice if and only if all values that
  win in some order of the axioms have one date.
-/

namespace PolicySystem.CellarEli

open Xml Text

variable {reader : DateReader} {n n' : Notice} {identifier : String} {instrumentType : InstrumentType} {t t' : Triple}

/-! ## What a notice asserts -/

/-- The notice asserts the value. -/
def Notice.Asserts (n : Notice) (t : Triple) : Prop := ∃ b ∈ n.blocks, b.subject = t.subject ∧ (t.predicate, t.value) ∈ b.values

/-- The subject asserts a CELEX number of the act. -/
def Notice.IsOwn (reader : DateReader) (n : Notice) (ownId subject : String) : Prop :=
  ∃ v, n.Asserts ⟨subject, legalIdCelex, v⟩ ∧ baseCelexOrNone reader v = some ownId

/-- The subject asserts CELEX numbers, and none of them is the act's. -/
def Notice.IsForeign (reader : DateReader) (n : Notice) (ownId subject : String) : Prop :=
  (∃ v, n.Asserts ⟨subject, legalIdCelex, v⟩) ∧ ¬ n.IsOwn reader ownId subject

/-- The value may be the date: its subject is the act or, where no subject of the act has such a value, no other act. -/
structure Admissible (reader : DateReader) (n : Notice) (identifier : String) (instrumentType : InstrumentType)
    (t : Triple) : Prop where
  asserted : n.Asserts t
  predicate : t.predicate ∈ effectiveDatePredicates instrumentType
  typed : instrumentTypeFromCelex reader identifier = .ok instrumentType
  subject : ∃ ownId, baseCelex reader identifier = .ok ownId ∧
    (n.IsOwn reader ownId t.subject ∨ ¬ n.IsForeign reader ownId t.subject ∧
      ∀ own, n.Asserts own → own.predicate ∈ effectiveDatePredicates instrumentType → ¬ n.IsOwn reader ownId own.subject)

/-- The same notice in another order: of its blocks, of the values inside them, of its axioms. -/
structure Reordered (n n' : Notice) : Prop where
  blocks : ∃ bs, n.blocks.Perm bs ∧ List.Forall₂ (fun b b' => b'.subject = b.subject ∧ b.values.Perm b'.values) bs n'.blocks
  axioms : n.axioms.Perm n'.axioms

theorem Reordered.asserts (h : Reordered n n') : n'.Asserts t ↔ n.Asserts t := by
  obtain ⟨bs, hperm, hsame⟩ := h.blocks
  have hmem : ∀ {bs bs' : List Block}, List.Forall₂ (fun b b' => b'.subject = b.subject ∧ b.values.Perm b'.values) bs bs' →
      ((∃ b ∈ bs', b.subject = t.subject ∧ (t.predicate, t.value) ∈ b.values) ↔
        ∃ b ∈ bs, b.subject = t.subject ∧ (t.predicate, t.value) ∈ b.values) := by
    intro bs bs' hsame
    induction hsame with
    | nil => simp
    | cons hb _ ih => simp only [List.mem_cons, exists_eq_or_imp, ih, hb.1, hb.2.mem_iff]
  unfold Notice.Asserts
  rw [hmem hsame]
  simp only [hperm.mem_iff]

theorem Reordered.isOwn (h : Reordered n n') {ownId subject : String} :
    n'.IsOwn reader ownId subject ↔ n.IsOwn reader ownId subject := by
  unfold Notice.IsOwn
  simp only [h.asserts]

theorem Reordered.isForeign (h : Reordered n n') {ownId subject : String} :
    n'.IsForeign reader ownId subject ↔ n.IsForeign reader ownId subject := by
  unfold Notice.IsForeign
  simp only [h.asserts, h.isOwn]

theorem Reordered.admissible (h : Reordered n n') :
    Admissible reader n' identifier instrumentType t ↔ Admissible reader n identifier instrumentType t := by
  constructor
  · rintro ⟨hasserted, hpredicate, htyped, hsubject⟩
    simp only [h.asserts, h.isOwn, h.isForeign] at hasserted hsubject
    exact ⟨hasserted, hpredicate, htyped, hsubject⟩
  · rintro ⟨hasserted, hpredicate, htyped, hsubject⟩
    refine ⟨h.asserts.2 hasserted, hpredicate, htyped, ?_⟩
    simp only [h.asserts, h.isOwn, h.isForeign]
    exact hsubject

/-! ## The subject blocks -/

theorem valuesUnder_cons {name k : String} {values : List String} {predicates : List (String × List String)} :
    valuesUnder ((k, values) :: predicates) name = if k = name then values else valuesUnder predicates name := by
  unfold valuesUnder
  by_cases hk : k = name
  · rw [if_pos hk, hk, List.lookup_cons_self, Option.getD_some]
  · rw [if_neg hk, List.lookup_cons, beq_eq_false_iff_ne.2 (Ne.symm hk)]

theorem mem_append {name k v a : String} {predicates : List (String × List String)} :
    v ∈ valuesUnder (Grouped.append k a predicates) name ↔ v ∈ valuesUnder predicates name ∨ k = name ∧ v = a := by
  induction predicates with
  | nil =>
    unfold Grouped.append
    rw [valuesUnder_cons]
    by_cases hk : k = name
    · simp [hk, valuesUnder]
    · simp [hk]
  | cons p predicates ih =>
    obtain ⟨key, values⟩ := p
    unfold Grouped.append
    by_cases hp : key = k
    · rw [if_pos hp, valuesUnder_cons, valuesUnder_cons, hp]
      by_cases hk : k = name
      · simp [hk]
      · simp [hk]
    · rw [if_neg hp, valuesUnder_cons, valuesUnder_cons]
      by_cases hk : key = name
      · have hne : k ≠ name := fun h => hp (hk.trans h.symm)
        simp [hk, hne]
      · rw [if_neg hk, if_neg hk, ih]

theorem mem_foldl_append {name v : String} {values : List (String × String)} {predicates : List (String × List String)} :
    v ∈ valuesUnder (values.foldl (fun predicates v => Grouped.append v.1 v.2 predicates) predicates) name ↔
      v ∈ valuesUnder predicates name ∨ (name, v) ∈ values := by
  induction values generalizing predicates with
  | nil => simp
  | cons p values ih =>
    obtain ⟨k, a⟩ := p
    rw [List.foldl_cons, ih, mem_append, List.mem_cons, Prod.mk.injEq, or_assoc, @eq_comm _ k]

/-- The blocks hold what a list of elements asserts, under each subject once. -/
structure HoldsBlocks (bs : List Block) (blocks : SubjectBlocks) : Prop where
  nodup : (blocks.map Prod.fst).Nodup
  keys : ∀ subject, subject ∈ blocks.map Prod.fst ↔ ∃ b ∈ bs, b.subject = subject
  values : ∀ subject predicates, (subject, predicates) ∈ blocks → ∀ name v,
    v ∈ valuesUnder predicates name ↔ ∃ b ∈ bs, b.subject = subject ∧ (name, v) ∈ b.values

theorem holdsBlocks_addBlock {bs : List Block} {blocks : SubjectBlocks} (h : HoldsBlocks bs blocks) (b : Block) :
    HoldsBlocks (bs ++ [b]) (addBlock blocks b) := by
  have hnodup := LastWins.nodup_put (a := (b.subject, b.values.foldl (fun predicates v => Grouped.append v.1 v.2 predicates)
    (((LastWins.under Prod.fst b.subject blocks).map Prod.snd).getD []))) h.nodup
  have hunder : ∀ subject predicates, (subject, predicates) ∈ blocks →
      LastWins.under Prod.fst subject blocks = some (subject, predicates) := by
    intro subject predicates hmem
    exact LastWins.under_of_mem h.nodup hmem
  refine ⟨hnodup, fun subject => ?_, fun subject predicates hmem name v => ?_⟩
  · have hkey : ∀ blocks : SubjectBlocks, subject ∈ blocks.map Prod.fst ↔
        LastWins.under Prod.fst subject blocks ≠ none := by
      intro blocks
      rw [Ne, FirstWins.under_eq_none, not_not]
    have hold := h.keys subject
    rw [hkey] at hold
    rw [hkey]
    unfold addBlock
    rw [LastWins.under_put]
    by_cases hb : b.subject = subject
    · simp [hb]
    · rw [if_neg hb, hold]
      simp [hb]
  · have hput := LastWins.under_of_mem hnodup hmem
    rw [LastWins.under_put] at hput
    by_cases hb : b.subject = subject
    · rw [if_pos hb, Option.some_inj, Prod.mk.injEq] at hput
      rw [← hput.2, mem_foldl_append]
      have hold : v ∈ valuesUnder (((LastWins.under Prod.fst b.subject blocks).map Prod.snd).getD []) name ↔
          ∃ b ∈ bs, b.subject = subject ∧ (name, v) ∈ b.values := by
        cases hfound : LastWins.under Prod.fst b.subject blocks with
        | none =>
          have hnew : ¬ ∃ b ∈ bs, b.subject = subject := by
            rw [← h.keys]
            exact (FirstWins.under_eq_none.1 (hb ▸ hfound))
          constructor
          · intro hv
            cases hv
          · rintro ⟨b', hb', hsubject, -⟩
            exact absurd ⟨b', hb', hsubject⟩ hnew
        | some found =>
          obtain ⟨hmem', hkey⟩ := LastWins.mem_of_under hfound
          exact h.values subject found.2 (by rw [← hb, ← hkey]; exact hmem') name v
      rw [hold]
      simp only [List.mem_append, List.mem_singleton, or_and_right, exists_or, exists_eq_left, hb, true_and]
    · rw [if_neg hb] at hput
      rw [h.values subject predicates (LastWins.mem_of_under hput).1]
      simp only [List.mem_append, List.mem_singleton, or_and_right, exists_or, exists_eq_left, hb, false_and, or_false]

theorem holdsBlocks_parse (n : Notice) : HoldsBlocks n.blocks (parseSubjectBlocks n) := by
  unfold parseSubjectBlocks
  induction n.blocks using List.reverseRecOn with
  | nil => exact ⟨List.nodup_nil, by simp, by simp⟩
  | append_singleton bs b ih =>
    rw [List.foldl_append]
    exact holdsBlocks_addBlock ih b

/-! ## The candidates -/

theorem mem_valuesUnder {subject name v : String} {predicates : List (String × List String)}
    (h : (subject, predicates) ∈ parseSubjectBlocks n) : v ∈ valuesUnder predicates name ↔ n.Asserts ⟨subject, name, v⟩ :=
  (holdsBlocks_parse n).values subject predicates h name v

theorem assertsOwn_iff {subject ownId : String} {predicates : List (String × List String)}
    (h : (subject, predicates) ∈ parseSubjectBlocks n) :
    assertsOwn reader ownId predicates = true ↔ n.IsOwn reader ownId subject := by
  unfold assertsOwn Notice.IsOwn
  simp only [decide_eq_true_eq, List.mem_map, mem_valuesUnder h]

theorem asserts_subject (h : n.Asserts t) : ∃ predicates, (t.subject, predicates) ∈ parseSubjectBlocks n := by
  obtain ⟨b, hb, hsubject, -⟩ := h
  have hkey := ((holdsBlocks_parse n).keys t.subject).2 ⟨b, hb, hsubject⟩
  obtain ⟨⟨subject, predicates⟩, hmem, rfl⟩ := List.mem_map.1 hkey
  exact ⟨predicates, hmem⟩

theorem mem_ownSubjects {subject ownId : String} (h : ∃ predicates, (subject, predicates) ∈ parseSubjectBlocks n) :
    subject ∈ ownSubjects reader (parseSubjectBlocks n) ownId ↔ n.IsOwn reader ownId subject := by
  unfold ownSubjects
  simp only [List.mem_map, List.mem_filter]
  constructor
  · rintro ⟨⟨_, predicates⟩, ⟨hmem, hown⟩, rfl⟩
    exact (assertsOwn_iff hmem).1 hown
  · intro hown
    obtain ⟨predicates, hmem⟩ := h
    exact ⟨(subject, predicates), ⟨hmem, (assertsOwn_iff hmem).2 hown⟩, rfl⟩

theorem mem_valuesFor {names subjects : List String} : t ∈ valuesFor (parseSubjectBlocks n) names subjects ↔
    n.Asserts t ∧ t.predicate ∈ names ∧ t.subject ∈ subjects := by
  unfold valuesFor
  simp only [List.mem_flatMap, List.mem_filter, List.mem_map, decide_eq_true_eq]
  constructor
  · rintro ⟨⟨subject, predicates⟩, ⟨hmem, hsubject⟩, name, hname, v, hv, rfl⟩
    exact ⟨(mem_valuesUnder hmem).1 hv, hname, hsubject⟩
  · rintro ⟨hasserts, hname, hsubject⟩
    obtain ⟨predicates, hmem⟩ := asserts_subject hasserts
    exact ⟨_, ⟨hmem, hsubject⟩, t.predicate, hname, t.value, (mem_valuesUnder hmem).2 hasserts, rfl⟩

/-- The subjects searched when the act's own have no value are those of no other act. -/
theorem mem_widened {subject ownId : String} (h : ∃ predicates, (subject, predicates) ∈ parseSubjectBlocks n) :
    subject ∈ ((parseSubjectBlocks n).map Prod.fst).filter (fun subject =>
      subject ∉ ownSubjects reader (parseSubjectBlocks n) ownId ∧ subject ∉ ((parseSubjectBlocks n).filter fun b =>
        valuesUnder b.2 legalIdCelex ≠ [] ∧ !assertsOwn reader ownId b.2).map Prod.fst) ↔
      ¬ n.IsOwn reader ownId subject ∧ ¬ n.IsForeign reader ownId subject := by
  have hexcluded : subject ∈ ((parseSubjectBlocks n).filter fun b =>
      valuesUnder b.2 legalIdCelex ≠ [] ∧ !assertsOwn reader ownId b.2).map Prod.fst ↔ n.IsForeign reader ownId subject := by
    have hany : ∀ predicates, (subject, predicates) ∈ parseSubjectBlocks n →
        (valuesUnder predicates legalIdCelex ≠ [] ↔ ∃ v, n.Asserts ⟨subject, legalIdCelex, v⟩) := by
      intro predicates hmem
      simp only [← mem_valuesUnder hmem]
      exact ⟨List.exists_mem_of_ne_nil _, fun ⟨_, hv⟩ => List.ne_nil_of_mem hv⟩
    simp only [List.mem_map, List.mem_filter, decide_eq_true_eq, Bool.not_eq_true']
    constructor
    · rintro ⟨⟨_, predicates⟩, ⟨hmem, hsome, hown⟩, rfl⟩
      refine ⟨(hany predicates hmem).1 hsome, fun hisOwn => ?_⟩
      rw [(assertsOwn_iff hmem).2 hisOwn] at hown
      cases hown
    · rintro ⟨hsome, hown⟩
      obtain ⟨predicates, hmem⟩ := h
      refine ⟨(subject, predicates), ⟨hmem, (hany predicates hmem).2 hsome, ?_⟩, rfl⟩
      exact Bool.eq_false_iff.2 fun htrue => hown ((assertsOwn_iff hmem).1 htrue)
  rw [List.mem_filter, decide_eq_true_eq, hexcluded, mem_ownSubjects h, and_iff_right_iff_imp]
  intro _
  obtain ⟨predicates, hmem⟩ := h
  exact List.mem_map.2 ⟨_, hmem, rfl⟩

/-- **The candidates** are the admissible values. -/
theorem mem_candidates (htyped : instrumentTypeFromCelex reader identifier = .ok instrumentType) :
    ∃ candidates, resolvePredicateCandidates reader (parseSubjectBlocks n) identifier
        (effectiveDatePredicates instrumentType) = .ok candidates ∧
      ∀ t, t ∈ candidates ↔ Admissible reader n identifier instrumentType t := by
  have hbase : ∃ ownId, baseCelex reader identifier = .ok ownId := by
    unfold instrumentTypeFromCelex at htyped
    cases hbase : baseCelex reader identifier with
    | error e => rw [hbase] at htyped; cases htyped
    | ok ownId => exact ⟨ownId, rfl⟩
  obtain ⟨ownId, hbase⟩ := hbase
  have hown : ∀ t, t ∈ valuesFor (parseSubjectBlocks n) (effectiveDatePredicates instrumentType)
      (ownSubjects reader (parseSubjectBlocks n) ownId) ↔
        n.Asserts t ∧ t.predicate ∈ effectiveDatePredicates instrumentType ∧ n.IsOwn reader ownId t.subject := by
    intro t
    rw [mem_valuesFor]
    constructor
    · rintro ⟨hasserts, hname, hmem⟩
      exact ⟨hasserts, hname, (mem_ownSubjects (asserts_subject hasserts)).1 hmem⟩
    · rintro ⟨hasserts, hname, hisOwn⟩
      exact ⟨hasserts, hname, (mem_ownSubjects (asserts_subject hasserts)).2 hisOwn⟩
  unfold resolvePredicateCandidates
  rw [hbase]
  simp only [bind, Except.bind]
  split
  · -- some subject of the act asserts a date
    rename_i hsome
    refine ⟨_, rfl, fun t => ?_⟩
    obtain ⟨t₀, ht₀⟩ := List.exists_mem_of_ne_nil _ hsome
    obtain ⟨hasserts₀, hname₀, hown₀⟩ := (hown t₀).1 ht₀
    rw [hown]
    constructor
    · rintro ⟨hasserts, hname, hisOwn⟩
      exact ⟨hasserts, hname, htyped, ownId, hbase, .inl hisOwn⟩
    · rintro ⟨hasserts, hname, -, ownId', hbase', hsubject⟩
      obtain rfl : ownId = ownId' := Except.ok.inj (hbase.symm.trans hbase')
      refine ⟨hasserts, hname, hsubject.resolve_right ?_⟩
      rintro ⟨-, hnone⟩
      exact hnone t₀ hasserts₀ hname₀ hown₀
  · rename_i hnil
    rw [not_not] at hnil
    have hnone : ∀ own, n.Asserts own → own.predicate ∈ effectiveDatePredicates instrumentType →
        ¬ n.IsOwn reader ownId own.subject := by
      intro own hasserts hname hisOwn
      have hmem := (hown own).2 ⟨hasserts, hname, hisOwn⟩
      rw [hnil] at hmem
      cases hmem
    refine ⟨_, rfl, fun t => ?_⟩
    rw [mem_valuesFor]
    constructor
    · rintro ⟨hasserts, hname, hmem⟩
      have hwidened := (mem_widened (asserts_subject hasserts)).1 hmem
      exact ⟨hasserts, hname, htyped, ownId, hbase, .inr ⟨hwidened.2, hnone⟩⟩
    · rintro ⟨hasserts, hname, -, ownId', hbase', hsubject⟩
      obtain rfl : ownId = ownId' := Except.ok.inj (hbase.symm.trans hbase')
      have hisOwn := hnone t hasserts hname
      exact ⟨hasserts, hname, (mem_widened (asserts_subject hasserts)).2 ⟨hisOwn, (hsubject.resolve_left hisOwn).1⟩⟩

/-! ## The pick -/

/-- Where a role stands in the order the roles are tried in; no role comes last. -/
def roleRank (instrumentType : InstrumentType) : Option DateRole → ℕ
  | none => (dateRolePriority instrumentType).length
  | some role => (dateRolePriority instrumentType).idxOf role

/-- The role of the tokens is one that is tried. -/
theorem dateRole_mem {tokens : List String} {role : DateRole} (h : dateRole instrumentType tokens = some role) :
    role ∈ dateRolePriority instrumentType := by
  unfold dateRole at h
  cases instrumentType <;> simp only at h <;> split_ifs at h <;> cases h <;> decide

/-- What `_pick_effective_date` gives values that are all dates. -/
def earliestOfFirst (instrumentType : InstrumentType) (dated : List (ℕ × Option DateRole)) : Option ℕ :=
  match (dateRolePriority instrumentType).findSome? fun role => (bucket dated role).min? with
  | some date => some date
  | none => (dated.map Prod.fst).min?

theorem mem_bucket {dated : List (ℕ × Option DateRole)} {role : DateRole} {date : ℕ} :
    date ∈ bucket dated role ↔ (date, some role) ∈ dated := by
  unfold bucket
  rw [List.mem_map]
  constructor
  · rintro ⟨⟨date', role'⟩, hmem, rfl⟩
    obtain ⟨hmem, hrole⟩ := List.mem_filter.1 hmem
    have hrole : role' = some role := of_decide_eq_true hrole
    exact hrole ▸ hmem
  · intro hmem
    exact ⟨(date, some role), List.mem_filter.2 ⟨hmem, decide_eq_true rfl⟩, rfl⟩

/-- **The pick**: a dated value of the first role present, the earliest of that role. -/
theorem earliestOfFirst_spec {dated : List (ℕ × Option DateRole)} (hne : dated ≠ [])
    (hroles : ∀ d ∈ dated, ∀ role, d.2 = some role → role ∈ dateRolePriority instrumentType) :
    ∃ d ∈ dated, earliestOfFirst instrumentType dated = some d.1 ∧ ∀ d' ∈ dated,
      toLex (roleRank instrumentType d.2, d.1) ≤ toLex (roleRank instrumentType d'.2, d'.1) := by
  unfold earliestOfFirst
  cases hfound : (dateRolePriority instrumentType).findSome? fun role => (bucket dated role).min? with
  | some date =>
    obtain ⟨before, role, after, hpriority, hmin, hbefore⟩ := List.findSome?_eq_some_iff.1 hfound
    obtain ⟨hmem, hle⟩ := List.min?_eq_some_iff.1 hmin
    have hnotBefore : ∀ earlier ∈ before, ∀ date', (date', some earlier) ∉ dated := by
      intro earlier hearlier date' hmem'
      have hnil := List.min?_eq_none_iff.1 (hbefore earlier hearlier)
      rw [← mem_bucket, hnil] at hmem'
      cases hmem'
    have hrank : roleRank instrumentType (some role) = before.length := by
      show (dateRolePriority instrumentType).idxOf role = before.length
      rw [hpriority, List.idxOf_append_of_notMem fun h => hnotBefore role h date (mem_bucket.1 hmem), List.idxOf_cons_self,
        Nat.add_zero]
    refine ⟨(date, some role), mem_bucket.1 hmem, rfl, fun d' hd' => ?_⟩
    obtain ⟨date', role'⟩ := d'
    rw [hrank]
    cases role' with
    | none =>
      refine Prod.Lex.toLex_le_toLex.2 (.inl ?_)
      show before.length < (dateRolePriority instrumentType).length
      rw [hpriority, List.length_append, List.length_cons]
      omega
    | some role' =>
      by_cases hsame : role' = role
      · subst hsame
        exact Prod.Lex.toLex_le_toLex.2 (.inr ⟨hrank.symm, hle date' (mem_bucket.2 hd')⟩)
      · refine Prod.Lex.toLex_le_toLex.2 (.inl ?_)
        show before.length < (dateRolePriority instrumentType).idxOf role'
        rw [hpriority, List.idxOf_append_of_notMem fun h => hnotBefore role' h date' hd', List.idxOf_cons_ne _ (Ne.symm hsame)]
        omega
  | none =>
    rw [List.findSome?_eq_none_iff] at hfound
    have huntagged : ∀ d ∈ dated, d.2 = none := by
      intro d hd
      cases hrole : d.2 with
      | none => rfl
      | some role =>
        have hnil := List.min?_eq_none_iff.1 (hfound role (hroles d hd role hrole))
        have hmem : d.1 ∈ bucket dated role := mem_bucket.2 (by rw [← hrole]; exact hd)
        rw [hnil] at hmem
        cases hmem
    cases hmin : (dated.map Prod.fst).min? with
    | none => exact absurd (List.map_eq_nil_iff.1 (List.min?_eq_none_iff.1 hmin)) hne
    | some date =>
      obtain ⟨hmem, hle⟩ := List.min?_eq_some_iff.1 hmin
      obtain ⟨d, hd, rfl⟩ := List.mem_map.1 hmem
      refine ⟨d, hd, rfl, fun d' hd' => ?_⟩
      rw [huntagged d hd, huntagged d' hd']
      exact Prod.Lex.toLex_le_toLex.2 (.inr ⟨rfl, hle d'.1 (List.mem_map_of_mem hd')⟩)

/-! ## The date read -/

/-- The role that the notice gives a value: the one of the last axiom about it. -/
def Notice.roleOf (n : Notice) (instrumentType : InstrumentType) (t : Triple) : Option DateRole :=
  dateRole instrumentType (tokensOf (parseReificationBlocks n) t)

/-- The value's date; 0 for a text that is none. -/
def Triple.date (reader : DateReader) (t : Triple) : ℕ := (reader.fromisoformat t.value).getD 0

/-- A value in a role: the role first, then the date. -/
def precedence (reader : DateReader) (instrumentType : InstrumentType) (t : Triple) (role : Option DateRole) : ℕ ×ₗ ℕ :=
  toLex (roleRank instrumentType role, t.date reader)

/-- Every value that may be the date is a date. -/
def Readable (reader : DateReader) (n : Notice) (identifier : String) : Prop :=
  ∀ instrumentType t, Admissible reader n identifier instrumentType t → reader.fromisoformat t.value ≠ none

/-- The value wins: no admissible value has an earlier role, or an earlier date in the same role. -/
structure Wins (reader : DateReader) (n : Notice) (identifier : String) (instrumentType : InstrumentType)
    (t : Triple) : Prop where
  admissible : Admissible reader n identifier instrumentType t
  least : ∀ t', Admissible reader n identifier instrumentType t' →
    precedence reader instrumentType t (n.roleOf instrumentType t) ≤
      precedence reader instrumentType t' (n.roleOf instrumentType t')

/-- Two values that win have one date. -/
theorem Wins.date_eq (h : Wins reader n identifier instrumentType t) (h' : Wins reader n identifier instrumentType t') :
    t.date reader = t'.date reader :=
  congrArg (fun p => (ofLex p).2) ((h.least t' h'.admissible).antisymm (h'.least t h.admissible))

theorem readDate_ok (h : reader.fromisoformat t.value ≠ none) : readDate reader t.value = .ok (t.date reader) := by
  obtain ⟨date, hdate⟩ := Option.ne_none_iff_exists'.1 h
  unfold readDate Triple.date
  rw [hdate]
  rfl

/-- Either all candidates are dates, or reading them raises. -/
theorem pick_cases {reifications : List (Triple × List String)} (candidates : List Triple) :
    (∀ t ∈ candidates, reader.fromisoformat t.value ≠ none) ∧
        pickEffectiveDate reader candidates reifications instrumentType =
          .ok (if candidates = [] then none else earliestOfFirst instrumentType (candidates.map fun t =>
            (t.date reader, dateRole instrumentType (tokensOf reifications t)))) ∨
      (∃ t ∈ candidates, reader.fromisoformat t.value = none) ∧
        (pickEffectiveDate reader candidates reifications instrumentType).toOption = none := by
  have hmapM : ∀ candidates : List Triple, (∀ t ∈ candidates, reader.fromisoformat t.value ≠ none) ∧
      (candidates.mapM fun t => do
        let date ← readDate reader t.value
        return (date, dateRole instrumentType (tokensOf reifications t)) : Except MetadataError _) =
        .ok (candidates.map fun t => (t.date reader, dateRole instrumentType (tokensOf reifications t))) ∨
      (∃ t ∈ candidates, reader.fromisoformat t.value = none) ∧ ∃ e, (candidates.mapM fun t => do
        let date ← readDate reader t.value
        return (date, dateRole instrumentType (tokensOf reifications t)) : Except MetadataError _) = .error e := by
    intro candidates
    induction candidates with
    | nil => exact .inl ⟨by simp, rfl⟩
    | cons t candidates ih =>
      rw [List.mapM_cons]
      cases hdate : reader.fromisoformat t.value with
      | none =>
        refine .inr ⟨⟨t, List.mem_cons_self .., hdate⟩, .invalidIsoformat t.value, ?_⟩
        unfold readDate
        rw [hdate]
        rfl
      | some date =>
        have hne : reader.fromisoformat t.value ≠ none := by rw [hdate]; exact Option.some_ne_none date
        rw [readDate_ok hne]
        rcases ih with ⟨hall, heq⟩ | ⟨⟨t', ht', hbad⟩, e, heq⟩
        · refine .inl ⟨fun t' ht' => ?_, ?_⟩
          · rcases List.mem_cons.1 ht' with rfl | ht'
            · exact hne
            · exact hall t' ht'
          · rw [heq]
            rfl
        · refine .inr ⟨⟨t', List.mem_cons_of_mem _ ht', hbad⟩, e, ?_⟩
          rw [heq]
          rfl
  unfold pickEffectiveDate
  by_cases hnil : candidates = []
  · rw [if_pos hnil, if_pos hnil, hnil]
    exact .inl ⟨by simp, rfl⟩
  · rw [if_neg hnil, if_neg hnil]
    rcases hmapM candidates with ⟨hall, heq⟩ | ⟨hbad, e, heq⟩
    · refine .inl ⟨hall, ?_⟩
      rw [heq]
      unfold earliestOfFirst
      simp only [bind, Except.bind]
      generalize (dateRolePriority instrumentType).findSome? _ = found
      cases found <;> rfl
    · refine .inr ⟨hbad, ?_⟩
      rw [heq]
      rfl

/-- **The date is that of a value that wins.** -/
theorem date_iff_wins {date : ℕ} : (effectiveDate reader n identifier).toOption = some date ↔
    Readable reader n identifier ∧ ∃ instrumentType t, Wins reader n identifier instrumentType t ∧ t.date reader = date := by
  unfold effectiveDate
  cases htyped : instrumentTypeFromCelex reader identifier with
  | error e =>
    constructor
    · intro h
      cases h
    · rintro ⟨-, instrumentType, t, hwins, -⟩
      have htyped' := hwins.admissible.typed
      rw [htyped] at htyped'
      cases htyped'
  | ok instrumentType =>
    obtain ⟨candidates, hresolve, hmem⟩ := mem_candidates (n := n) htyped
    have htype : ∀ {instrumentType' t}, Admissible reader n identifier instrumentType' t → instrumentType' = instrumentType :=
      fun h => Except.ok.inj (h.typed.symm.trans htyped)
    have hreadable : Readable reader n identifier ↔ ∀ t ∈ candidates, reader.fromisoformat t.value ≠ none := by
      constructor
      · intro h t ht
        exact h instrumentType t ((hmem t).1 ht)
      · intro h instrumentType' t ht
        obtain rfl := htype ht
        exact h t ((hmem t).2 ht)
    have hfind : findEffectiveDateFromRdf reader n identifier instrumentType =
        pickEffectiveDate reader candidates (parseReificationBlocks n) instrumentType := by
      unfold findEffectiveDateFromRdf
      rw [hresolve]
      rfl
    simp only [bind, Except.bind, hfind]
    rcases @pick_cases reader instrumentType (parseReificationBlocks n) candidates with ⟨hall, heq⟩ | ⟨⟨t, ht, hbad⟩, heq⟩
    · rw [heq]
      by_cases hnil : candidates = []
      · rw [if_pos hnil]
        constructor
        · intro h
          cases h
        · rintro ⟨-, instrumentType', t, hwins, -⟩
          obtain rfl := htype hwins.admissible
          have ht := (hmem t).2 hwins.admissible
          rw [hnil] at ht
          cases ht
      · rw [if_neg hnil]
        obtain ⟨d, hd, hpick, hleast⟩ := @earliestOfFirst_spec instrumentType
          (candidates.map fun t => (t.date reader, dateRole instrumentType (tokensOf (parseReificationBlocks n) t)))
          (by simpa using hnil) (by
            intro d hd role hrole
            obtain ⟨t, -, rfl⟩ := List.mem_map.1 hd
            exact dateRole_mem hrole)
        obtain ⟨t, ht, rfl⟩ := List.mem_map.1 hd
        have hwins : Wins reader n identifier instrumentType t := by
          refine ⟨(hmem t).1 ht, fun t' ht' => ?_⟩
          exact hleast _ (List.mem_map_of_mem ((hmem t').2 ht'))
        rw [hpick]
        show some (t.date reader) = some date ↔ _
        constructor
        · intro h
          exact ⟨hreadable.2 hall, instrumentType, t, hwins, Option.some_inj.1 h⟩
        · rintro ⟨-, instrumentType', t', hwins', hdate⟩
          obtain rfl := htype hwins'.admissible
          rw [hwins.date_eq hwins', hdate]
    · have hnone : ¬ Readable reader n identifier := fun h => hreadable.1 h t ht hbad
      simp only [hnone, false_and, iff_false]
      cases hpick : pickEffectiveDate reader candidates (parseReificationBlocks n) instrumentType with
      | error e =>
        intro h
        cases h
      | ok found =>
        rw [hpick] at heq
        cases heq

/-! ## The order of the notice -/

/-- A role that some order of the axioms gives a value. -/
def Notice.MayHave (n : Notice) (instrumentType : InstrumentType) (t : Triple) (role : Option DateRole) : Prop :=
  (∃ tokens, (t, tokens) ∈ n.axioms ∧ dateRole instrumentType tokens = role) ∨ (∀ tokens, (t, tokens) ∉ n.axioms) ∧ role = none

theorem Reordered.mayHave (h : Reordered n n') {role : Option DateRole} :
    n'.MayHave instrumentType t role ↔ n.MayHave instrumentType t role := by
  unfold Notice.MayHave
  simp only [h.axioms.mem_iff]

theorem tokensOf_eq (n : Notice) (t : Triple) :
    tokensOf (parseReificationBlocks n) t = ((LastWins.last Prod.fst t n.axioms).map Prod.snd).getD [] := by
  unfold tokensOf parseReificationBlocks
  rw [LastWins.under_collect]

/-- The role a value has is one that it may have. -/
theorem mayHave_roleOf (n : Notice) (t : Triple) : n.MayHave instrumentType t (n.roleOf instrumentType t) := by
  unfold Notice.roleOf
  rw [tokensOf_eq]
  cases hlast : LastWins.last Prod.fst t n.axioms with
  | none =>
    refine .inr ⟨fun tokens hmem => ?_, by cases instrumentType <;> decide⟩
    unfold LastWins.last at hlast
    exact FirstWins.under_eq_none.1 hlast (List.mem_map.2 ⟨_, List.mem_reverse.2 hmem, rfl⟩)
  | some found =>
    obtain ⟨hmem, hkey⟩ := LastWins.mem_of_last hlast
    exact .inl ⟨found.2, by rw [← hkey]; exact hmem, rfl⟩

/-- **Every choice of roles is reached** by an order of the axioms: those that give the chosen roles come last. -/
theorem exists_order (n : Notice) (instrumentType : InstrumentType) (chosen : Triple → Option DateRole) :
    ∃ n', Reordered n n' ∧ ∀ t, n.MayHave instrumentType t (chosen t) → n'.roleOf instrumentType t = chosen t := by
  classical
  let isChosen : Triple × List String → Bool := fun a => dateRole instrumentType a.2 = chosen a.1
  let later : Notice := ⟨n.blocks, n.axioms.filter (fun a => !isChosen a) ++ n.axioms.filter isChosen⟩
  refine ⟨later, ⟨⟨n.blocks, .refl _, ?_⟩, ?_⟩, fun t ht => ?_⟩
  · exact List.forall₂_same.2 fun b _ => ⟨rfl, .refl _⟩
  · exact (List.perm_append_comm.trans (List.filter_append_perm isChosen n.axioms)).symm
  · unfold Notice.roleOf
    rw [tokensOf_eq]
    show dateRole instrumentType (((LastWins.last Prod.fst t (_ ++ n.axioms.filter isChosen)).map Prod.snd).getD []) = _
    unfold LastWins.last
    rw [List.reverse_append, FirstWins.under_append]
    rcases ht with ⟨tokens, hmem, hrole⟩ | ⟨hnone, hrole⟩
    · have hlast : LastWins.under Prod.fst t (n.axioms.filter isChosen).reverse ≠ none := by
        rw [Ne, FirstWins.under_eq_none, not_not]
        refine List.mem_map.2 ⟨(t, tokens), List.mem_reverse.2 (List.mem_filter.2 ⟨hmem, ?_⟩), rfl⟩
        exact decide_eq_true hrole
      obtain ⟨found, hfound⟩ := Option.ne_none_iff_exists'.1 hlast
      obtain ⟨hin, hkey⟩ := LastWins.mem_of_under hfound
      have hchosen := (List.mem_filter.1 (List.mem_reverse.1 hin)).2
      rw [hfound]
      show dateRole instrumentType found.2 = chosen t
      rw [← hkey]
      exact of_decide_eq_true hchosen
    · have hno : ∀ p : Triple × List String → Bool, LastWins.under Prod.fst t (n.axioms.filter p).reverse = none := by
        intro p
        rw [FirstWins.under_eq_none]
        intro hmem
        obtain ⟨⟨_, tokens⟩, hin, rfl⟩ := List.mem_map.1 hmem
        exact hnone tokens (List.mem_filter.1 (List.mem_reverse.1 hin)).1
      rw [hno, hno, hrole]
      cases instrumentType <;> decide

/-- Some order of the axioms makes the value win: read at one of its roles it comes no later than any other value does
at one of that value's roles. -/
def CanWin (reader : DateReader) (n : Notice) (identifier : String) (instrumentType : InstrumentType) (t : Triple) : Prop :=
  Admissible reader n identifier instrumentType t ∧ ∃ role, n.MayHave instrumentType t role ∧
    ∀ t', Admissible reader n identifier instrumentType t' → t' ≠ t → ∃ role', n.MayHave instrumentType t' role' ∧
      precedence reader instrumentType t role ≤ precedence reader instrumentType t' role'

theorem Wins.canWin (h : Wins reader n identifier instrumentType t) : CanWin reader n identifier instrumentType t :=
  ⟨h.admissible, _, mayHave_roleOf n t, fun t' ht' _ => ⟨_, mayHave_roleOf n t', h.least t' ht'⟩⟩

theorem Reordered.canWin (h : Reordered n n') :
    CanWin reader n' identifier instrumentType t ↔ CanWin reader n identifier instrumentType t := by
  unfold CanWin
  simp only [h.admissible, h.mayHave]

/-- Where a value is admissible, some value wins: the candidates are finitely many. -/
theorem exists_wins (h : Admissible reader n identifier instrumentType t) : ∃ t, Wins reader n identifier instrumentType t := by
  obtain ⟨candidates, -, hmem⟩ := mem_candidates (n := n) h.typed
  have hne : candidates.map (fun t => (precedence reader instrumentType t (n.roleOf instrumentType t))) ≠ [] := by
    simpa using List.ne_nil_of_mem ((hmem t).2 h)
  obtain ⟨least, hleast⟩ := Option.ne_none_iff_exists'.1 fun hnone => hne (List.min?_eq_none_iff.1 hnone)
  obtain ⟨hin, hle⟩ := List.min?_eq_some_iff.1 hleast
  obtain ⟨w, hw, rfl⟩ := List.mem_map.1 hin
  exact ⟨w, (hmem w).1 hw, fun t' ht' => hle _ (List.mem_map_of_mem ((hmem t').2 ht'))⟩

/-- A value that can win does win in some order of the notice. -/
theorem CanWin.exists_wins (h : CanWin reader n identifier instrumentType t) :
    ∃ n', Reordered n n' ∧ Wins reader n' identifier instrumentType t := by
  classical
  obtain ⟨hadmissible, role, hrole, hothers⟩ := h
  let chosen : Triple → Option DateRole := fun t' =>
    if t' = t then role
    else if h : ∃ role', n.MayHave instrumentType t' role' ∧
        precedence reader instrumentType t role ≤ precedence reader instrumentType t' role' then h.choose else none
  have hself : chosen t = role := if_pos rfl
  obtain ⟨n', hreordered, hchosen⟩ := exists_order n instrumentType chosen
  refine ⟨n', hreordered, hreordered.admissible.2 hadmissible, fun t' ht' => ?_⟩
  rw [hchosen t (by rw [hself]; exact hrole), hself]
  by_cases hsame : t' = t
  · rw [hsame, hchosen t (by rw [hself]; exact hrole), hself]
  · have hex := hothers t' (hreordered.admissible.1 ht') hsame
    have hother : chosen t' = hex.choose := (if_neg hsame).trans (dif_pos hex)
    rw [hchosen t' (by rw [hother]; exact hex.choose_spec.1), hother]
    exact hex.choose_spec.2

theorem Reordered.readable (h : Reordered n n') : Readable reader n' identifier ↔ Readable reader n identifier := by
  unfold Readable
  simp only [h.admissible]

/-! ## The two names of an act -/

/-- Year, type and number of an act. -/
structure BaseGroup (reader : DateReader) (group : List Char) : Prop where
  shape : ∃ year code number, group = year ++ code ++ number ∧ year.length = 4 ∧ (code.length = 1 ∨ code.length = 2) ∧
    number ≠ [] ∧ (∀ c ∈ year, reader.isDecimal c = true) ∧ (∀ c ∈ code, c.isUpper = true) ∧
    ∀ c ∈ number, reader.isDecimal c = true

/-- The date of a consolidation. -/
def Stamp (reader : DateReader) (stamp : List Char) : Prop := stamp.length = 8 ∧ ∀ c ∈ stamp, reader.isDecimal c = true

/-- The CELEX number of the base act. -/
def baseName (group : List Char) : String := String.ofList ('3' :: group)

/-- The CELEX number of a consolidated version. -/
def consolidatedName (group stamp : List Char) : String := String.ofList ('0' :: (group ++ '-' :: stamp))

theorem takeExactly_append {p : Char → Bool} {taken : List Char} (h : ∀ c ∈ taken, p c = true) (rest : List Char) :
    takeExactly p taken.length (taken ++ rest) = some (taken, rest) := by
  induction taken with
  | nil => rfl
  | cons c taken ih =>
    rw [List.length_cons, List.cons_append, takeExactly, if_pos (h c (List.mem_cons_self ..)),
      ih fun d hd => h d (List.mem_cons_of_mem _ hd)]
    rfl

theorem isUpper_not_isDecimal {c : Char} (h : c.isUpper = true) : reader.isDecimal c = false := by
  unfold Char.isUpper at h
  simp only [decide_eq_true_eq, ge_iff_le] at h
  have hle : c.toNat ≤ 90 := UInt32.le_iff_toNat_le.1 h.2
  have hge : 65 ≤ c.toNat := UInt32.le_iff_toNat_le.1 h.1
  unfold DateReader.isDecimal
  rw [UnicodeDigits.isDecimal_ascii (by omega)]
  unfold Char.isDigit
  have hdigit : ¬ c.val ≤ 57 := by
    rw [UInt32.le_iff_toNat_le]
    show ¬ c.toNat ≤ 57
    omega
  simp [hdigit]

theorem isDecimal_not_isUpper {c : Char} (h : reader.isDecimal c = true) : c.isUpper = false := by
  rw [← Bool.not_eq_true]
  intro hupper
  rw [isUpper_not_isDecimal hupper] at h
  cases h

/-- A run of a class ends where a character outside it stands. -/
theorem span_append {p : Char → Bool} {run rest : List Char} (h : ∀ c ∈ run, p c = true)
    (hrest : ∀ c ∈ rest.head?, p c = false) :
    (run ++ rest).takeWhile p = run ∧ (run ++ rest).dropWhile p = rest := by
  induction run with
  | nil =>
    cases rest with
    | nil => exact ⟨rfl, rfl⟩
    | cons c rest =>
      have hc := hrest c rfl
      simp [hc]
  | cons c run ih =>
    have hc := h c (List.mem_cons_self ..)
    obtain ⟨htake, hdrop⟩ := ih fun d hd => h d (List.mem_cons_of_mem _ hd)
    simp [hc, htake, hdrop]

theorem typedNumber_append {code number rest : List Char} (hlength : code.length = 1 ∨ code.length = 2) (hne : number ≠ [])
    (hcode : ∀ c ∈ code, c.isUpper = true) (hnumber : ∀ c ∈ number, reader.isDecimal c = true)
    (hrest : ∀ c ∈ rest.head?, reader.isDecimal c = false) :
    typedNumber reader (code ++ number ++ rest) = some (code, number, rest) := by
  have hhead : ∀ c ∈ (number ++ rest).head?, c.isUpper = false := by
    intro c hc
    obtain ⟨d, number, rfl⟩ := List.exists_cons_of_ne_nil hne
    obtain rfl : d = c := by simpa using hc
    exact isDecimal_not_isUpper (hnumber d (List.mem_cons_self ..))
  obtain ⟨htake, hdrop⟩ := span_append hcode hhead
  obtain ⟨htake', hdrop'⟩ := span_append hnumber hrest
  unfold typedNumber
  simp only [List.append_assoc, htake, hdrop, htake', hdrop']
  exact if_pos ⟨hlength, hne⟩

theorem baseCelex_baseName {group : List Char} (h : BaseGroup reader group) :
    baseCelex reader (baseName group) = .ok (baseName group) := by
  obtain ⟨year, code, number, rfl, hyear, hlength, hne, hyears, hcode, hnumber⟩ := h.shape
  have hthree : reader.isDecimal '3' = true := UnicodeDigits.isDecimal_ascii (by decide)
  have hconsolidated : consolidatedGroup reader (baseName (year ++ code ++ number)) = none := by
    unfold consolidatedGroup baseName
    rw [String.toList_ofList]
    rfl
  have htype : celexTypeCode reader (baseName (year ++ code ++ number)) = some (String.ofList code) := by
    unfold celexTypeCode baseName
    have htake := @takeExactly_append reader.isDecimal ('3' :: year)
      (List.forall_mem_cons.2 ⟨hthree, hyears⟩) (code ++ number)
    rw [List.length_cons, hyear] at htake
    rw [String.toList_ofList, List.append_assoc, ← List.cons_append, htake]
    have htyped := @typedNumber_append reader code number [] hlength hne hcode hnumber (by simp)
    rw [List.append_nil] at htyped
    simp only [bind, Option.bind, htyped, atEnd, true_or, decide_true, if_true]
  unfold baseCelex
  rw [hconsolidated, htype]
  refine if_pos ⟨?_, rfl⟩
  unfold baseName
  rw [String.toList_ofList, List.head?_cons]
  decide

theorem baseCelex_consolidatedName {group stamp : List Char} (h : BaseGroup reader group) (hstamp : Stamp reader stamp) :
    baseCelex reader (consolidatedName group stamp) = .ok (baseName group) := by
  obtain ⟨year, code, number, rfl, hyear, hlength, hne, hyears, hcode, hnumber⟩ := h.shape
  have hdash : reader.isDecimal '-' = false := UnicodeDigits.isDecimal_ascii (by decide)
  have hgroup : consolidatedGroup reader (consolidatedName (year ++ code ++ number) stamp) =
      some (String.ofList (year ++ code ++ number)) := by
    unfold consolidatedGroup consolidatedName
    have htake := takeExactly_append hyears (code ++ number ++ '-' :: stamp)
    rw [hyear] at htake
    have htyped := @typedNumber_append reader code number ('-' :: stamp) hlength hne hcode hnumber (by simpa using hdash)
    have hdate := takeExactly_append hstamp.2 []
    rw [hstamp.1, List.append_nil] at hdate
    rw [String.toList_ofList]
    simp only [List.append_assoc] at htake htyped ⊢
    simp only [bind, Option.bind, htake, htyped, hdate, atEnd, true_or, decide_true, if_true]
  unfold baseCelex
  rw [hgroup]
  show Except.ok ("3" ++ String.ofList (year ++ code ++ number)) = _
  unfold baseName
  rw [← String.toList_inj.1 (by simp : ("3" ++ String.ofList (year ++ code ++ number)).toList =
    (String.ofList ('3' :: (year ++ code ++ number))).toList)]

/-- The date depends on the identifier only by the base act it names. -/
theorem date_of_base {identifier' : String} (h : baseCelex reader identifier = baseCelex reader identifier') :
    (effectiveDate reader n identifier).toOption = (effectiveDate reader n identifier').toOption := by
  unfold effectiveDate findEffectiveDateFromRdf instrumentTypeFromCelex resolvePredicateCandidates
  rw [h]
  cases hbase : baseCelex reader identifier' with
  | error e => rfl
  | ok base =>
    simp only [bind, Except.bind]
    split
    · rfl
    · split
      · rfl
      · split <;> rfl

/-- **The date does not depend on the order of the notice**, nor on which name of the act is given. -/
structure OrderFree (reader : DateReader) (n : Notice) (identifier : String) : Prop where
  stable : ∀ n', Reordered n n' → (effectiveDate reader n' identifier).toOption = (effectiveDate reader n identifier).toOption
  /-- The date is the earliest of the first role present, and its subject is no other act. -/
  earliest : ∀ date, effectiveDate reader n identifier = .ok date → ∃ instrumentType t,
    Admissible reader n identifier instrumentType t ∧ reader.fromisoformat t.value = some date ∧
    (∀ ownId, baseCelex reader identifier = .ok ownId → ¬ n.IsForeign reader ownId t.subject) ∧
    ∀ t', Admissible reader n identifier instrumentType t' →
      roleRank instrumentType (n.roleOf instrumentType t) < roleRank instrumentType (n.roleOf instrumentType t') ∨
      roleRank instrumentType (n.roleOf instrumentType t) = roleRank instrumentType (n.roleOf instrumentType t') ∧
        ∃ date', reader.fromisoformat t'.value = some date' ∧ date ≤ date'
  naming : ∀ group stamp, BaseGroup reader group → Stamp reader stamp →
    (effectiveDate reader n (consolidatedName group stamp)).toOption = (effectiveDate reader n (baseName group)).toOption

/-- The axioms settle the date: some admissible value is no date, or all values that can win have one date. -/
def AxiomsSettle (reader : DateReader) (n : Notice) (identifier : String) : Prop :=
  Readable reader n identifier → ∀ instrumentType t t', CanWin reader n identifier instrumentType t →
    CanWin reader n identifier instrumentType t' → reader.fromisoformat t.value = reader.fromisoformat t'.value

theorem Readable.date (h : Readable reader n identifier) (ht : Admissible reader n identifier instrumentType t) :
    reader.fromisoformat t.value = some (t.date reader) := by
  obtain ⟨date, hdate⟩ := Option.ne_none_iff_exists'.1 (h instrumentType t ht)
  unfold Triple.date
  rw [hdate]
  rfl

/-- Where the axioms settle the date, every order of the notice gives the date that this one gives. -/
theorem stable_of_settle (h : AxiomsSettle reader n identifier) (hreordered : Reordered n n') :
    (effectiveDate reader n' identifier).toOption = (effectiveDate reader n identifier).toOption := by
  -- a date of either is that of a value that can win, and some value wins as soon as one is admissible
  have hboth : ∀ {m m' : Notice}, Reordered n m → Reordered n m' → ∀ date,
      (effectiveDate reader m identifier).toOption = some date → (effectiveDate reader m' identifier).toOption = some date := by
    intro m m' hm hm' date hdate
    obtain ⟨hreadable, instrumentType, t, hwins, rfl⟩ := date_iff_wins.1 hdate
    have hread := hm.readable.1 hreadable
    obtain ⟨t', hwins'⟩ := exists_wins (hm'.admissible.2 (hm.admissible.1 hwins.admissible))
    refine date_iff_wins.2 ⟨hm'.readable.2 hread, instrumentType, t', hwins', ?_⟩
    have heq := h hread instrumentType t' t (hm'.canWin.1 hwins'.canWin) (hm.canWin.1 hwins.canWin)
    unfold Triple.date
    rw [heq]
  have hself : Reordered n n := ⟨⟨n.blocks, .refl _, List.forall₂_same.2 fun b _ => ⟨rfl, .refl _⟩⟩, .refl _⟩
  exact Option.ext fun date => ⟨hboth hreordered hself date, hboth hself hreordered date⟩

/-- **The date is order-free if and only if the axioms settle it.** -/
theorem effective_date_order_free_iff (reader : DateReader) (n : Notice) (identifier : String) :
    OrderFree reader n identifier ↔ AxiomsSettle reader n identifier := by
  constructor
  · intro h hreadable instrumentType t t' ht ht'
    have hdate : ∀ {t : Triple}, CanWin reader n identifier instrumentType t →
        (effectiveDate reader n identifier).toOption = some (t.date reader) := by
      intro t ht
      obtain ⟨n', hreordered, hwins⟩ := ht.exists_wins
      rw [← h.stable n' hreordered]
      exact date_iff_wins.2 ⟨hreordered.readable.2 hreadable, instrumentType, t, hwins, rfl⟩
    have heq := Option.some_inj.1 ((hdate ht).symm.trans (hdate ht'))
    rw [hreadable.date ht.1, hreadable.date ht'.1, heq]
  · intro h
    refine ⟨fun n' => stable_of_settle h, fun date hdate => ?_, fun group stamp hgroup hstamp => ?_⟩
    · have hdate' : (effectiveDate reader n identifier).toOption = some date := by
        rw [hdate]
        rfl
      obtain ⟨hreadable, instrumentType, t, hwins, rfl⟩ := date_iff_wins.1 hdate'
      refine ⟨instrumentType, t, hwins.admissible, hreadable.date hwins.admissible, ?_, fun t' ht' => ?_⟩
      · intro ownId hbase hforeign
        obtain ⟨ownId', hbase', hsubject⟩ := hwins.admissible.subject
        obtain rfl : ownId = ownId' := Except.ok.inj (hbase.symm.trans hbase')
        rcases hsubject with hown | ⟨hnot, -⟩
        · exact hforeign.2 hown
        · exact hnot hforeign
      · rcases Prod.Lex.toLex_le_toLex.1 (hwins.least t' ht') with hlt | ⟨heq, hle⟩
        · exact .inl hlt
        · exact .inr ⟨heq, _, hreadable.date ht', hle⟩
    · refine date_of_base ?_
      rw [baseCelex_consolidatedName hgroup hstamp, baseCelex_baseName hgroup]

/-! ## A notice the date depends on the order of -/

/-- `date.fromisoformat` of the form YYYY-MM-DD. -/
def isoDates : DateReader where
  digits := ⟨fun _ => none, fun _ => false⟩
  fromisoformat s := do
    let (year, text) ← field 4 s.toList
    let text ← expect '-' text
    let (month, text) ← field 2 text
    let text ← expect '-' text
    let (day, text) ← field 2 text
    if text = [] ∧ 1 ≤ year ∧ 1 ≤ month ∧ month ≤ 12 ∧ 1 ≤ day ∧ day ≤ daysInMonth year month then
      some (daysBeforeYear year + daysBeforeMonth year month + day)
    else none

/-- An element without children. -/
def leaf (tag : String) (attributes : List (String × String)) (text : String) : Element := .mk 0 tag attributes text [] ""

def actIri : String := "http://publications.europa.eu/resource/oj/L_202402847"

def entryIntoForce : String := "resource_legal_date_entry-into-force"

/-- An axiom about a date of the act. -/
def axiomElement (value typeOfDate commentOnDate : String) : Element :=
  .mk 0 "Description" [] "" [leaf "type_of_date" [] typeOfDate, leaf "comment_on_date" [] commentOnDate,
    leaf "annotatedTarget" [] value,
    leaf "annotatedProperty" [(rdfResource, "http://publications.europa.eu/ontology/cdm#" ++ entryIntoForce)] "",
    leaf "annotatedSource" [(rdfResource, actIri)] ""] ""

/-- An act in force from 2024-12-10 that applies from 2027-12-11, with its axioms. -/
def craNotice (axioms : List Element) : Element :=
  .mk 0 "RDF" [] "" (.mk 0 "Description" [(rdfAbout, actIri)] "" [leaf legalIdCelex [] "32024R2847",
    leaf entryIntoForce [] "2024-12-10", leaf entryIntoForce [] "2027-12-11"] "" :: axioms) ""

/-- The entry into force, and the application from 2027-12-11: in general, and of the provisions of one article. -/
def entry : Element := axiomElement "2024-12-10" "\x7bEV|u:EV\x7d" "\x7bART|u:A\x7d 71.1"

def general : Element := axiomElement "2027-12-11" "\x7bMA|u:MA\x7d" "\x7bART|u:A\x7d 71.2"

def part : Element := axiomElement "2027-12-11" "\x7bMA|u:MA\x7d" "\x7bMA/PART|u:MP\x7d \x7bART|u:A\x7d 71.2"

/-- **The date moves by three years** with the order of two axioms about one value. -/
theorem effective_date_moves : ¬ OrderFree isoDates (readNotice (craNotice [entry, part, general])) "32024R2847" := by
  intro h
  have hblocks : (readNotice (craNotice [entry, general, part])).blocks =
      (readNotice (craNotice [entry, part, general])).blocks := by
    decide +kernel
  have hreordered : Reordered (readNotice (craNotice [entry, part, general])) (readNotice (craNotice [entry, general, part])) := by
    refine ⟨⟨_, .refl _, ?_⟩, by decide +kernel⟩
    rw [hblocks]
    exact List.forall₂_same.2 fun b _ => ⟨rfl, .refl _⟩
  have hmoved := h.stable _ hreordered
  have hbefore : effectiveDate isoDates (readNotice (craNotice [entry, part, general])) "32024R2847" = .ok 740326 := by
    decide +kernel
  have hafter : effectiveDate isoDates (readNotice (craNotice [entry, general, part])) "32024R2847" = .ok 739230 := by
    decide +kernel
  rw [hbefore, hafter] at hmoved
  cases hmoved

end PolicySystem.CellarEli
