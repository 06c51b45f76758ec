import PolicySystem.Cleanup.NearMissFrame
import PolicySystem.Graph.Commute

/-!
# The items of a near-miss batch commute

* `MergeWrite`: the writes of one item's group;
* `framed_write`: a write of one item leaves alone what every other item of the batch reads;
* `near_miss_batch_commutes`: at its turn each item finds the digest it was signed with, and every order of the items
  ends in one graph.
-/

namespace PolicySystem

open PropertyGraph GraphWrite

/-! ## Items apart -/

/-- The item names the node id. -/
def NearMissMergeItem.Names (item : NearMissMergeItem) (id : String) : Prop := id = item.survivorId ∨ id = item.absorbedId

/-- Two items resolve two reviews and share no node id. -/
structure ItemsApart (i j : NearMissMergeItem) : Prop where
  review : i.reviewId ≠ j.reviewId
  ids : ∀ id, i.Names id → ¬ j.Names id

theorem ItemsApart.symm {i j : NearMissMergeItem} (h : ItemsApart i j) : ItemsApart j i :=
  ⟨h.review.symm, fun id hj hi => h.ids id hi hj⟩

instance : Std.Symm ItemsApart := ⟨fun _ _ h => h.symm⟩

/-! ## What a group writes -/

def ReviewKind.marker : ReviewKind → String
  | capability => "MergedCapability"
  | role => "MergedRole"

/-- The label of no merged node, marker or review. -/
def Plain (label : String) : Prop :=
  ∀ kind : ReviewKind, label ≠ kind.label ∧ label ≠ kind.marker ∧ label ≠ "PendingReview"

instance (label : String) : Decidable (Plain label) :=
  decidable_of_iff ((label ≠ "Capability" ∧ label ≠ "MergedCapability" ∧ label ≠ "PendingReview") ∧
      (label ≠ "Role" ∧ label ≠ "MergedRole" ∧ label ≠ "PendingReview"))
    ⟨fun ⟨hc, hr⟩ kind => by cases kind; exacts [hc, hr], fun h => ⟨h .capability, h .role⟩⟩

/-- The edges the item's merge puts on its survivor. -/
def Carried (g : Graph) (item : NearMissMergeItem) (e : EdgeRecord) : Prop :=
  match item.kind with
  | .capability => Brings g item.survivorId item.absorbedId e
  | .role => ∃ id, e = hasEdge item.survivorId id ∧ Shows g (hasEdge item.absorbedId id)

/-- **The writes of an item's group.** -/
inductive MergeWrite (g : Graph) (item : NearMissMergeItem) : GraphWrite NodeRef NodeContent EdgeKey PropertyMap → Prop where
  | edge {e : EdgeRecord} (f : PropertyMap → PropertyMap) : Carried g item e → MergeWrite g item (.putEdge e.base.edgeKey f)
  | marker (f : NodeContent → NodeContent) : MergeWrite g item (.put ⟨item.kind.marker, item.absorbedId⟩ f)
  | absorbed : MergeWrite g item (.drop ⟨item.kind.label, item.absorbedId⟩)
  | review : MergeWrite g item (.drop (reviewRef item.reviewId))

/-- A carried edge joins the survivor and a plain node. -/
theorem Carried.ends {g : Graph} {item : NearMissMergeItem} {e : EdgeRecord} (h : Carried g item e) :
    (e.source = ⟨item.kind.label, item.survivorId⟩ ∧ Plain e.targetLabel) ∨
      (e.target = ⟨item.kind.label, item.survivorId⟩ ∧ Plain e.sourceLabel) := by
  unfold Carried at h
  split at h
  · rename_i hkind
    rw [hkind]
    rcases h with ⟨c, source, rfl, -⟩ | ⟨policyId, rfl, -, -⟩
    · have hplain : Plain c.sourceLabel := by cases c <;> decide
      exact .inr ⟨rfl, hplain⟩
    · have hplain : Plain "Policy" := by decide
      exact .inl ⟨rfl, hplain⟩
  · rename_i hkind
    rw [hkind]
    obtain ⟨id, rfl, -⟩ := h
    have hplain : Plain "Obligation" := by decide
    exact .inl ⟨rfl, hplain⟩

/-- The writes of the shape every merge group has. -/
theorem mergeShape_writes {es : List EdgeRecord} {label marker survivorId absorbedId reviewId : String} {ps : List Primitive}
    (h : buildGroup (mergeShape es label marker survivorId absorbedId (deleteReview (some reviewId))) = some ps) :
    (∀ p ∈ ps, isStamp p = false) ∧ ∀ w ∈ writesOf ps, (∃ e ∈ es, ∃ f, w = .putEdge e.base.edgeKey f) ∨
      (∃ f, w = .put ⟨marker, absorbedId⟩ f) ∨ w = .drop ⟨label, absorbedId⟩ ∨ w = .drop (reviewRef reviewId) := by
  have hps := build_mergeShape h
  have hmem : ∀ p ∈ ps, (∃ e ∈ es, p = .upsertEdge e.base ∅) ∨
      p = .upsertNode ⟨marker, absorbedId⟩ (mergedInto survivorId) none ∨ p = .deleteNode ⟨label, absorbedId⟩ ∨
        p = .deleteNode (reviewRef reviewId) := by
    intro p hp
    rw [hps] at hp
    simp only [List.mem_append, List.mem_map, List.mem_cons, List.not_mem_nil, or_false, Option.map_some,
      Option.toList_some] at hp
    rcases hp with (⟨e, he, rfl⟩ | hp | hp) | hp
    · exact .inl ⟨e, he, rfl⟩
    · exact .inr (.inl hp)
    · exact .inr (.inr (.inl hp))
    · exact .inr (.inr (.inr hp))
  constructor
  · intro p hp
    rcases hmem p hp with ⟨e, -, rfl⟩ | rfl | rfl | rfl <;> rfl
  · intro w hw
    obtain ⟨p, hp, hwrite⟩ := mem_writesOf.1 hw
    rcases hmem p hp with ⟨e, he, rfl⟩ | rfl | rfl | rfl <;> cases hwrite
    · exact .inl ⟨e, he, _, rfl⟩
    · exact .inr (.inl ⟨_, rfl⟩)
    · exact .inr (.inr (.inl rfl))
    · exact .inr (.inr (.inr rfl))

theorem builtGroup_ok {raws : List RawPrimitive} {ps : List Primitive} (h : builtGroup raws = .ok ps) :
    buildGroup raws = some ps := by
  unfold builtGroup at h
  split at h
  · cases h
  · cases h
    assumption

section Item

variable {sha256 : Bytes → String} {rules : TextRules} {g g' : Graph} {item i j : NearMissMergeItem}

theorem writeCapabilityMerge_writes (hkind : item.kind = .capability) {scan : ScanOrder} {expected : ExpectedCounts}
    {ps : List Primitive} (h : writeCapabilityMerge scan g item expected = .ok ps) :
    (∀ p ∈ ps, isStamp p = false) ∧ ∀ w ∈ writesOf ps, MergeWrite g item w := by
  unfold writeCapabilityMerge at h
  split at h
  · cases h
  · rename_i state hread
    split at h
    · have hbuilt := builtGroup_ok h
      rw [capabilityMergePrimitives_shape] at hbuilt
      obtain ⟨hstamps, hwrites⟩ := mergeShape_writes hbuilt
      refine ⟨hstamps, fun w hw => ?_⟩
      have hlabel : item.kind.label = "Capability" := by rw [hkind]; rfl
      have hmarker : item.kind.marker = "MergedCapability" := by rw [hkind]; rfl
      rcases hwrites w hw with ⟨e, he, f, rfl⟩ | ⟨f, rfl⟩ | rfl | rfl
      · have hbrings := (mem_mergeUpserts (mergeStateOf_read hread)).1 he
        exact .edge f (by unfold Carried; rw [hkind]; exact hbrings)
      · rw [← hmarker]
        exact .marker f
      · rw [← hlabel]
        exact .absorbed
      · exact .review
    · cases h

theorem writeRoleMerge_writes (hkind : item.kind = .role) {scan : ScanOrder} {expected : RoleExpectedCounts}
    {ps : List Primitive} (h : writeRoleMerge scan g item expected = .ok ps) :
    (∀ p ∈ ps, isStamp p = false) ∧ ∀ w ∈ writesOf ps, MergeWrite g item w := by
  unfold writeRoleMerge at h
  split at h
  · cases h
  · rename_i state hread
    split at h
    · have hbuilt := builtGroup_ok h
      rw [roleMergePrimitives_shape] at hbuilt
      obtain ⟨hstamps, hwrites⟩ := mergeShape_writes hbuilt
      refine ⟨hstamps, fun w hw => ?_⟩
      have hlabel : item.kind.label = "Role" := by rw [hkind]; rfl
      have hmarker : item.kind.marker = "MergedRole" := by rw [hkind]; rfl
      rcases hwrites w hw with ⟨e, he, f, rfl⟩ | ⟨f, rfl⟩ | rfl | rfl
      · obtain ⟨id, hid, rfl⟩ := List.mem_map.1 he
        have hborne := ((roleStateOf_read hread).absorbedObligations id).1 (mem_sortedList.1 hid)
        exact .edge f (by unfold Carried; rw [hkind]; exact ⟨id, rfl, hborne⟩)
      · rw [← hmarker]
        exact .marker f
      · rw [← hlabel]
        exact .absorbed
      · exact .review
    · cases h

/-- The group of an item holds its merge's writes only. -/
theorem itemGroup_writes {letThrough : Bool} {scan scan' : ScanOrder} {ps : List Primitive}
    (h : itemGroup sha256 rules letThrough scan scan' g item = .ok ps) :
    (∀ p ∈ ps, isStamp p = false) ∧ ∀ w ∈ writesOf ps, MergeWrite g item w := by
  unfold itemGroup at h
  split at h
  · split at h
    · rename_i hkind
      obtain ⟨planned, -, h⟩ := bind_ok.1 h
      obtain ⟨-, -, h⟩ := bind_ok.1 h
      exact writeCapabilityMerge_writes hkind h
    · rename_i hkind
      obtain ⟨planned, -, h⟩ := bind_ok.1 h
      obtain ⟨-, -, h⟩ := bind_ok.1 h
      exact writeRoleMerge_writes hkind h
  · cases h

/-- The nodes an item's group sets. -/
theorem MergeWrite.sets {w : GraphWrite NodeRef NodeContent EdgeKey PropertyMap} (h : MergeWrite g item w) {n : NodeRef}
    (hn : SetsNode w n) : n = ⟨item.kind.marker, item.absorbedId⟩ ∨ n = ⟨item.kind.label, item.absorbedId⟩ ∨
      n = reviewRef item.reviewId := by
  cases h with
  | edge f he => exact absurd hn id
  | marker f => exact .inl hn.symm
  | absorbed => exact .inr (.inl hn.symm)
  | review => exact .inr (.inr hn.symm)

/-- The nodes it joins: its survivor, or a plain one. -/
theorem MergeWrite.joins {w : GraphWrite NodeRef NodeContent EdgeKey PropertyMap} (h : MergeWrite g item w) {n : NodeRef}
    (hn : Joins w n) : n = ⟨item.kind.label, item.survivorId⟩ ∨ Plain n.label := by
  cases h with
  | edge f he =>
    rcases he.ends with ⟨hs, ht⟩ | ⟨ht, hs⟩ <;> rcases hn with rfl | rfl
    · exact .inl hs
    · exact .inr ht
    · exact .inr hs
    · exact .inl ht
  | marker f => exact absurd hn id
  | absorbed => exact absurd hn id
  | review => exact absurd hn id

/-- No node an item sets is one another item names, or plain. -/
theorem set_ne (hapart : ItemsApart i j) {n : NodeRef}
    (hi : n = ⟨i.kind.marker, i.absorbedId⟩ ∨ n = ⟨i.kind.label, i.absorbedId⟩ ∨ n = reviewRef i.reviewId) :
    (∀ kind : ReviewKind, ∀ id, j.Names id → n ≠ ⟨kind.label, id⟩) ∧ ¬ Plain n.label ∧ n ≠ reviewRef j.reviewId ∧
      n ≠ ⟨j.kind.marker, j.absorbedId⟩ := by
  have hfree : ∀ id, j.Names id → id ≠ i.absorbedId := by
    rintro id hid rfl
    exact hapart.ids _ (.inr rfl) hid
  have hlabels : ∀ kind kind' : ReviewKind, kind.marker ≠ kind'.label ∧ kind.marker ≠ "PendingReview" ∧
      kind.label ≠ "PendingReview" := by
    intro kind kind'
    cases kind <;> cases kind' <;> decide
  rcases hi with rfl | rfl | rfl
  · refine ⟨fun kind id _ h => (hlabels _ _).1 (congrArg NodeRef.label h), fun h => (h i.kind).2.1 rfl,
      fun h => (hlabels _ .role).2.1 (congrArg NodeRef.label h), fun h => ?_⟩
    exact hfree _ (.inr rfl) (congrArg NodeRef.id h).symm
  · refine ⟨fun kind id hid h => hfree id hid (congrArg NodeRef.id h).symm, fun h => (h i.kind).1 rfl,
      fun h => (hlabels _ .role).2.2 (congrArg NodeRef.label h), fun h => ?_⟩
    exact hfree _ (.inr rfl) (congrArg NodeRef.id h).symm
  · refine ⟨fun kind id _ h => (hlabels kind .role).2.2 (congrArg NodeRef.label h).symm, fun h => (h .role).2.2 rfl,
      fun h => hapart.review (congrArg NodeRef.id h), fun h => (hlabels j.kind .role).2.1 (congrArg NodeRef.label h).symm⟩

/-- **The writes of two items are apart**, so their groups commute. -/
theorem mergeWrites_apart (hapart : ItemsApart i j) {w v : GraphWrite NodeRef NodeContent EdgeKey PropertyMap}
    (hw : MergeWrite g i w) (hv : MergeWrite g j v) : Apart w v := by
  have hjoined : ∀ {i j : NearMissMergeItem} {w v}, ItemsApart i j → MergeWrite g i w → MergeWrite g j v →
      ∀ n, SetsNode w n → ¬ Joins v n := by
    intro i j w v hapart hw hv n hset hjoin
    obtain ⟨hnamed, hplain, -, -⟩ := set_ne hapart (hw.sets hset)
    rcases hv.joins hjoin with h | h
    · exact hnamed _ _ (.inl rfl) h
    · exact hplain h
  refine ⟨fun n hset hset' => ?_, fun k hset hset' => ?_, hjoined hapart hw hv,
    fun n hjoin hset => hjoined hapart.symm hv hw n hset hjoin⟩
  · obtain ⟨hnamed, -, hreview, hmarker⟩ := set_ne hapart (hw.sets hset)
    rcases hv.sets hset' with h | h | h
    · exact hmarker h
    · exact hnamed _ _ (.inr rfl) h
    · exact hreview h
  · -- both put the edge: it joins both survivors, or one survivor is plain
    cases hw with
    | edge f he =>
      cases hv with
      | edge f' he' =>
        rename_i e e'
        have hsame : e' = e := by
          have hkeys : e'.base.edgeKey = e.base.edgeKey := hset'.trans hset.symm
          rw [← EdgeRecord.base_record e', hkeys, EdgeRecord.base_record]
        subst hsame
        have hnot : ∀ kind : ReviewKind, ¬ Plain kind.label := fun kind h => (h kind).1 rfl
        have hne : (⟨i.kind.label, i.survivorId⟩ : NodeRef) ≠ ⟨j.kind.label, j.survivorId⟩ := fun h =>
          hapart.ids _ (.inl rfl) (.inl (congrArg NodeRef.id h))
        rcases he.ends with ⟨hs, ht⟩ | ⟨ht, hs⟩ <;> rcases he'.ends with ⟨hs', ht'⟩ | ⟨ht', hs'⟩
        · exact hne (hs.symm.trans hs')
        · have hlabel : e'.targetLabel = j.kind.label := congrArg NodeRef.label ht'
          rw [hlabel] at ht
          exact hnot _ ht
        · have hlabel : e'.sourceLabel = j.kind.label := congrArg NodeRef.label hs'
          rw [hlabel] at hs
          exact hnot _ hs
        · exact hne (ht.symm.trans ht')
      | marker f' => exact absurd hset' id
      | absorbed => exact absurd hset' id
      | review => exact absurd hset' id
    | marker f => exact absurd hset id
    | absorbed => exact absurd hset id
    | review => exact absurd hset id

/-! ## What an accepted Role merge knows -/

/-- Rows of two disjoint kinds among those at a node, and the rest. -/
theorem card_filter_split {α : Type} (m : Multiset α) (touch first second : α → Prop) [DecidablePred touch]
    [DecidablePred first] [DecidablePred second] (hfirst : ∀ x, first x → touch x) (hsecond : ∀ x, second x → touch x)
    (hdisjoint : ∀ x, first x → ¬ second x) :
    (m.filter touch).card = (m.filter first).card + (m.filter second).card +
      (m.filter fun x => touch x ∧ ¬ first x ∧ ¬ second x).card := by
  induction m using Multiset.induction with
  | empty => rfl
  | cons x m ih =>
    have h₁ := hfirst x
    have h₂ := hsecond x
    have h₃ := hdisjoint x
    simp only [Multiset.filter_cons, Multiset.card_add, ih]
    by_cases ht : touch x <;> by_cases hf : first x <;> by_cases hs : second x <;> simp_all
    all_goals omega

theorem length_of_mapM {α β : Type} {f : α → Option β} {xs : List α} {ys : List β} (h : xs.mapM f = some ys) :
    ys.length = xs.length := by
  have hunits := @map_eq_of_mapM _ _ _ _ (fun _ => ()) (fun _ => ()) _ _ h fun _ _ _ => rfl
  simpa using congrArg List.length hunits

/-- **The absorbed Role of an accepted merge** has no edge but its `DEFINES` and `HAS` edges, and its Obligations are
its own. -/
structure RoleAlone (g : Graph) (absorbedId : String) : Prop where
  edges : ∀ k : EdgeKey, k.record.Touches ⟨"Role", absorbedId⟩ → g.edgesAt k ≠ 0 →
    (∃ id, k.record = definesEdge id absorbedId) ∨ ∃ id, k.record = hasEdge absorbedId id
  bearers : ∀ roleId id, Shows g (hasEdge absorbedId id) → Shows g (hasEdge roleId id) → roleId = absorbedId

theorem definesPattern_selects {r : EdgeRecord} : definesPattern.Selects r ↔ r = definesEdge r.sourceId r.targetId := by
  cases r
  simp [EdgePattern.Selects, definesPattern, definesEdge]

theorem roleAlone {scan : ScanOrder} {survivorId absorbedId : String} {state : RoleMergeState}
    {survivor absorbed : RoleState} {instrumentId : String}
    (hread : readRoleMergeState scan g survivorId absorbedId = some state)
    (valid : RoleMergeValid state survivor absorbed instrumentId) : RoleAlone g absorbedId := by
  have hdegree := valid.degree
  have hforeign := valid.noForeign
  simp only [readRoleMergeState, Option.bind_eq_bind, Option.bind_eq_some_iff, Option.pure_def, Option.some.injEq] at hread
  obtain ⟨x, hx, y, hy, ps, hps, qs, hqs, rfl⟩ := hread
  simp only at hdegree hforeign
  constructor
  · -- the degree counts the `DEFINES` and `HAS` rows, so nothing is left
    have hcount := card_filter_split g.edges (fun e => e.1.source = ⟨"Role", absorbedId⟩ ∨ e.1.target = ⟨"Role", absorbedId⟩)
      (fun e => definesPattern.Selects e.1.record ∧ decide (e.1.record.targetId = absorbedId) = true)
      (fun e => hasPattern.Selects e.1.record ∧ decide (e.1.record.sourceId = absorbedId) = true)
      (by
        rintro e ⟨hsel, hid⟩
        have htarget : e.1.target.id = absorbedId := of_decide_eq_true hid
        have hlabel : e.1.target.label = "Role" := hsel.2.2
        exact .inr (by rw [← htarget, ← hlabel]))
      (by
        rintro e ⟨hsel, hid⟩
        have hsource : e.1.source.id = absorbedId := of_decide_eq_true hid
        have hlabel : e.1.source.label = "Role" := hsel.2.1
        exact .inl (by rw [← hsource, ← hlabel]))
      (by
        rintro e ⟨hdef, -⟩ ⟨hhas, -⟩
        exact absurd (hdef.1.symm.trans hhas.1) (by decide))
    have hdefines : qs.length = (g.edges.filter fun e => definesPattern.Selects e.1.record ∧
        decide (e.1.record.targetId = absorbedId) = true).card := by
      rw [length_of_mapM hqs, storedRows, ← Multiset.coe_card, scan.perm]
    have hhas : (sortedList (readObligationIds scan g absorbedId)).length = (g.edges.filter fun e =>
        hasPattern.Selects e.1.record ∧ decide (e.1.record.sourceId = absorbedId) = true).card := by
      rw [sortedList, List.length_insertionSort, readObligationIds, List.length_map, edgeRows, List.length_map, storedRows,
        ← Multiset.coe_card, scan.perm]
    rw [hdefines, hhas] at hdegree
    have hrest : (g.edges.filter fun e => (e.1.source = ⟨"Role", absorbedId⟩ ∨ e.1.target = ⟨"Role", absorbedId⟩) ∧
        ¬ (definesPattern.Selects e.1.record ∧ decide (e.1.record.targetId = absorbedId) = true) ∧
        ¬ (hasPattern.Selects e.1.record ∧ decide (e.1.record.sourceId = absorbedId) = true)) = 0 := by
      refine Multiset.card_eq_zero.1 ?_
      omega
    intro k htouch hk
    obtain ⟨p, hp⟩ := Multiset.exists_mem_of_ne_zero hk
    have hmem : (k, p) ∈ g.edges := mem_edgesAt.1 hp
    have hnot := Multiset.filter_eq_nil.1 hrest (k, p) hmem
    by_contra hother
    refine hnot ⟨htouch, ?_, ?_⟩
    · rintro ⟨hsel, hid⟩
      refine hother (.inl ⟨k.record.sourceId, ?_⟩)
      rw [← of_decide_eq_true hid]
      exact definesPattern_selects.1 hsel
    · rintro ⟨hsel, hid⟩
      refine hother (.inr ⟨k.record.targetId, ?_⟩)
      rw [← of_decide_eq_true hid]
      exact hasPattern_selects.1 hsel
  · intro roleId id hborne hother
    by_contra hne
    have hrow : hasEdge absorbedId id ∈ edgeRows scan g hasPattern fun e => e.sourceId = absorbedId :=
      mem_edgeRows.2 ⟨hborne, ⟨rfl, rfl, rfl⟩, decide_eq_true rfl⟩
    have hempty := List.flatMap_eq_nil_iff.1 hforeign _ hrow
    have hsel : (decide ((hasEdge roleId id).targetId = id) && decide ((hasEdge roleId id).sourceId ≠ absorbedId)) = true :=
      Bool.and_eq_true_iff.2 ⟨decide_eq_true rfl, decide_eq_true hne⟩
    have hbearer : hasEdge roleId id ∈ edgeRows scan g hasPattern fun b =>
        decide (b.targetId = (hasEdge absorbedId id).targetId) && decide (b.sourceId ≠ absorbedId) :=
      mem_edgeRows.2 ⟨hother, ⟨rfl, rfl, rfl⟩, hsel⟩
    rw [hempty] at hbearer
    exact absurd hbearer List.not_mem_nil

/-- What is known of an item whose preview was accepted. -/
theorem roleAlone_of_preview {scan : ScanOrder} {preview : MergePreview} (hkind : item.kind = .role)
    (h : previewMerge sha256 rules item.kind scan g item.survivorId item.absorbedId = .ok preview) :
    RoleAlone g item.absorbedId := by
  rw [hkind] at h
  simp only [previewMerge, plannedRoleMerge] at h
  split at h
  · cases h
  · rename_i state hread
    split at h
    · cases h
    · split at h
      · cases h
      · rename_i plan hplan
        obtain ⟨survivor, absorbed, instrumentId, valid, -⟩ := planRoleMerge_ok hplan
        exact roleAlone hread valid

/-! ## What one item leaves of another's reads -/

/-- No item carries an edge another one reads. -/
theorem carried_not_frame (hapart : ItemsApart i j) (halone : i.kind = .role → RoleAlone g i.absorbedId)
    {e : EdgeRecord} (he : Carried g j e) : ¬ FrameEdge g i e := by
  intro hframe
  have hfree : ∀ id, i.Names id → (⟨j.kind.label, j.survivorId⟩ : NodeRef) ≠ ⟨i.kind.label, id⟩ := fun id hid h =>
    hapart.ids id hid (.inl (congrArg NodeRef.id h).symm)
  -- an end of the edge that a frame edge has is `j`'s survivor, or plain
  have hends : ∀ id, i.Names id → ¬ e.Touches ⟨i.kind.label, id⟩ := by
    intro id hid htouch
    rcases he.ends with ⟨hs, ht⟩ | ⟨ht, hs⟩ <;> rcases htouch with h | h
    · exact hfree id hid (hs.symm.trans h)
    · exact absurd (congrArg NodeRef.label h) (ht i.kind).1
    · exact absurd (congrArg NodeRef.label h) (hs i.kind).1
    · exact hfree id hid (ht.symm.trans h)
  unfold FrameEdge at hframe
  split at hframe
  · rename_i hkind
    rw [hkind] at hends
    have htouch : ∀ id, OfCapability id e → e.Touches ⟨"Capability", id⟩ := by
      rintro id (⟨c, source, rfl⟩ | ⟨policyId, rfl⟩)
      · exact .inr rfl
      · exact .inl rfl
    rcases hframe with h | h
    · exact hends _ (.inl rfl) (htouch _ h)
    · exact hends _ (.inr rfl) (htouch _ h)
  · rename_i hkind
    rw [hkind] at hends
    rcases hframe with ⟨id, rfl⟩ | ⟨id, rfl⟩ | htouch | ⟨roleId, id, rfl, hborne⟩
    · exact hends _ (.inl rfl) (.inr rfl)
    · exact hends _ (.inl rfl) (.inl rfl)
    · exact hends _ (.inr rfl) htouch
    · -- an Obligation two absorbed Roles bear
      unfold Carried at he
      split at he
      · have hrel : "HAS" ≠ "GOVERNED_BY" ∧ ∀ c : EdgeClass, "HAS" ≠ c.relType :=
          ⟨by decide, fun c => by cases c <;> decide⟩
        rcases he with ⟨c, source, heq, -⟩ | ⟨policyId, heq, -, -⟩
        · exact hrel.2 c (congrArg EdgeRecord.relType heq)
        · exact hrel.1 (congrArg EdgeRecord.relType heq)
      · obtain ⟨id', heq, hborne'⟩ := he
        obtain rfl : id = id' := congrArg EdgeRecord.targetId heq
        have hsame := (halone hkind).bearers _ _ hborne hborne'
        exact hapart.ids _ (.inr rfl) (.inr hsame.symm)

/-- No edge an item reads touches a node another one sets. -/
theorem frame_not_touches (hapart : ItemsApart i j) (halone : i.kind = .role → RoleAlone g i.absorbedId) {n : NodeRef}
    (hn : n = ⟨j.kind.marker, j.absorbedId⟩ ∨ n = ⟨j.kind.label, j.absorbedId⟩ ∨ n = reviewRef j.reviewId) {k : EdgeKey}
    (hframe : FrameEdge g i k.record) (hk : g.edgesAt k ≠ 0) : ¬ k.record.Touches n := by
  obtain ⟨hnamed, hplain, -, -⟩ := set_ne hapart.symm hn
  have hlabel : ∀ {label id : String}, Plain label → (⟨label, id⟩ : NodeRef) ≠ n := fun h heq => hplain (heq ▸ h)
  have hobligation : Plain "Obligation" := by decide
  have hinstrument : Plain "RegulatoryInstrument" := by decide
  unfold FrameEdge at hframe
  generalize hr : k.record = r at hframe ⊢
  split at hframe
  · have hcapability : ∀ id, i.Names id → OfCapability id r → ¬ r.Touches n := by
      rintro id hid (⟨c, source, rfl⟩ | ⟨policyId, rfl⟩) (h | h)
      · have hsource : Plain c.sourceLabel := by cases c <;> decide
        exact hlabel hsource h
      · exact hnamed .capability id hid h.symm
      · exact hnamed .capability id hid h.symm
      · have hpolicy : Plain "Policy" := by decide
        exact hlabel hpolicy h
    rcases hframe with h | h
    · exact hcapability _ (.inl rfl) h
    · exact hcapability _ (.inr rfl) h
  · rename_i hkind
    have hdefines : ∀ id roleId, i.Names roleId → r = definesEdge id roleId → ¬ r.Touches n := by
      rintro id roleId hid rfl (h | h)
      · exact hlabel hinstrument h
      · exact hnamed .role roleId hid h.symm
    have hhas : ∀ id roleId, i.Names roleId → r = hasEdge roleId id → ¬ r.Touches n := by
      rintro id roleId hid rfl (h | h)
      · exact hnamed .role roleId hid h.symm
      · exact hlabel hobligation h
    rcases hframe with ⟨id, h⟩ | ⟨id, h⟩ | htouch | ⟨roleId, id, h, hborne⟩
    · exact hdefines _ _ (.inl rfl) h
    · exact hhas _ _ (.inl rfl) h
    · rcases (halone hkind).edges k (hr ▸ htouch) hk with ⟨id, h⟩ | ⟨id, h⟩
      · exact hdefines _ _ (.inr rfl) (hr.symm.trans h)
      · exact hhas _ _ (.inr rfl) (hr.symm.trans h)
    · have hshow : Shows g (hasEdge roleId id) := shows_iff.2 ⟨k, hr.trans h, hk⟩
      rw [(halone hkind).bearers _ _ hborne hshow] at h
      exact hhas _ _ (.inr rfl) h

/-- **A write of one item leaves what another reads.** -/
theorem framed_write (hapart : ItemsApart i j) (halone : i.kind = .role → RoleAlone g i.absorbedId)
    {w : GraphWrite NodeRef NodeContent EdgeKey PropertyMap} (hw : MergeWrite g j w) (h : Framed g g' i) :
    Framed g (g'.write w) i := by
  refine ⟨fun n hn => ?_, fun k hframe => ?_⟩
  · have hset : ¬ SetsNode w n := by
      intro hset
      obtain ⟨hnamed, hplain, hreview, -⟩ := set_ne hapart.symm (hw.sets hset)
      rcases hn with rfl | rfl | rfl | hlabel | hlabel
      · exact hnamed _ _ (.inl rfl) rfl
      · exact hnamed _ _ (.inr rfl) rfl
      · exact hreview rfl
      · rw [hlabel] at hplain
        exact hplain (by decide)
      · rw [hlabel] at hplain
        exact hplain (by decide)
    rw [write_nodes_frame _ hset]
    exact h.nodes n hn
  · have hset : ¬ SetsEdges w k := by
      intro hset
      cases hw with
      | edge f he =>
        have hrecord := congrArg EdgeKey.record (show _ = k from hset)
        rw [EdgeRecord.base_record] at hrecord
        rw [← hrecord] at hframe
        exact carried_not_frame hapart halone he hframe
      | marker f => exact hset
      | absorbed => exact hset
      | review => exact hset
    rw [← h.edges k hframe]
    refine write_edgesAt_frame _ hset ?_
    by_cases hk : g.edgesAt k = 0
    · exact .inl ((h.edges k hframe).trans hk)
    · exact .inr ⟨fun hs => frame_not_touches hapart halone (hw.sets hs) hframe hk (.inl rfl),
        fun ht => frame_not_touches hapart halone (hw.sets ht) hframe hk (.inr rfl)⟩

theorem framed_group (hapart : ItemsApart i j) (halone : i.kind = .role → RoleAlone g i.absorbedId) {ps : List Primitive}
    (hps : (∀ p ∈ ps, isStamp p = false) ∧ ∀ w ∈ writesOf ps, MergeWrite g j w) (h : Framed g g' i) :
    Framed g (applyAll g' ps) i := by
  rw [applyAll_eq_writeAll hps.1]
  have hwrites : ∀ ws : List (GraphWrite NodeRef NodeContent EdgeKey PropertyMap), (∀ w ∈ ws, MergeWrite g j w) →
      ∀ g', Framed g g' i → Framed g (g'.writeAll ws) i := by
    intro ws
    induction ws with
    | nil => exact fun _ _ h => h
    | cons w ws ih =>
      intro hws g' h
      exact ih (fun v hv => hws v (List.mem_cons_of_mem _ hv)) _ (framed_write hapart halone (hws w List.mem_cons_self) h)
  exact hwrites _ hps.2 _ h

end Item

/-! ## What an accepted batch has -/

/-- The item was previewed on the graph, and signs that preview's digest. -/
def Previewed (sha256 : Bytes → String) (rules : TextRules) (scan : String → ScanOrder) (g : Graph)
    (item : NearMissMergeItem) : Prop :=
  ∃ preview, previewMerge sha256 rules item.kind (scan item.reviewId) g item.survivorId item.absorbedId = .ok preview ∧
    preview.stateDigest = item.stateDigest

theorem checkShape_ok {reviewIds : List String} {u : Unit} (h : checkShape reviewIds = .ok u) : reviewIds.Nodup := by
  obtain ⟨-, -, h⟩ := bind_ok.1 h
  have hnone := not_not.1 (refuseIf_ok.1 h)
  refine List.nodup_iff_count_le_one.2 fun id => ?_
  by_contra hmore
  have hmem : id ∈ reviewIds := List.count_pos_iff.1 (by omega)
  have hdup : id ∈ sortedIds (reviewIds.filter fun id => reviewIds.count id > 1).toFinset := by
    rw [mem_sortedIds, List.mem_toFinset, List.mem_filter, decide_eq_true_eq]
    exact ⟨hmem, by omega⟩
  rw [hnone] at hdup
  exact absurd hdup List.not_mem_nil

theorem readReviewMergeSides_id {g : Graph} {reviewId : String} {side : ReviewMergeSides}
    (h : readReviewMergeSides g reviewId = .ok side) : side.reviewId = reviewId := by
  unfold readReviewMergeSides at h
  split at h
  · cases h
  · simp only at h
    split at h
    · cases h
    · split at h
      · split at h
        · cases h
          rfl
        · cases h
      · cases h

/-- The sides of an accepted request are of different reviews and share no id. -/
theorem readSides_ok {g : Graph} {reviewIds : List String} {sides : List ReviewMergeSides} (hnodup : reviewIds.Nodup)
    (h : readSides g reviewIds = .ok sides) :
    sides.Pairwise fun s t => s.reviewId ≠ t.reviewId ∧ ∀ id ∈ s.ids, id ∉ t.ids := by
  simp only [readSides] at h
  split at h
  · rename_i hnone
    cases h
    have hids : ((reviewIds.map fun id => (id, readReviewMergeSides g id)).filterMap fun read => read.2.toOption).Pairwise
        fun s t => s.reviewId ≠ t.reviewId := by
      refine List.pairwise_filterMap.2 (List.pairwise_map.2 (hnodup.imp fun {a b} hne s hs t ht => ?_))
      rw [readReviewMergeSides_id (toOption_eq_some hs), readReviewMergeSides_id (toOption_eq_some ht)]
      exact hne
    refine hids.imp_of_mem fun {s t} hs ht hne => ⟨hne, fun id hid hid' => ?_⟩
    obtain ⟨read, hread, hside⟩ := List.mem_filterMap.1 hs
    have hfinding := List.filterMap_eq_nil_iff.1 hnone read hread
    simp only [sidesFinding, toOption_eq_some hside] at hfinding
    split at hfinding
    · rename_i hshared
      -- the id would be listed with the other review
      have hlisted : (id, ((((reviewIds.map fun id => (id, readReviewMergeSides g id)).filterMap
          fun read => read.2.toOption).filter fun t => decide (t.reviewId ≠ s.reviewId ∧ id ∈ t.ids)).map
            ReviewMergeSides.reviewId)) ∈ sharedIds ((reviewIds.map fun id => (id, readReviewMergeSides g id)).filterMap
              fun read => read.2.toOption) s := by
        simp only [sharedIds, List.mem_filter, List.mem_map, List.mem_dedup, decide_eq_true_eq]
        refine ⟨⟨id, ?_, rfl⟩, ?_⟩
        · simpa [ReviewMergeSides.ids] using hid
        · intro hempty
          have hmem : t ∈ ((reviewIds.map fun id => (id, readReviewMergeSides g id)).filterMap
              fun read => read.2.toOption).filter fun t => decide (t.reviewId ≠ s.reviewId ∧ id ∈ t.ids) :=
            List.mem_filter.2 ⟨ht, decide_eq_true ⟨hne.symm, hid'⟩⟩
          rw [List.map_eq_nil_iff.1 hempty] at hmem
          exact absurd hmem List.not_mem_nil
      rw [hshared] at hlisted
      exact absurd hlisted List.not_mem_nil
    · cases hfinding
  · cases h

theorem chooseSurvivor_ids (sides : ReviewMergeSides) :
    (chooseSurvivor sides).1 ∈ sides.ids ∧ (chooseSurvivor sides).2 ∈ sides.ids := by
  unfold chooseSurvivor
  split <;> simp [ReviewMergeSides.ids]

section Batch

variable {sha256 : Bytes → String} {rules : TextRules} {scan : String → ScanOrder} {g g' : Graph}

theorem entryAndItem_ok {acknowledged : Finset String} {sides : ReviewMergeSides}
    {entry : MergePreview × NearMissMergeItem}
    (h : entryAndItem sha256 rules (scan sides.reviewId) g acknowledged sides = .ok entry) :
    entry.2.reviewId = sides.reviewId ∧ (∀ id, entry.2.Names id → id ∈ sides.ids) ∧
      Previewed sha256 rules scan g entry.2 := by
  obtain ⟨preview, hpreview, hentry⟩ := bind_ok.1 h
  cases hentry
  obtain ⟨hsurvivor, habsorbed⟩ := chooseSurvivor_ids sides
  refine ⟨rfl, fun id hid => ?_, preview, hpreview, rfl⟩
  rcases hid with rfl | rfl
  · exact hsurvivor
  · exact habsorbed

/-- **The items of an accepted batch** are apart, and each was previewed. -/
theorem createNearMissMergeBatch_ok {reviewIds : List String} {acknowledged : Finset String}
    {items : List NearMissMergeItem}
    (h : createNearMissMergeBatch sha256 rules scan g reviewIds acknowledged = .ok items) :
    items.Pairwise ItemsApart ∧ ∀ item ∈ items, Previewed sha256 rules scan g item := by
  obtain ⟨checked, hshape, h⟩ := bind_ok.1 h
  obtain ⟨sides, hsides, h⟩ := bind_ok.1 h
  have happart := readSides_ok (checkShape_ok hshape) hsides
  obtain ⟨-, -, h⟩ := bind_ok.1 h
  have hitems : items = sides.filterMap fun s =>
      (entryAndItem sha256 rules (scan s.reviewId) g acknowledged s).toOption.map Prod.snd := by
    simp only [List.filterMap_map] at h
    split at h
    · split at h
      · cases h
        rw [List.map_filterMap]
        rfl
      · cases h
    · cases h
  have hmade : ∀ s item, (entryAndItem sha256 rules (scan s.reviewId) g acknowledged s).toOption.map Prod.snd = some item →
      item.reviewId = s.reviewId ∧ (∀ id, item.Names id → id ∈ s.ids) ∧ Previewed sha256 rules scan g item := by
    intro s item hs
    obtain ⟨entry, hentry, rfl⟩ := Option.map_eq_some_iff.1 hs
    exact entryAndItem_ok (toOption_eq_some hentry)
  constructor
  · rw [hitems]
    refine List.pairwise_filterMap.2 (happart.imp fun {s t} hst i hi j hj => ?_)
    obtain ⟨hreview, hids, -⟩ := hmade s i hi
    obtain ⟨hreview', hids', -⟩ := hmade t j hj
    refine ⟨?_, fun id hid hid' => hst.2 id (hids id hid) (hids' id hid')⟩
    rw [hreview, hreview']
    exact hst.1
  · intro item hitem
    rw [hitems] at hitem
    obtain ⟨s, -, hs⟩ := List.mem_filterMap.1 hitem
    exact (hmade s item hs).2.2

/-! ## The runs -/

variable (sha256 rules scan) in
/-- The group an item submits on the graph it was previewed on; none where it fails. -/
def groupOf (letThrough : NearMissMergeItem → Bool) (g : Graph) (item : NearMissMergeItem) : List Primitive :=
  match itemGroup sha256 rules (letThrough item) (scan item.reviewId) (scan item.reviewId) g item with
  | .ok ps => ps
  | .error _ => []

theorem groupOf_writes (letThrough : NearMissMergeItem → Bool) (item : NearMissMergeItem) :
    (∀ p ∈ groupOf sha256 rules scan letThrough g item, isStamp p = false) ∧
      ∀ w ∈ writesOf (groupOf sha256 rules scan letThrough g item), MergeWrite g item w := by
  unfold groupOf
  split
  · rename_i ps hps
    exact itemGroup_writes hps
  · exact ⟨fun p hp => absurd hp List.not_mem_nil, fun w hw => absurd hw List.not_mem_nil⟩

/-- One item's turn: it submits the group of the previewed graph. -/
theorem turn_eq {letThrough : NearMissMergeItem → Bool} {item : NearMissMergeItem} (hpreviewed : Previewed sha256 rules scan g item)
    (hframe : Framed g g' item) (scan₁ scan₂ : ScanOrder) :
    itemGroup sha256 rules (letThrough item) scan₁ scan₂ g' item =
      itemGroup sha256 rules (letThrough item) (scan item.reviewId) (scan item.reviewId) g item := by
  obtain ⟨preview, hpreview, -⟩ := hpreviewed
  exact itemGroup_framed hframe hpreview _ scan₁ scan₂

theorem Previewed.alone {item : NearMissMergeItem} (h : Previewed sha256 rules scan g item) :
    item.kind = .role → RoleAlone g item.absorbedId := by
  obtain ⟨preview, hpreview, -⟩ := h
  exact fun hkind => roleAlone_of_preview hkind hpreview

/-- **A run applies the groups of the previewed graph in its order**, and leaves what every other item reads. -/
theorem run_eq {letThrough : NearMissMergeItem → Bool} {items : List NearMissMergeItem} {h h' : Graph}
    (hrun : BatchRun sha256 rules letThrough h items h') (hpreviewed : ∀ i ∈ items, Previewed sha256 rules scan g i)
    (happart : items.Pairwise ItemsApart) (hframed : ∀ i ∈ items, Framed g h i) :
    h' = items.foldl (fun h i => applyAll h (groupOf sha256 rules scan letThrough g i)) h ∧
      ∀ i, Previewed sha256 rules scan g i → (∀ j ∈ items, ItemsApart i j) → Framed g h i → Framed g h' i := by
  induction hrun with
  | done g' => exact ⟨rfl, fun i _ _ h => h⟩
  | @merged h h' item items ps scan₁ scan₂ hgroup hrest ih =>
    rw [turn_eq (hpreviewed item List.mem_cons_self) (hframed item List.mem_cons_self)] at hgroup
    have hps : groupOf sha256 rules scan letThrough g item = ps := by rw [groupOf, hgroup]
    obtain ⟨hhead, htail⟩ := List.pairwise_cons.1 happart
    have hkeeps : ∀ i, Previewed sha256 rules scan g i → ItemsApart i item → Framed g h i → Framed g (applyAll h ps) i :=
      fun i hi hia hfi => framed_group hia hi.alone (itemGroup_writes hgroup) hfi
    obtain ⟨hfinal, hkept⟩ := ih (fun i hi => hpreviewed i (List.mem_cons_of_mem _ hi)) htail fun i hi =>
      hkeeps i (hpreviewed i (List.mem_cons_of_mem _ hi)) (hhead i hi).symm (hframed i (List.mem_cons_of_mem _ hi))
    refine ⟨by rw [List.foldl_cons, hps]; exact hfinal, fun i hi hapart hframe => ?_⟩
    exact hkept i hi (fun j hj => hapart j (List.mem_cons_of_mem _ hj)) (hkeeps i hi (hapart item List.mem_cons_self) hframe)
  | @failed h h' item items failure scan₁ scan₂ hgroup hrest ih =>
    rw [turn_eq (hpreviewed item List.mem_cons_self) (hframed item List.mem_cons_self)] at hgroup
    have hps : groupOf sha256 rules scan letThrough g item = [] := by rw [groupOf, hgroup]
    obtain ⟨hfinal, hkept⟩ := ih (fun i hi => hpreviewed i (List.mem_cons_of_mem _ hi)) (List.pairwise_cons.1 happart).2
      fun i hi => hframed i (List.mem_cons_of_mem _ hi)
    refine ⟨by rw [List.foldl_cons, hps]; exact hfinal, fun i hi hapart hframe => ?_⟩
    exact hkept i hi (fun j hj => hapart j (List.mem_cons_of_mem _ hj)) hframe

/-- The groups of a batch in any order give one graph. -/
theorem foldl_groups_perm {letThrough : NearMissMergeItem → Bool} {items order : List NearMissMergeItem}
    (happart : items.Pairwise ItemsApart) (hperm : order.Perm items) (h : Graph) :
    order.foldl (fun h i => applyAll h (groupOf sha256 rules scan letThrough g i)) h =
      items.foldl (fun h i => applyAll h (groupOf sha256 rules scan letThrough g i)) h := by
  have hwrites : ∀ (h : Graph) (i : NearMissMergeItem), applyAll h (groupOf sha256 rules scan letThrough g i) =
      h.writeAll (writesOf (groupOf sha256 rules scan letThrough g i)) := fun h i =>
    applyAll_eq_writeAll (groupOf_writes letThrough i).1 h
  have hall := fun i (hi : i ∈ items) j (hj : j ∈ items) hne => happart.forall hi hj hne
  simp only [hwrites]
  refine (writeAll_perm hperm.symm (fun i hi j hj hne w hw v hv => ?_) h).symm
  exact mergeWrites_apart (hall i hi j hj hne) ((groupOf_writes letThrough i).2 w hw) ((groupOf_writes letThrough j).2 v hv)

/-- Every item has an outcome, so a batch can be executed in every order. -/
theorem exists_run (scan : ScanOrder) (letThrough : NearMissMergeItem → Bool) (items : List NearMissMergeItem) (h : Graph) :
    ∃ h', BatchRun sha256 rules letThrough h items h' := by
  induction items generalizing h with
  | nil => exact ⟨h, .done h⟩
  | cons item items ih =>
    cases hgroup : itemGroup sha256 rules (letThrough item) scan scan h item with
    | ok ps =>
      obtain ⟨h', hrest⟩ := ih (applyAll h ps)
      exact ⟨h', .merged _ _ hgroup hrest⟩
    | error failure =>
      obtain ⟨h', hrest⟩ := ih h
      exact ⟨h', .failed _ _ hgroup hrest⟩

/-- **The items of an accepted batch commute.** In whatever order they run, with no other write and whichever of them
the approver's role, the audit trail or the gateway stops, each finds at its turn the digest it was signed with, and the
final graph is the same. -/
theorem near_miss_batch_commutes {reviewIds : List String} {acknowledged : Finset String} {items : List NearMissMergeItem}
    (hcreate : createNearMissMergeBatch sha256 rules scan g reviewIds acknowledged = .ok items)
    (letThrough : NearMissMergeItem → Bool) :
    (∀ done item rest, (done ++ item :: rest).Perm items → ∀ h, BatchRun sha256 rules letThrough g done h →
      ∀ scan', (previewMerge sha256 rules item.kind scan' h item.survivorId item.absorbedId).map MergePreview.stateDigest =
        .ok item.stateDigest) ∧
    ∀ order order', order.Perm items → order'.Perm items → ∀ h h', BatchRun sha256 rules letThrough g order h →
      BatchRun sha256 rules letThrough g order' h' → h = h' := by
  obtain ⟨happart, hpreviewed⟩ := createNearMissMergeBatch_ok hcreate
  have hapart_perm : ∀ order : List NearMissMergeItem, order.Perm items → order.Pairwise ItemsApart := fun order hperm =>
    (hperm.pairwise_iff fun hij => hij.symm).2 happart
  constructor
  · intro done item rest hperm h hrun scan'
    obtain ⟨hdone, hrest, hbetween⟩ := List.pairwise_append.1 (hapart_perm _ hperm)
    have hmem : ∀ i ∈ done ++ item :: rest, Previewed sha256 rules scan g i := fun i hi =>
      hpreviewed i (hperm.subset hi)
    have hitem : Previewed sha256 rules scan g item := hmem item (by simp)
    obtain ⟨-, hkept⟩ := run_eq hrun (fun i hi => hmem i (List.mem_append_left _ hi)) hdone fun i _ => Framed.refl g i
    have hframe := hkept item hitem (fun j hj => (hbetween j hj item List.mem_cons_self).symm) (Framed.refl g item)
    obtain ⟨preview, hpreview, hdigest⟩ := hitem
    rw [previewMerge_framed hframe hpreview scan', ← hdigest]
    rfl
  · intro order order' hperm hperm' h h' hrun hrun'
    have hfinal : ∀ order h, order.Perm items → BatchRun sha256 rules letThrough g order h →
        h = items.foldl (fun h i => applyAll h (groupOf sha256 rules scan letThrough g i)) g := by
      intro order h hperm hrun
      obtain ⟨heq, -⟩ := run_eq hrun (fun i hi => hpreviewed i (hperm.subset hi)) (hapart_perm _ hperm)
        fun i _ => Framed.refl g i
      rw [heq, foldl_groups_perm happart hperm]
    rw [hfinal order h hperm hrun, hfinal order' h' hperm' hrun']

end Batch

/-! ## Two pairs that share an Obligation -/

def capabilityNode (id name : String) : Primitive :=
  .upsertNode ⟨"Capability", id⟩ ((∅ : PropertyMap).insert "name" (.scalar (.str name))) none

def reviewNode (id incomingId existingId : String) : Primitive :=
  .upsertNode (reviewRef id) ((((∅ : PropertyMap).insert "kind" (.scalar (.str "Capability"))).insert "incoming_id"
    (.scalar (.str incomingId))).insert "nearest_existing_id" (.scalar (.str existingId))) none

/-- Capabilities a, b and c, d under review; the Obligation o requires b and d. -/
def twoPairs : Graph :=
  applyAll ∅ [.upsertNode ⟨"Obligation", "o"⟩ ∅ none, capabilityNode "a" "A", capabilityNode "b" "B", capabilityNode "c" "C",
    capabilityNode "d" "D", .upsertEdge (requiresEdge "o" "b").base ∅, .upsertEdge (requiresEdge "o" "d").base ∅,
    reviewNode "r1" "a" "b", reviewNode "r2" "c" "d"]

def requiresRow (id : String) : EdgeKey × PropertyMap := ((requiresEdge "o" id).base.edgeKey, ∅)

noncomputable def twoPairsScan : ScanOrder where
  order m := if m = 0 then [] else if m = {requiresRow "b"} then [requiresRow "b"]
    else if m = {requiresRow "d"} then [requiresRow "d"] else m.toList
  perm m := by
    split
    · rename_i h
      rw [h]
      rfl
    · split
      · rename_i h
        rw [h]
        rfl
      · split
        · rename_i h
          rw [h]
          rfl
        · exact Multiset.coe_toList m

def asciiRules : TextRules := ⟨String.toLower, fun c => c.isAlphanum || c = '_'⟩

/-- The canonical text of the state of two Capabilities, the second required by o. -/
def pairText (survivorId absorbedId survivorName absorbedName : String) : String :=
  "\x7b\"edges\":[\x7b\"rel_type\":\"REQUIRES\",\"source_id\":\"o\",\"source_label\":\"Obligation\",\"target_id\":\"" ++
    absorbedId ++ "\",\"target_label\":\"Capability\"\x7d],\"nodes\":[\x7b\"id\":\"" ++ survivorId ++
    "\",\"label\":\"Capability\",\"properties\":\x7b\"name\":\"" ++ survivorName ++
    "\",\"status\":\"active\"\x7d\x7d,\x7b\"id\":\"" ++ absorbedId ++
    "\",\"label\":\"Capability\",\"properties\":\x7b\"name\":\"" ++ absorbedName ++ "\",\"status\":\"active\"\x7d\x7d]\x7d"

/-- SHA-256 of the two texts the batch hashes. -/
def twoPairsHash (text : Bytes) : String :=
  if text = (pairText "a" "b" "A" "B").toUTF8.data.toList then
    "9a99734ce884d9b4405f845207f83146aebb6d0bdc47bc98dfa49d1b09b8ec28"
  else if text = (pairText "c" "d" "C" "D").toUTF8.data.toList then
    "6270746b4cfba4228592f3a8ee3036deb30490a9d5d4ad74e215620612b727c9"
  else ""

def twoItems : List NearMissMergeItem :=
  [⟨"r1", .capability, "a", "b", "9a99734ce884d9b4405f845207f83146aebb6d0bdc47bc98dfa49d1b09b8ec28", false⟩,
    ⟨"r2", .capability, "c", "d", "6270746b4cfba4228592f3a8ee3036deb30490a9d5d4ad74e215620612b727c9", false⟩]

/-- Both orders of the two merges end in one graph. -/
theorem near_miss_batch_commutes_twoPairs :
    createNearMissMergeBatch twoPairsHash asciiRules (fun _ => twoPairsScan) twoPairs ["r1", "r2"] ∅ = .ok twoItems ∧
      ∃ h, BatchRun twoPairsHash asciiRules (fun _ => true) twoPairs twoItems h ∧
        BatchRun twoPairsHash asciiRules (fun _ => true) twoPairs twoItems.reverse h ∧
        (⟨"Capability", "b"⟩ : NodeRef) ∉ h.nodes := by
  have hcreate : createNearMissMergeBatch twoPairsHash asciiRules (fun _ => twoPairsScan) twoPairs ["r1", "r2"] ∅ =
      .ok twoItems := toOption_eq_some (by decide +kernel)
  obtain ⟨happart, hpreviewed⟩ := createNearMissMergeBatch_ok hcreate
  obtain ⟨h, hrun⟩ := @exists_run twoPairsHash asciiRules twoPairsScan (fun _ => true) twoItems twoPairs
  obtain ⟨h', hrun'⟩ := @exists_run twoPairsHash asciiRules twoPairsScan (fun _ => true) twoItems.reverse twoPairs
  have hsame : h = h' := (near_miss_batch_commutes hcreate fun _ => true).2 twoItems twoItems.reverse (.refl _)
    (List.reverse_perm _) h h' hrun hrun'
  have hfinal := (run_eq hrun hpreviewed happart fun i _ => Framed.refl twoPairs i).1
  have hgone : (⟨"Capability", "b"⟩ : NodeRef) ∉ (twoItems.foldl (fun h i => applyAll h
      (groupOf twoPairsHash asciiRules (fun _ => twoPairsScan) (fun _ => true) twoPairs i)) twoPairs).nodes := by
    decide +kernel
  refine ⟨hcreate, h, hrun, ?_, ?_⟩
  · rw [hsame]
    exact hrun'
  · rw [hfinal]
    exact hgone

end PolicySystem
