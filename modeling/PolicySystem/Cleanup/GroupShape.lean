import PolicySystem.Cleanup.MergeGuard
import PolicySystem.Cleanup.UnmergePlanner

/-!
# The two shapes of a cleanup group

A merge group moves edges onto the survivor, writes the marker and deletes the absorbed node; the group that takes it
back writes the node again and deletes the marker.

* `mergeShape_edgesAt`, `mergeShape_nodes`: what a merge group leaves;
* `accept_node_isSome`: a recorded node is written again.
-/

namespace PolicySystem

open PropertyGraph GraphWrite Std

/-! ## Blocks of edge writes -/

/-- The key has the standard identity of its type and endpoints. -/
def EdgeKey.Standard (k : EdgeKey) : Prop := k.record.base.edgeKey = k

instance (k : EdgeKey) : Decidable k.Standard := inferInstanceAs (Decidable (_ = _))

@[simp] theorem EdgeRecord.base_standard (e : EdgeRecord) : e.base.edgeKey.Standard := rfl

theorem exists_key_iff {es : List EdgeRecord} {k : EdgeKey} :
    (∃ e ∈ es, e.base.edgeKey = k) ↔ k.record ∈ es ∧ k.Standard := by
  constructor
  · rintro ⟨e, he, rfl⟩
    exact ⟨he, rfl⟩
  · rintro ⟨he, hk⟩
    exact ⟨_, he, hk⟩

/-- At least one edge: what is there, or a new one without properties. -/
def settled (edges : Multiset PropertyMap) : Multiset PropertyMap := if edges = 0 then {∅} else edges

@[simp] theorem settled_settled (edges : Multiset PropertyMap) : settled (settled edges) = settled edges := by
  by_cases h : edges = 0 <;> simp [settled, h]

theorem settled_ne_zero (edges : Multiset PropertyMap) : settled edges ≠ 0 := by
  unfold settled
  split
  · exact Multiset.singleton_ne_zero _
  · assumption

theorem le_settled (edges : Multiset PropertyMap) : edges ≤ settled edges := by
  unfold settled
  split
  · rename_i hnone
    rw [hnone]
    exact Multiset.zero_le _
  · exact le_rfl

theorem upsertEdge_edgesAt {g : Graph} {e : EdgeRecord} {k : EdgeKey} :
    (applyOne g (.upsertEdge e.base ∅)).edgesAt k =
      if e.base.edgeKey = k then (if g.hasEnds k then settled (g.edgesAt k) else g.edgesAt k) else g.edgesAt k := by
  have hunion : (fun p : PropertyMap => p ∪ ∅) = id := by
    funext p
    refine ExtTreeMap.ext_getElem? fun key => ?_
    rw [ExtTreeMap.getElem?_union]
    rfl
  rw [applyOne_eq_write rfl, write_edgesAt]
  simp only [edgeStep, hunion]
  by_cases hkey : e.base.edgeKey = k
  · by_cases hends : g.hasEnds k = true
    · have hnew : (default : PropertyMap) = ∅ := rfl
      by_cases hold : g.edgesAt k = 0 <;> simp [upsertAt, settled, hkey, hends, hold, hnew]
    · have hnone : g.edgesAt k = 0 := by
        by_contra hsome
        obtain ⟨p, hp⟩ := Multiset.exists_mem_of_ne_zero hsome
        have := g.closed _ (mem_edgesAt.1 hp)
        simp [hasEnds] at hends
        exact hends this.1 this.2
      simp [upsertAt, hkey, hends, hnone]
  · rw [if_neg hkey, if_neg hkey]

theorem upserts_nodes (g : Graph) (es : List EdgeRecord) :
    (applyAll g (es.map fun e => .upsertEdge e.base ∅)).nodes = g.nodes := by
  induction es generalizing g with
  | nil => rfl
  | cons e es ih =>
    rw [List.map_cons, applyAll_cons, ih]
    rfl

/-- **A block of upserts**, at one key whose endpoints exist where the block names it. -/
theorem upserts_edgesAt {g : Graph} {es : List EdgeRecord} {k : EdgeKey} (hends : k.record ∈ es → g.hasEnds k = true) :
    (applyAll g (es.map fun e => .upsertEdge e.base ∅)).edgesAt k =
      if k.record ∈ es ∧ k.Standard then settled (g.edgesAt k) else g.edgesAt k := by
  simp only [← exists_key_iff]
  induction es generalizing g with
  | nil => simp
  | cons e es ih =>
    have hkept : (applyOne g (.upsertEdge e.base ∅)).hasEnds k = g.hasEnds k := rfl
    rw [List.map_cons, applyAll_cons, ih (fun h => by rw [hkept]; exact hends (List.mem_cons_of_mem _ h)),
      upsertEdge_edgesAt]
    by_cases hkey : e.base.edgeKey = k
    · have hmem : k.record ∈ e :: es := by
        rw [← hkey]
        exact List.mem_cons_self
      rw [if_pos hkey, if_pos (hends hmem), settled_settled, ite_self,
        if_pos ⟨e, List.mem_cons_self, hkey⟩]
    · have hcons : (∃ f ∈ e :: es, f.base.edgeKey = k) ↔ ∃ f ∈ es, f.base.edgeKey = k := by
        simp [hkey]
      rw [if_neg hkey]
      simp only [hcons]

theorem upserts_edgesAt_not_mem {g : Graph} {es : List EdgeRecord} {k : EdgeKey} (h : k.record ∉ es) :
    (applyAll g (es.map fun e => .upsertEdge e.base ∅)).edgesAt k = g.edgesAt k := by
  rw [upserts_edgesAt fun hmem => absurd hmem h, if_neg fun hmem => h hmem.1]

/-- **A block of deletes**, at one key. -/
theorem deletes_edgesAt {g : Graph} {es : List EdgeRecord} {k : EdgeKey} :
    (applyAll g (es.map fun e => .deleteEdge e.base)).edgesAt k =
      if k.record ∈ es ∧ k.Standard then 0 else g.edgesAt k := by
  simp only [← exists_key_iff]
  induction es generalizing g with
  | nil => simp
  | cons e es ih =>
    have hone : (applyOne g (.deleteEdge e.base)).edgesAt k = if e.base.edgeKey = k then 0 else g.edgesAt k := by
      rw [applyOne_eq_write rfl, write_edgesAt]
      rfl
    rw [List.map_cons, applyAll_cons, ih, hone]
    by_cases hkey : e.base.edgeKey = k
    · rw [if_pos hkey, ite_self, if_pos ⟨e, List.mem_cons_self, hkey⟩]
    · have hcons : (∃ f ∈ e :: es, f.base.edgeKey = k) ↔ ∃ f ∈ es, f.base.edgeKey = k := by
        simp [hkey]
      rw [if_neg hkey]
      simp only [hcons]

theorem deletes_nodes (g : Graph) (es : List EdgeRecord) :
    (applyAll g (es.map fun e => .deleteEdge e.base)).nodes = g.nodes := by
  induction es generalizing g with
  | nil => rfl
  | cons e es ih =>
    rw [List.map_cons, applyAll_cons, ih]
    rfl

theorem upsertNode_edgesAt (g : Graph) (n : NodeRef) (properties : PropertyMap) (embedding : Option Embedding) (k : EdgeKey) :
    (applyOne g (.upsertNode n properties embedding)).edgesAt k = g.edgesAt k := by
  rw [applyOne_eq_write rfl, write_edgesAt]
  rfl

theorem upsertNode_nodes (g : Graph) {n m : NodeRef} (properties : PropertyMap) (embedding : Option Embedding) (h : n ≠ m) :
    (applyOne g (.upsertNode n properties embedding)).nodes[m]? = g.nodes[m]? := by
  rw [applyOne_eq_write rfl, write_nodes]
  simp [nodeStep, h]

theorem mem_upsertNode {g : Graph} {n m : NodeRef} {properties : PropertyMap} {embedding : Option Embedding}
    (h : m = n ∨ m ∈ g.nodes) : m ∈ (applyOne g (.upsertNode n properties embedding)).nodes := by
  rw [ExtTreeMap.mem_iff_isSome_getElem?]
  by_cases heq : n = m
  · rw [applyOne_eq_write rfl, write_nodes]
    simp [nodeStep, heq]
  · rw [upsertNode_nodes g properties embedding heq]
    exact ExtTreeMap.mem_iff_isSome_getElem?.1 (h.resolve_left (Ne.symm heq))

theorem deleteNode_edgesAt_kept (g : Graph) {n : NodeRef} {k : EdgeKey} (h : ¬ k.record.Touches n) :
    (applyOne g (.deleteNode n)).edgesAt k = g.edgesAt k := by
  have hends : ¬ (k.source = n ∨ k.target = n) := h
  rw [applyOne_eq_write rfl, write_edgesAt]
  simp [edgeStep, hends]

theorem deleteNode_nodes_kept (g : Graph) {n m : NodeRef} (h : n ≠ m) :
    (applyOne g (.deleteNode n)).nodes[m]? = g.nodes[m]? := by
  rw [applyOne_eq_write rfl, write_nodes]
  simp [nodeStep, h]

theorem Shows.ends {g : Graph} {r : EdgeRecord} (h : Shows g r) : r.source ∈ g.nodes ∧ r.target ∈ g.nodes := by
  obtain ⟨e, he, rfl⟩ := h
  exact g.closed e he

/-- An edge under its standard identity. -/
theorem shows_of_base {g : Graph} {e : EdgeRecord} (h : g.edgesAt e.base.edgeKey ≠ 0) : Shows g e :=
  shows_iff.2 ⟨e.base.edgeKey, e.base_record, h⟩

theorem edgesAt_eq_zero_of_not_shows {g : Graph} {k : EdgeKey} (h : ¬ Shows g k.record) : g.edgesAt k = 0 := by
  by_contra hne
  exact h (shows_iff.2 ⟨k, rfl, hne⟩)

theorem hasEnds_congr {g g' : Graph} (h : g.nodes = g'.nodes) (k : EdgeKey) : g.hasEnds k = g'.hasEnds k := by
  rw [hasEnds, hasEnds, h]

theorem upsert_default (p : PropertyMap) : (default : NodeContent).upsert p none = ⟨p, none⟩ := by
  have hunion : (∅ : PropertyMap) ∪ p = p := by
    refine ExtTreeMap.ext_getElem? fun key => ?_
    rw [ExtTreeMap.getElem?_union]
    cases p[key]? <;> rfl
  have hold : (default : NodeContent) = ⟨∅, none⟩ := rfl
  rw [NodeContent.upsert, hold]
  simp only [hunion]
  rfl

/-- No edge without its node. -/
theorem edgesAt_eq_zero_of_gone {g : Graph} {n : NodeRef} {k : EdgeKey} (h : g.nodes[n]? = none)
    (htouch : k.record.Touches n) : g.edgesAt k = 0 := by
  have hgone : n ∉ g.nodes := by
    rw [ExtTreeMap.mem_iff_isSome_getElem?, h]
    exact Bool.false_ne_true
  refine edgesAt_eq_zero_of_not_shows fun hshow => ?_
  rcases htouch with heq | heq
  · exact hgone (heq ▸ hshow.ends.1)
  · exact hgone (heq ▸ hshow.ends.2)

/-! ## A merge group -/

theorem deleteReview_nodes (g : Graph) (reviewId : Option String) {n : NodeRef}
    (h : ∀ id ∈ reviewId, n ≠ ⟨"PendingReview", id⟩) :
    (applyAll g (reviewId.map fun id => Primitive.deleteNode ⟨"PendingReview", id⟩).toList).nodes[n]? = g.nodes[n]? := by
  cases reviewId with
  | none => rfl
  | some id =>
    rw [Option.map_some, Option.toList_some, applyAll_cons, applyAll_nil]
    exact deleteNode_nodes_kept g (h id rfl).symm

theorem deleteReview_edgesAt (g : Graph) (reviewId : Option String) {k : EdgeKey}
    (h : ∀ id ∈ reviewId, ¬ k.record.Touches ⟨"PendingReview", id⟩) :
    (applyAll g (reviewId.map fun id => Primitive.deleteNode ⟨"PendingReview", id⟩).toList).edgesAt k = g.edgesAt k := by
  cases reviewId with
  | none => rfl
  | some id =>
    rw [Option.map_some, Option.toList_some, applyAll_cons, applyAll_nil]
    exact deleteNode_edgesAt_kept g (h id rfl)

section Merge

variable {g : Graph} {es : List EdgeRecord} {label marker survivorId absorbedId : String} {reviewId : Option String}
  {ps : List Primitive}

/-- The edges a merge group leaves, those of the absorbed node and of a review apart. -/
theorem mergeShape_edgesAt
    (h : buildGroup (mergeShape es label marker survivorId absorbedId (deleteReview reviewId)) = some ps) {k : EdgeKey}
    (habsorbed : ¬ k.record.Touches ⟨label, absorbedId⟩) (hreview : ∀ id ∈ reviewId, ¬ k.record.Touches ⟨"PendingReview", id⟩)
    (hends : k.record ∈ es → g.hasEnds k = true) :
    (applyAll g ps).edgesAt k = if k.record ∈ es ∧ k.Standard then settled (g.edgesAt k) else g.edgesAt k := by
  rw [build_mergeShape h, applyAll_append, applyAll_append, deleteReview_edgesAt _ _ hreview, applyAll_cons,
    applyAll_cons, applyAll_nil, deleteNode_edgesAt_kept _ habsorbed, upsertNode_edgesAt, upserts_edgesAt hends]

/-- A merge group keeps every node but three. -/
theorem mergeShape_nodes
    (h : buildGroup (mergeShape es label marker survivorId absorbedId (deleteReview reviewId)) = some ps) {n : NodeRef}
    (habsorbed : n ≠ ⟨label, absorbedId⟩) (hmarker : n ≠ ⟨marker, absorbedId⟩)
    (hreview : ∀ id ∈ reviewId, n ≠ ⟨"PendingReview", id⟩) :
    (applyAll g ps).nodes[n]? = g.nodes[n]? := by
  rw [build_mergeShape h, applyAll_append, applyAll_append, deleteReview_nodes _ _ hreview, applyAll_cons,
    applyAll_cons, applyAll_nil, deleteNode_nodes_kept _ habsorbed.symm, upsertNode_nodes _ _ _ hmarker.symm,
    upserts_nodes]

theorem mergeShape_gone
    (h : buildGroup (mergeShape es label marker survivorId absorbedId (deleteReview reviewId)) = some ps)
    (hlabel : label ≠ "PendingReview") : (applyAll g ps).nodes[(⟨label, absorbedId⟩ : NodeRef)]? = none := by
  rw [build_mergeShape h, applyAll_append, deleteReview_nodes _ _ fun id _ heq => hlabel (congrArg NodeRef.label heq), applyAll_append, applyAll_cons, applyAll_cons,
    applyAll_nil, applyOne_eq_write rfl, write_nodes]
  simp [nodeStep]

theorem mergeShape_marker
    (h : buildGroup (mergeShape es label marker survivorId absorbedId (deleteReview reviewId)) = some ps)
    (hmarker : marker ≠ "PendingReview") (hne : label ≠ marker) :
    (applyAll g ps).nodes[(⟨marker, absorbedId⟩ : NodeRef)]? =
      some ((g.nodes[(⟨marker, absorbedId⟩ : NodeRef)]?.getD default).upsert (mergedInto survivorId) none) := by
  have hother : (⟨label, absorbedId⟩ : NodeRef) ≠ ⟨marker, absorbedId⟩ := fun heq => hne (congrArg NodeRef.label heq)
  rw [build_mergeShape h, applyAll_append, deleteReview_nodes _ _ fun id _ heq => hmarker (congrArg NodeRef.label heq), applyAll_append, applyAll_cons,
    applyAll_cons, applyAll_nil, deleteNode_nodes_kept _ hother, applyOne_eq_write rfl, write_nodes, upserts_nodes]
  simp [nodeStep]

/-- **The edges a merge group shows**, those of the absorbed node and of a review apart. -/
theorem mergeShape_shows
    (h : buildGroup (mergeShape es label marker survivorId absorbedId (deleteReview reviewId)) = some ps) {r : EdgeRecord}
    (habsorbed : ¬ r.Touches ⟨label, absorbedId⟩) (hreview : ∀ id ∈ reviewId, ¬ r.Touches ⟨"PendingReview", id⟩)
    (hends : r ∈ es → r.source ∈ g.nodes ∧ r.target ∈ g.nodes) :
    Shows (applyAll g ps) r ↔ Shows g r ∨ r ∈ es := by
  have hedges : ∀ k : EdgeKey, k.record = r → (applyAll g ps).edgesAt k =
      if k.record ∈ es ∧ k.Standard then settled (g.edgesAt k) else g.edgesAt k := by
    rintro k rfl
    exact mergeShape_edgesAt h habsorbed hreview fun hmem => by simpa [hasEnds] using hends hmem
  constructor
  · intro hshow
    obtain ⟨k, hk, hne⟩ := shows_iff.1 hshow
    by_cases hmem : r ∈ es
    · exact .inr hmem
    · rw [hedges k hk, hk, if_neg fun hboth => hmem hboth.1] at hne
      exact .inl (shows_iff.2 ⟨k, hk, hne⟩)
  · rintro (hshow | hmem)
    · obtain ⟨k, hk, hne⟩ := shows_iff.1 hshow
      refine shows_iff.2 ⟨k, hk, ?_⟩
      rw [hedges k hk]
      split
      · exact settled_ne_zero _
      · exact hne
    · refine shows_iff.2 ⟨r.base.edgeKey, rfl, ?_⟩
      rw [hedges _ rfl, if_pos ⟨hmem, rfl⟩]
      exact settled_ne_zero _

/-- The absorbed node takes its edges with it. -/
theorem mergeShape_not_shows
    (h : buildGroup (mergeShape es label marker survivorId absorbedId (deleteReview reviewId)) = some ps)
    (hlabel : label ≠ "PendingReview") {r : EdgeRecord} (htouch : r.Touches ⟨label, absorbedId⟩) :
    ¬ Shows (applyAll g ps) r := by
  intro hshow
  obtain ⟨k, rfl, hne⟩ := shows_iff.1 hshow
  exact hne (edgesAt_eq_zero_of_gone (mergeShape_gone h hlabel) htouch)

end Merge

/-! ## Markers -/

/-- The `merged_into` of the markers of an id; `none` where a row is refused. -/
def readMarkers (marker : String) (g : Graph) (id : String) : Option (List String) :=
  match g.nodes[(⟨marker, id⟩ : NodeRef)]? with
  | none => some []
  | some content => (stringColumn content.properties["merged_into"]?).map fun target => [target]

theorem readMarkers_capability (g : Graph) (id : String) :
    readMarkers "MergedCapability" g id = readMarkerTargets g id := rfl

/-- The marker a merge leaves, whatever was there under its id. -/
theorem readMarkers_merged {marker : String} {g : Graph} {id survivorId : String} {old : NodeContent}
    (h : g.nodes[(⟨marker, id⟩ : NodeRef)]? = some (old.upsert (mergedInto survivorId) none)) :
    readMarkers marker g id = some [survivorId] := by
  have hcolumn : (old.upsert (mergedInto survivorId) none).properties["merged_into"]? =
      some (.scalar (.str survivorId)) := by
    rw [NodeContent.upsert, ExtTreeMap.getElem?_union, mergedInto, ExtTreeMap.getElem?_insert_self]
    rfl
  rw [readMarkers, h]
  simp only [hcolumn]
  rfl

/-! ## Reads and writes that go through -/

/-- A node that was read. -/
theorem readNode_some {α : Type} {g : Graph} {label id : String} {build : PropertyMap → Option α} {x : α}
    (h : readNode g label id build = some (some x)) :
    ∃ content, g.nodes[(⟨label, id⟩ : NodeRef)]? = some content ∧ ∃ y, build content.properties = some y ∧ y = x := by
  unfold readNode at h
  split at h
  · cases h
  · rename_i content hcontent
    obtain ⟨y, hy, heq⟩ := Option.map_eq_some_iff.1 h
    exact ⟨content, hcontent, y, hy, Option.some.inj heq⟩

theorem mem_of_readNode {α : Type} {g : Graph} {label id : String} {build : PropertyMap → Option α} {x : α}
    (h : readNode g label id build = some (some x)) : (⟨label, id⟩ : NodeRef) ∈ g.nodes := by
  obtain ⟨content, hcontent, -⟩ := readNode_some h
  exact ExtTreeMap.mem_iff_isSome_getElem?.2 (by rw [hcontent]; rfl)

theorem stringColumn_some {v : Option PropertyValue} {s : String} (h : stringColumn v = some s) :
    v = some (.scalar (.str s)) := by
  unfold stringColumn at h
  split at h
  · cases h
    rfl
  · cases h

theorem buildGroup_isSome {raws : List RawPrimitive} (h : ∀ raw ∈ raws, raw.accept.isSome = true) :
    (buildGroup raws).isSome = true := by
  induction raws with
  | nil => rfl
  | cons raw raws ih =>
    obtain ⟨p, hp⟩ := Option.isSome_iff_exists.1 (h raw List.mem_cons_self)
    obtain ⟨ps, hps⟩ := Option.isSome_iff_exists.1 (ih fun r hr => h r (List.mem_cons_of_mem _ hr))
    rw [buildGroup_cons.2 ⟨p, ps, hp, hps, rfl⟩]
    rfl

theorem accept_edge_isSome {e : EdgeRecord} (htype : isIdentifier e.relType = true)
    (hsource : isIdentifier e.sourceLabel = true ∧ isNonBlank e.sourceId = true)
    (htarget : isIdentifier e.targetLabel = true ∧ isNonBlank e.targetId = true) : e.raw.accept.isSome = true := by
  have hidentity : isNonBlank (edgeIdentity e.relType e.sourceId e.targetId) = true := by
    simp only [isNonBlank, edgeIdentity, String.toList_append, List.any_append, Bool.or_eq_true]
    exact .inl (.inl (.inl (.inr (by decide))))
  have hends : acceptNodeRef e.sourceLabel e.sourceId = some e.source ∧
      acceptNodeRef e.targetLabel e.targetId = some e.target := by
    simp only [acceptNodeRef, hsource, htarget, Bool.and_self, if_true]
    exact ⟨rfl, rfl⟩
  simp [EdgeRecord.raw, RawEdge.accept, htype, hidentity, hends.1, hends.2]

theorem accept_records_isSome {e : EdgeRecord} (h : e.raw.accept.isSome = true) :
    (upsertRecord e).accept.isSome = true ∧ (deleteRecord e).accept.isSome = true := by
  obtain ⟨b, hb⟩ := Option.isSome_iff_exists.1 h
  have hnone : validatePropertyMap [] reservedEdgePropertyKeys = .ok ∅ := rfl
  simp [upsertRecord, deleteRecord, RawPrimitive.accept, hb, hnone, Except.toOption]

/-- Recorded properties under free names are accepted. -/
theorem validate_recorded {properties : PropertyMap} {reserved : List String} (names : List String)
    (hnames : ∀ name ∈ names, ¬ (name.toList.all isStripSpace || reserved.contains name) = true)
    (hproperties : ∀ (name : String) (v : PropertyValue), properties[name]? = some v →
      name ∈ names ∧ isValidPropertyValue v.toPy = true) :
    ∃ map, validatePropertyMap (propertiesPy properties) reserved = .ok map := by
  refine ⟨_, validatePropertyMap_of_forall fun item hitem => ?_⟩
  obtain ⟨⟨name, v⟩, hmem, rfl⟩ := List.mem_map.1 hitem
  obtain ⟨hkey, hvalue⟩ := hproperties name v (ExtTreeMap.mem_toList_iff_getElem?_eq_some.1 hmem)
  rw [validateProperty, if_neg (hnames name hkey), if_pos hvalue]

theorem accept_node_isSome {label id : String} {properties : PropertyMap} (names : List String)
    (hlabel : isIdentifier label = true) (hid : isNonBlank id = true)
    (hnames : ∀ name ∈ names, ¬ (name.toList.all isStripSpace || reservedNodePropertyKeys.contains name) = true)
    (hproperties : ∀ (name : String) (v : PropertyValue), properties[name]? = some v →
      name ∈ names ∧ isValidPropertyValue v.toPy = true) :
    (RawPrimitive.upsertNode label id (propertiesPy properties) none).accept.isSome = true := by
  obtain ⟨map, hmap⟩ := validate_recorded names hnames hproperties
  simp [RawPrimitive.accept, acceptNodeRef, hlabel, hid, hmap, Except.toOption]

theorem accept_deleteNode_isSome {label id : String} (hlabel : isIdentifier label = true) (hid : isNonBlank id = true) :
    (RawPrimitive.deleteNode label id).accept.isSome = true := by
  simp only [RawPrimitive.accept, acceptNodeRef, hlabel, hid]
  rfl

theorem accept_deleteRecord {e : EdgeRecord} {p : Primitive} (h : (deleteRecord e).accept = some p) :
    p = .deleteEdge e.base := by
  simp only [deleteRecord, RawPrimitive.accept, Option.bind_eq_bind, Option.bind_eq_some_iff] at h
  obtain ⟨b, hb, heq⟩ := h
  cases heq
  rw [accept_edge hb]

theorem build_deletes {es : List EdgeRecord} {ps : List Primitive} (h : buildGroup (es.map deleteRecord) = some ps) :
    ps = es.map fun e => .deleteEdge e.base := by
  induction es generalizing ps with
  | nil => exact (Option.some.inj h).symm
  | cons e es ih =>
    obtain ⟨p, rest, hp, hrest, rfl⟩ := buildGroup_cons.1 h
    rw [accept_deleteRecord hp, ih hrest, List.map_cons]

/-- What the gateway makes of the recorded properties. -/
theorem accept_node {label id : String} {properties : PropertyMap} {p : Primitive}
    (h : (RawPrimitive.upsertNode label id (propertiesPy properties) none).accept = some p) :
    p = .upsertNode ⟨label, id⟩ properties none := by
  obtain ⟨map, hmap, rfl⟩ := accept_upsertNode h
  obtain ⟨-, rfl⟩ := validatePropertyMap_ok hmap
  rw [propertiesPy_accepted hmap]

end PolicySystem
