import PolicySystem.PolicyLifecycle.Sequential

/-!
# Coherent policy trees

Every Standard of one Policy, every Control of one Standard, all with the status of their Policy: what calls one after
another keep, as long as they mint no id that another tree has.

* `Grafts`: what a group does that adds to the tree of an open Policy, and `Grafts.coherent`: it keeps coherence;
* `Coherent.cascade`: a status cascade keeps it;
* `tree_coherence_iff`: a run keeps every tree coherent exactly where its calls mint apart.
-/

namespace PolicySystem.PolicyLifecycle

open Std (ExtTreeMap)
open Interleaved PropertyGraph GraphWrite

/-! ## Coherence -/

/-- A backfill of any Policy finds nothing to write. -/
def Backfilled (scan : ScanOrder) (g : Graph) : Prop := ∀ id, backfillPrimitives scan g id = []

/-- Every Policy has a version. -/
def Versioned (g : Graph) : Prop := ∀ id, policyRef id ∈ g.nodes → (columns g (policyRef id))["version"]? ≠ none

/-- **Coherent trees.** -/
structure Coherent (g : Graph) : Prop where
  aligned : ∀ id n, Under g id n → statusOf g n = statusOf g (policyRef id)
  standard : ∀ s, standardRef s ∈ g.nodes → ∃! id, Shows g (supportedBy id s)
  control : ∀ k, controlRef k ∈ g.nodes → ∃! s, Shows g (implementedBy s k)

section Ends

variable {g : Graph} {id s k : String}

theorem shows_ends {r : EdgeRecord} (h : Shows g r) : r.source ∈ g.nodes ∧ r.target ∈ g.nodes := by
  obtain ⟨e, he, rfl⟩ := h
  exact g.closed e he

theorem supportedBy_ends (h : Shows g (supportedBy id s)) : policyRef id ∈ g.nodes ∧ standardRef s ∈ g.nodes :=
  shows_ends h

theorem implementedBy_ends (h : Shows g (implementedBy s k)) : standardRef s ∈ g.nodes ∧ controlRef k ∈ g.nodes :=
  shows_ends h

theorem Under.mem {n : NodeRef} (h : Under g id n) : policyRef id ∈ g.nodes ∧ n ∈ g.nodes := by
  obtain ⟨x, hx, rfl | ⟨y, hy, rfl⟩⟩ := h
  · exact supportedBy_ends hx
  · exact ⟨(supportedBy_ends hx).1, (implementedBy_ends hy).2⟩

/-- In coherent trees a node is under one Policy. -/
theorem Coherent.root (hg : Coherent g) {id' : String} {n : NodeRef} (h : Under g id n) (h' : Under g id' n) :
    id = id' := by
  rcases under_cases h with ⟨x, rfl⟩ | ⟨y, rfl⟩
  · exact (hg.standard x h.mem.2).unique (under_standard.1 h) (under_standard.1 h')
  · obtain ⟨x, hx, hy⟩ := under_control.1 h
    obtain ⟨x', hx', hy'⟩ := under_control.1 h'
    obtain rfl := (hg.control y h.mem.2).unique hy hy'
    exact (hg.standard x (supportedBy_ends hx).2).unique hx hx'

end Ends

/-- In coherent trees nothing lacks a status its Policy has. -/
theorem backfilled_iff {scan : ScanOrder} {g : Graph} (hg : Coherent g) : Backfilled scan g ↔ Versioned g := by
  constructor
  · intro hback id hid hnone
    have hempty := hback id
    obtain ⟨p, hp⟩ := Option.isSome_iff_exists.1 (ExtTreeMap.mem_iff_isSome_getElem?.1 hid)
    rw [columns_eq, hp, Option.bind_some] at hnone
    simp [backfillPrimitives, hp, hnone] at hempty
  · intro hversion id
    unfold backfillPrimitives
    cases hp : g.nodes[policyRef id]? with
    | none => rfl
    | some p =>
      have hid : policyRef id ∈ g.nodes := ExtTreeMap.mem_iff_isSome_getElem?.2 (by rw [hp]; rfl)
      have hset : p.properties["version"]? ≠ none := by
        have := hversion id hid
        rwa [columns_eq, hp, Option.bind_some] at this
      simp only [hset, if_false, List.nil_append]
      cases hstatus : p.properties["status"]? with
      | none => rfl
      | some status =>
        have hnone : unsetNodes g (treeRows scan g id) = [] := by
          rw [List.eq_nil_iff_forall_not_mem]
          intro n hn
          obtain ⟨hunder, hunset⟩ := mem_unsetNodes hn
          have haligned := hg.aligned id n hunder
          rw [statusOf, hunset, statusOf, columns_eq, hp, Option.bind_some, hstatus] at haligned
          cases haligned
        simp [hnone]

/-- Coherent trees of Policies with a version. -/
structure Sound (g : Graph) : Prop extends Coherent g where
  versioned : Versioned g

theorem Sound.restamped {g g' : Graph} (hg : Sound g) (h : Restamped g g') : Sound g' where
  aligned id n hunder := by
    unfold statusOf
    rw [h.columns, h.columns]
    exact hg.aligned id n (h.under.1 hunder)
  standard s hs := by
    simp only [h.shows]
    exact hg.standard s (h.mem.1 hs)
  control k hk := by
    simp only [h.shows]
    exact hg.control k (h.mem.1 hk)
  versioned id hid := by
    rw [h.columns]
    exact hg.versioned id (h.mem.1 hid)

/-! ## Adding to a tree -/

/-- No Standard or Control of the edges has, or gets, another parent. -/
def MintsApart (g : Graph) (edges : List EdgeRecord) : Prop :=
  ∀ r ∈ edges, ∀ parent, Shows g { r with sourceId := parent } ∨ { r with sourceId := parent } ∈ edges →
    parent = r.sourceId

/-- An edge of the tree of a Policy. -/
inductive TreeEdge : EdgeRecord → Prop where
  | standard (id s : String) : TreeEdge (supportedBy id s)
  | control (s k : String) : TreeEdge (implementedBy s k)

/-- **What a group does that adds draft nodes to the tree of a Policy**, which is a draft or not there yet. -/
structure Grafts (g g' : Graph) (id : String) (edges : List EdgeRecord) : Prop where
  shows : ∀ r, TreeEdge r → (Shows g' r ↔ Shows g r ∨ r ∈ edges)
  rooted : ∀ r ∈ edges, (∃ s, r = supportedBy id s) ∨ ∃ s k, r = implementedBy s k ∧ Shows g' (supportedBy id s)
  opened : policyRef id ∈ g.nodes → statusOf g (policyRef id) = some (text "draft")
  policy : statusOf g' (policyRef id) = some (text "draft")
  drafts : ∀ r ∈ edges, statusOf g' r.target = some (text "draft")
  others : ∀ n, n ≠ policyRef id → (∀ r ∈ edges, r.target ≠ n) → statusOf g' n = statusOf g n
  nodes : ∀ n ∈ g'.nodes, n ∈ g.nodes ∨ n = policyRef id ∨ ∃ r ∈ edges, r.target = n

section Grafts

variable {g g' : Graph} {id : String} {edges : List EdgeRecord}

theorem Grafts.standard_edge (h : Grafts g g' id edges) {r : EdgeRecord} (hr : r ∈ edges) {s : String}
    (htarget : r.target = standardRef s) : r = supportedBy id s := by
  rcases h.rooted r hr with ⟨s', rfl⟩ | ⟨s', k, rfl, -⟩
  · obtain rfl : s' = s := (NodeRef.mk.inj htarget).2
    rfl
  · exact absurd (NodeRef.mk.inj htarget).1 (by simp [implementedBy])

theorem Grafts.control_edge (h : Grafts g g' id edges) {r : EdgeRecord} (hr : r ∈ edges) {k : String}
    (htarget : r.target = controlRef k) : ∃ s, r = implementedBy s k ∧ Shows g' (supportedBy id s) := by
  rcases h.rooted r hr with ⟨s', rfl⟩ | ⟨s', k', rfl, hs⟩
  · exact absurd (NodeRef.mk.inj htarget).1 (by simp [supportedBy])
  · obtain rfl : k' = k := (NodeRef.mk.inj htarget).2
    exact ⟨s', rfl, hs⟩

/-- The Standard of an edge that stays is under one Policy. -/
theorem Grafts.standard_unique (h : Grafts g g' id edges) (hapart : MintsApart g edges) (hg : Coherent g) {s : String}
    (hs : standardRef s ∈ g'.nodes) : ∃! x, Shows g' (supportedBy x s) := by
  by_cases hnew : supportedBy id s ∈ edges
  · refine ⟨id, (h.shows _ (.standard id s)).2 (.inr hnew), fun x hx => ?_⟩
    exact hapart _ hnew x ((h.shows _ (.standard x s)).1 hx)
  · have hno : ∀ r ∈ edges, r.target ≠ standardRef s := by
      intro r hr htarget
      exact hnew (h.standard_edge hr htarget ▸ hr)
    have hold : standardRef s ∈ g.nodes := by
      rcases h.nodes _ hs with hmem | heq | ⟨r, hr, htarget⟩
      · exact hmem
      · exact absurd heq standardRef_ne
      · exact absurd htarget (hno r hr)
    obtain ⟨x, hx, hunique⟩ := hg.standard s hold
    refine ⟨x, (h.shows _ (.standard x s)).2 (.inl hx), fun y hy => ?_⟩
    rcases (h.shows _ (.standard y s)).1 hy with hy | hy
    · exact hunique y hy
    · exact absurd rfl (hno _ hy)

theorem Grafts.control_unique (h : Grafts g g' id edges) (hapart : MintsApart g edges) (hg : Coherent g) {k : String}
    (hk : controlRef k ∈ g'.nodes) : ∃! x, Shows g' (implementedBy x k) := by
  by_cases hnew : ∃ s, implementedBy s k ∈ edges
  · obtain ⟨s, hs⟩ := hnew
    refine ⟨s, (h.shows _ (.control s k)).2 (.inr hs), fun x hx => ?_⟩
    exact hapart _ hs x ((h.shows _ (.control x k)).1 hx)
  · have hno : ∀ r ∈ edges, r.target ≠ controlRef k := by
      intro r hr htarget
      obtain ⟨s, rfl, -⟩ := h.control_edge hr htarget
      exact hnew ⟨s, hr⟩
    have hold : controlRef k ∈ g.nodes := by
      rcases h.nodes _ hk with hmem | heq | ⟨r, hr, htarget⟩
      · exact hmem
      · exact absurd heq controlRef_ne
      · exact absurd htarget (hno r hr)
    obtain ⟨x, hx, hunique⟩ := hg.control k hold
    refine ⟨x, (h.shows _ (.control x k)).2 (.inl hx), fun y hy => ?_⟩
    rcases (h.shows _ (.control y k)).1 hy with hy | hy
    · exact hunique y hy
    · exact absurd rfl (hno _ hy)

/-- A node the group does not link keeps the status, and so does its Policy, or that is the open one. -/
theorem Grafts.kept (h : Grafts g g' id edges) (hg : Coherent g) {x : String} {n : NodeRef} (hunder : Under g x n)
    (hno : ∀ r ∈ edges, r.target ≠ n) : statusOf g' n = statusOf g' (policyRef x) := by
  rw [h.others n hunder.ne_policy hno, hg.aligned x n hunder]
  by_cases hx : x = id
  · rw [hx, h.policy]
    exact h.opened (hx ▸ hunder.mem.1)
  · refine (h.others _ (fun heq => hx (NodeRef.mk.inj heq).2) fun r hr htarget => ?_).symm
    rcases h.rooted r hr with ⟨s, rfl⟩ | ⟨s, k, rfl, -⟩
    · exact standardRef_ne htarget
    · exact controlRef_ne htarget

/-- **Adding to a tree keeps coherence**, where the ids are new or of that tree. -/
theorem Grafts.coherent (h : Grafts g g' id edges) (hapart : MintsApart g edges) (hg : Coherent g) : Coherent g' where
  standard _ hs := h.standard_unique hapart hg hs
  control _ hk := h.control_unique hapart hg hk
  aligned x n hunder := by
    obtain ⟨s, hs, hn⟩ := hunder
    have hsole := h.standard_unique hapart hg (supportedBy_ends hs).2
    -- what the group links is a draft under the draft
    by_cases hnew : ∃ r ∈ edges, r.target = n
    · obtain ⟨r, hr, htarget⟩ := hnew
      have hx : x = id := by
        rcases hn with rfl | ⟨k, hk, rfl⟩
        · have hedge := h.standard_edge hr htarget
          exact hsole.unique hs ((h.shows _ (.standard id s)).2 (.inr (hedge ▸ hr)))
        · obtain ⟨s', rfl, hs'⟩ := h.control_edge hr htarget
          obtain rfl : s = s' := hapart _ hr s ((h.shows _ (.control s k)).1 hk)
          exact hsole.unique hs hs'
      rw [hx, h.policy, ← htarget]
      exact h.drafts r hr
    · have hno : ∀ r ∈ edges, r.target ≠ n := fun r hr htarget => hnew ⟨r, hr, htarget⟩
      refine h.kept hg ?_ hno
      rcases hn with rfl | ⟨k, hk, rfl⟩
      · refine under_standard.2 (((h.shows _ (.standard x s)).1 hs).resolve_right fun hr => ?_)
        exact hno _ hr rfl
      · have hold : Shows g (implementedBy s k) :=
          ((h.shows _ (.control s k)).1 hk).resolve_right fun hr => hno _ hr rfl
        -- its Standard was there, under a Policy it is still under
        obtain ⟨y, hy, -⟩ := hg.standard s (implementedBy_ends hold).1
        obtain rfl : x = y := hsole.unique hs ((h.shows _ (.standard y s)).2 (.inl hy))
        exact under_control.2 ⟨s, hy, hold⟩

end Grafts

/-! ## What a group leaves -/

theorem creates_mem {g : Graph} {p : Primitive} {n : NodeRef} (h : Creates p n) : n ∈ (applyOne g p).nodes := by
  cases p with
  | upsertNode m props e =>
    obtain rfl : n = m := h
    rw [ExtTreeMap.mem_iff_isSome_getElem?, applyOne_eq_write rfl, write_nodes, nodeStep, if_pos rfl]
    rfl
  | _ => exact h.elim

theorem upsertEdge_shows {g : Graph} {e : EdgeBase} {props : PropertyMap} (hs : e.source ∈ g.nodes)
    (ht : e.target ∈ g.nodes) : Shows (applyOne g (.upsertEdge e props)) e.edgeKey.record := by
  refine shows_iff.2 ⟨e.edgeKey, rfl, ?_⟩
  rw [applyOne_eq_write rfl, write_edgesAt]
  have hends : hasEnds g e.edgeKey = true := by
    simp only [hasEnds, Bool.and_eq_true, decide_eq_true_eq]
    exact ⟨hs, ht⟩
  simp only [edgeStep, if_true, upsertAt]
  split
  · exact Multiset.singleton_ne_zero _
  · rename_i hne
    simpa [hends] using hne

/-- The edges of a supplied group that it does not take away are there after it. -/
theorem shows_linked {ps : List Primitive} {g : Graph} (hsupplied : Supplied (· ∈ g.nodes) ps) {r : EdgeRecord}
    (hkeeps : ∀ p ∈ ps, ¬ Takes p r) (h : Links ps r) : Shows (applyAll g ps) r := by
  induction ps generalizing g with
  | nil =>
    obtain ⟨e, props, hmem, -⟩ := h
    cases hmem
  | cons p ps ih =>
    obtain ⟨hneeds, hnode, hrest⟩ := hsupplied
    have hkeeps' : ∀ q ∈ ps, ¬ Takes q r := fun q hq => hkeeps q (List.mem_cons_of_mem _ hq)
    obtain ⟨e, props, hmem, rfl⟩ := h
    rcases List.mem_cons.1 hmem with rfl | hmem
    · exact applyAll_keeps hkeeps' (upsertEdge_shows (hneeds _ (.inl rfl)) (hneeds _ (.inr rfl)))
    · refine ih (hrest.mono ?_) hkeeps' ⟨e, props, hmem, rfl⟩
      rintro n (hn | hn)
      · exact applyOne_stays hnode hn
      · exact creates_mem hn

/-- A node that is created with a value, and only ever given that one, ends with it. -/
theorem columns_of_puts {ps : List Primitive} {n : NodeRef} {key : String} {v : PropertyValue}
    (hall : ∀ p ∈ ps, Sets p n key → Puts p n key v) {g : Graph}
    (h : (columns g n)[key]? = some v ∨ ∃ p ∈ ps, Creates p n ∧ Puts p n key v) :
    (columns (applyAll g ps) n)[key]? = some v := by
  induction ps generalizing g with
  | nil =>
    rcases h with h | ⟨p, hp, -⟩
    · exact h
    · cases hp
  | cons p ps ih =>
    refine ih (fun q hq => hall q (List.mem_cons_of_mem _ hq)) ?_
    have hnow : (columns g n)[key]? = some v ∨ Creates p n ∧ Puts p n key v →
        (columns (applyOne g p) n)[key]? = some v := by
      intro hor
      by_cases hsets : Sets p n key
      · have hputs := hall p (by simp) hsets
        cases p with
        | upsertNode m props e =>
          obtain ⟨rfl, hv⟩ := hputs
          exact upsert_columns hv
        | mergeProperty m props =>
          obtain ⟨rfl, hv⟩ := hputs
          have hold : (columns g m)[key]? = some v := hor.resolve_right fun hc => hc.1
          rw [columns_eq] at hold
          obtain ⟨content, hcontent, -⟩ := Option.bind_eq_some_iff.1 hold
          rw [columns_eq, applyOne_eq_write rfl, write_nodes, nodeStep, if_pos rfl, hcontent]
          simp [NodeContent.merge, ExtTreeMap.getElem?_union, hv]
        | _ => exact hputs.elim
      · rw [applyOne_columns hsets]
        refine hor.resolve_right fun hc => hsets ?_
        cases p with
        | upsertNode m props e => exact ⟨hc.2.1, ExtTreeMap.mem_iff_isSome_getElem?.2 (by rw [hc.2.2]; rfl)⟩
        | _ => exact hc.1.elim
    rcases h with h | ⟨q, hq, hq'⟩
    · exact .inl (hnow (.inl h))
    · rcases List.mem_cons.1 hq with rfl | hq
      · exact .inl (hnow (.inr hq'))
      · exact .inr ⟨q, hq, hq'⟩

/-! ## Cascades -/

/-- The nodes and the tree edges are those before. -/
structure SameShape (g g' : Graph) : Prop where
  nodes : ∀ n, n ∈ g'.nodes ↔ n ∈ g.nodes
  shows : ∀ r, TreeEdge r → (Shows g' r ↔ Shows g r)

theorem TreeEdge.relType_ne {r : EdgeRecord} (h : TreeEdge r) {type : String} (hs : type ≠ "SUPPORTED_BY")
    (hc : type ≠ "IMPLEMENTED_BY") : type ≠ r.relType := by
  cases h with
  | standard => exact hs
  | control => exact hc

theorem TreeEdge.not_governed {r : EdgeRecord} (h : TreeEdge r) : r.relType ≠ "GOVERNED_BY" := by
  cases h with
  | standard => simp [supportedBy]
  | control => simp [implementedBy]

theorem SameShape.under {g g' : Graph} (h : SameShape g g') {id : String} {n : NodeRef} :
    Under g' id n ↔ Under g id n := by
  unfold Under
  simp only [h.shows _ (.standard _ _), h.shows _ (.control _ _)]

/-- Same nodes and tree edges, with statuses that agree along the trees. -/
theorem Sound.sameShape {g g' : Graph} (hg : Sound g) (h : SameShape g g')
    (haligned : ∀ id n, Under g id n → statusOf g' n = statusOf g' (policyRef id))
    (hversion : ∀ id, (columns g' (policyRef id))["version"]? = (columns g (policyRef id))["version"]?) : Sound g' where
  aligned id n hunder := haligned id n (h.under.1 hunder)
  standard s hs := by
    simp only [h.shows _ (.standard _ _)]
    exact hg.standard s ((h.nodes _).1 hs)
  control k hk := by
    simp only [h.shows _ (.control _ _)]
    exact hg.control k ((h.nodes _).1 hk)
  versioned id hid := by
    rw [hversion]
    exact hg.versioned id ((h.nodes _).1 hid)

/-- A group that links no tree and creates nothing leaves the shape. -/
theorem sameShape_of {g : Graph} {ps : List Primitive} (hgrows : ∀ p ∈ ps, Grows p)
    (hlinks : ∀ r, TreeEdge r → ¬ Links ps r) (hcreates : ∀ p ∈ ps, ∀ n, ¬ Creates p n) :
    SameShape g (applyAll g ps) where
  nodes n := by
    refine ⟨fun hn => ?_, applyAll_mem hgrows⟩
    by_contra hnot
    obtain ⟨props, e, hp⟩ := applyAll_new hnot hn
    exact hcreates _ hp n rfl
  shows r hr := ⟨fun hshow => (shows_after hshow).resolve_right (hlinks r hr), applyAll_shows hgrows hr.not_governed⟩

theorem governs_creates {p : Primitive} (h : Governs p) {n : NodeRef} : ¬ Creates p n := by
  cases p with
  | upsertNode => exact h.elim
  | _ => exact id

theorem governs_links {ps : List Primitive} (h : ∀ p ∈ ps, Governs p) {r : EdgeRecord} (hr : TreeEdge r) :
    ¬ Links ps r := by
  rintro ⟨e, props, hmem, rfl⟩
  exact hr.not_governed (h _ hmem)

theorem statusMerges_links {target : String} {nodes : List NodeRef} {r : EdgeRecord} :
    ¬ Links (statusMerges target nodes) r := by
  rintro ⟨e, props, hmem, -⟩
  obtain ⟨_, -, heq⟩ := List.mem_map.1 hmem
  cases heq

theorem links_append {ps qs : List Primitive} {r : EdgeRecord} : Links (ps ++ qs) r ↔ Links ps r ∨ Links qs r := by
  constructor
  · rintro ⟨e, props, hmem, heq⟩
    exact (List.mem_append.1 hmem).imp (fun hp => ⟨e, props, hp, heq⟩) fun hq => ⟨e, props, hq, heq⟩
  · rintro (⟨e, props, hmem, heq⟩ | ⟨e, props, hmem, heq⟩)
    · exact ⟨e, props, List.mem_append_left _ hmem, heq⟩
    · exact ⟨e, props, List.mem_append_right _ hmem, heq⟩

/-- **A cascade over a whole tree keeps coherence.** -/
theorem Sound.cascade {g : Graph} (hg : Sound g) {id target : String} {moved : List Primitive} {nodes : List NodeRef}
    (hmoved : ∀ p ∈ moved, Governs p) (hstored : policyRef id ∈ g.nodes)
    (hnodes : ∀ n, n ∈ nodes ↔ n = policyRef id ∨ Under g id n) :
    Sound (applyAll g (moved ++ statusMerges target nodes)) ∧
      SameShape g (applyAll g (moved ++ statusMerges target nodes)) := by
  have hgrows : ∀ p ∈ moved ++ statusMerges target nodes, Grows p := by
    intro p hp
    rcases List.mem_append.1 hp with hp | hp
    · exact grows_of_governs (hmoved p hp)
    · exact grows_statusMerges p hp
  have hshape : SameShape g (applyAll g (moved ++ statusMerges target nodes)) := by
    refine sameShape_of hgrows (fun r hr hlinks => ?_) fun p hp n hn => ?_
    · exact (links_append.1 hlinks).elim (governs_links hmoved hr) statusMerges_links
    · rcases List.mem_append.1 hp with hp | hp
      · exact governs_creates (hmoved p hp) hn
      · obtain ⟨_, -, rfl⟩ := List.mem_map.1 hp
        exact hn
  -- a node of the cascade gets the status, any other keeps its own
  have hin : ∀ n ∈ nodes, statusOf (applyAll g (moved ++ statusMerges target nodes)) n = some (text target) := by
    intro n hn
    have hmem : n ∈ g.nodes := by
      rcases (hnodes n).1 hn with rfl | hunder
      · exact hstored
      · exact hunder.mem.2
    rw [applyAll_append]
    exact statusMerges_sets hn (applyAll_mem (fun p hp => grows_of_governs (hmoved p hp)) hmem)
  have hnotsets : ∀ n key, key ≠ "status" ∨ n ∉ nodes → ∀ p ∈ moved ++ statusMerges target nodes, ¬ Sets p n key := by
    intro n key hor p hp
    rcases List.mem_append.1 hp with hp | hp
    · intro hs
      have hgov := hmoved p hp
      cases p with
      | upsertEdge => exact hs
      | deleteEdge => exact hs
      | _ => exact hgov.elim
    · exact not_sets_statusMerges hor p hp
  have hout : ∀ n, n ∉ nodes → statusOf (applyAll g (moved ++ statusMerges target nodes)) n = statusOf g n :=
    fun n hn => applyAll_columns (hnotsets n "status" (.inr hn)) g
  refine ⟨hg.sameShape hshape (fun x n hunder => ?_) fun x => ?_, hshape⟩
  · by_cases hx : x = id
    · subst hx
      rw [hin n ((hnodes n).2 (.inr hunder)), hin _ ((hnodes _).2 (.inl rfl))]
    · have hn : n ∉ nodes := by
        intro hmem
        rcases (hnodes n).1 hmem with rfl | hunder'
        · exact hunder.ne_policy rfl
        · exact hx (hg.root hunder hunder')
      have hpolicy : policyRef x ∉ nodes := by
        intro hmem
        rcases (hnodes _).1 hmem with heq | hunder'
        · exact hx (NodeRef.mk.inj heq).2
        · exact hunder'.ne_policy rfl
      rw [hout n hn, hout _ hpolicy, hg.aligned x n hunder]
  · exact applyAll_columns (hnotsets _ "version" (.inl (by decide))) g

/-! ## Groups that add to a tree -/

/-- What each primitive of such a group does. -/
structure Adds (g : Graph) (ps : List Primitive) (id : String) (edges : List EdgeRecord) : Prop where
  supplied : Supplied (· ∈ g.nodes) ps
  grows : ∀ p ∈ ps, Grows p
  links : ∀ r, TreeEdge r → (Links ps r ↔ r ∈ edges)
  rooted : ∀ r ∈ edges, (∃ s, r = supportedBy id s) ∨
    ∃ s k, r = implementedBy s k ∧ (Shows g (supportedBy id s) ∨ supportedBy id s ∈ edges)
  creates : ∀ p ∈ ps, ∀ n, Creates p n → n = policyRef id ∨ ∃ r ∈ edges, r.target = n
  sets : ∀ p ∈ ps, ∀ n, Sets p n "status" → Creates p n ∧ Puts p n "status" (text "draft")
  drafts : ∀ r ∈ edges, ∃ p ∈ ps, Creates p r.target
  opened : policyRef id ∈ g.nodes → statusOf g (policyRef id) = some (text "draft")
  policy : policyRef id ∈ g.nodes ∨ ∃ p ∈ ps, Creates p (policyRef id)
  given : ∀ p ∈ ps, ∀ n, Creates p n → Puts p n "status" (text "draft")

theorem Adds.treeEdge {g : Graph} {ps : List Primitive} {id : String} {edges : List EdgeRecord} (h : Adds g ps id edges)
    {r : EdgeRecord} (hr : r ∈ edges) : TreeEdge r := by
  rcases h.rooted r hr with ⟨s, rfl⟩ | ⟨s, k, rfl, -⟩
  · exact .standard id s
  · exact .control s k

theorem Adds.grafts {g : Graph} {ps : List Primitive} {id : String} {edges : List EdgeRecord} (h : Adds g ps id edges) :
    Grafts g (applyAll g ps) id edges := by
  have hshows : ∀ r, TreeEdge r → (Shows (applyAll g ps) r ↔ Shows g r ∨ r ∈ edges) := by
    intro r hr
    constructor
    · intro hshow
      exact (shows_after hshow).imp_right (h.links r hr).1
    · rintro (hold | hnew)
      · exact applyAll_shows h.grows hr.not_governed hold
      · exact shows_linked h.supplied (fun p hp => (h.grows p hp).takes hr.not_governed) ((h.links r hr).2 hnew)
  have hdraft : ∀ n, ((columns g n)["status"]? = some (text "draft") ∨ ∃ p ∈ ps, Creates p n) →
      statusOf (applyAll g ps) n = some (text "draft") := by
    intro n hn
    refine columns_of_puts (fun p hp hs => (h.sets p hp n hs).2) (hn.imp_right ?_)
    rintro ⟨p, hp, hcreates⟩
    exact ⟨p, hp, hcreates, h.given p hp n hcreates⟩
  refine ⟨hshows, fun r hr => ?_, h.opened, hdraft _ (h.policy.imp_left h.opened), fun r hr => ?_, ?_, ?_⟩
  · rcases h.rooted r hr with hs | ⟨s, k, rfl, hs⟩
    · exact .inl hs
    · exact .inr ⟨s, k, rfl, (hshows _ (.standard id s)).2 hs⟩
  · exact hdraft _ (.inr (h.drafts r hr))
  · intro n hne hno
    refine applyAll_columns (fun p hp hs => ?_) g
    rcases h.creates p hp n (h.sets p hp n hs).1 with heq | ⟨r, hr, heq⟩
    · exact hne heq
    · exact hno r hr heq
  · intro n hn
    by_cases hold : n ∈ g.nodes
    · exact .inl hold
    · obtain ⟨props, e, hp⟩ := applyAll_new hold hn
      exact .inr (h.creates _ hp n rfl)

theorem child_status_sets {parent child : NodeRef} {props : PropertyMap} {edgeType : String} {p : Primitive}
    {n : NodeRef} (hp : p ∈ childPrimitives parent child props edgeType)
    (hdraft : props["status"]? = some (text "draft")) (h : Creates p n ∨ Sets p n "status") :
    n = child ∧ Creates p n ∧ Puts p n "status" (text "draft") := by
  rcases List.mem_cons.1 hp with rfl | hp
  · obtain rfl : n = child := by
      rcases h with h | h
      · exact h
      · exact h.1.symm
    exact ⟨rfl, rfl, rfl, hdraft⟩
  · obtain rfl := List.mem_singleton.1 hp
    rcases h with h | h
    · exact h.elim
    · exact h.elim

/-- One child under a draft. -/
theorem adds_child {g : Graph} {parent child : NodeRef} {props : PropertyMap} {edgeType id : String}
    (hdraft : props["status"]? = some (text "draft")) (hopen : statusOf g (policyRef id) = some (text "draft"))
    (hparent : parent ∈ g.nodes)
    (hrooted : (∃ s, (⟨edgeType, parent.label, parent.id, child.label, child.id⟩ : EdgeRecord) = supportedBy id s) ∨
      ∃ s k, (⟨edgeType, parent.label, parent.id, child.label, child.id⟩ : EdgeRecord) = implementedBy s k ∧
        Shows g (supportedBy id s)) :
    Adds g (childPrimitives parent child props edgeType) id
      [⟨edgeType, parent.label, parent.id, child.label, child.id⟩] where
  supplied := supplied_child hparent
  grows := grows_child
  links r _ := by
    rw [List.mem_singleton]
    refine ⟨links_child, ?_⟩
    rintro rfl
    exact links_self fun _ hq => hq
  rooted r hr := by
    obtain rfl := List.mem_singleton.1 hr
    refine hrooted.imp_right ?_
    rintro ⟨s, k, heq, hs⟩
    exact ⟨s, k, heq, .inl hs⟩
  creates p hp n hn := by
    obtain ⟨rfl, -⟩ := child_status_sets hp hdraft (.inl hn)
    exact .inr ⟨_, List.mem_singleton.2 rfl, rfl⟩
  sets p hp n hs := (child_status_sets hp hdraft (.inr hs)).2
  drafts r hr := by
    obtain rfl := List.mem_singleton.1 hr
    exact ⟨_, List.mem_cons_self, rfl⟩
  opened _ := hopen
  policy := .inl (stored_of_status hopen)
  given p hp n hn := (child_status_sets hp hdraft (.inl hn)).2.2

/-- The tree edges of drafts. -/
def draftEdges (policyId : String) (drafts : List StandardDraft) : List EdgeRecord :=
  drafts.flatMap fun d => supportedBy policyId d.id :: d.controls.map fun c => implementedBy d.id c.id

theorem mem_draftEdges {policyId : String} {drafts : List StandardDraft} {r : EdgeRecord} :
    r ∈ draftEdges policyId drafts ↔
      ∃ d ∈ drafts, r = supportedBy policyId d.id ∨ ∃ c ∈ d.controls, r = implementedBy d.id c.id := by
  simp only [draftEdges, List.mem_flatMap, List.mem_cons, List.mem_map, eq_comm]

/-- Where a primitive of a create is from. -/
inductive CreatedBy (new : NewPolicy) (capabilityIds : List String) (p : Primitive) : Prop where
  | policy (h : p = .upsertNode (policyRef new.policyId) new.properties none)
  | supersedes (prior : String) (hprior : new.supersedes = some prior)
      (h : p = .upsertEdge (edgeBetween "SUPERSEDED_BY" (policyRef prior) (policyRef new.policyId)) ∅)
  | standard (d : StandardDraft) (hd : d ∈ new.standards)
      (h : p ∈ childPrimitives (policyRef new.policyId) (standardRef d.id) d.properties "SUPPORTED_BY")
  | control (d : StandardDraft) (hd : d ∈ new.standards) (c : ControlDraft) (hc : c ∈ d.controls)
      (h : p ∈ childPrimitives (standardRef d.id) (controlRef c.id) c.properties "IMPLEMENTED_BY")
  | claim (capability : String) (hcapability : capability ∈ capabilityIds)
      (h : p = .upsertEdge (edgeBetween "GOVERNED_BY" (capabilityRef capability) (policyRef new.policyId)) ∅)

theorem mem_create {new : NewPolicy} {capabilityIds : List String} {p : Primitive} :
    p ∈ new.primitives ++ claimPrimitives new.policyId capabilityIds ↔ CreatedBy new capabilityIds p := by
  rw [NewPolicy.primitives_claims]
  simp only [NewPolicy.rest, StandardDraft.primitives, claimPrimitives, List.mem_cons,
    List.mem_append, Option.mem_toList, Option.map_eq_some_iff, List.mem_flatMap, List.mem_map]
  constructor
  · rintro (h | ⟨prior, hprior, rfl⟩ | ⟨d, hd, h | ⟨c, hc, h⟩⟩ | ⟨capability, hcapability, rfl⟩)
    · exact .policy h
    · exact .supersedes prior hprior rfl
    · exact .standard d hd h
    · exact .control d hd c hc h
    · exact .claim capability hcapability rfl
  · rintro (h | ⟨prior, hprior, rfl⟩ | ⟨d, hd, h⟩ | ⟨d, hd, c, hc, h⟩ | ⟨capability, hcapability, rfl⟩)
    · exact .inl h
    · exact .inr (.inl ⟨prior, hprior, rfl⟩)
    · exact .inr (.inr (.inl ⟨d, hd, .inl h⟩))
    · exact .inr (.inr (.inl ⟨d, hd, .inr ⟨c, hc, h⟩⟩))
    · exact .inr (.inr (.inr ⟨capability, hcapability, rfl⟩))

theorem standardDraft_status (d : StandardDraft) : d.properties["status"]? = some (text "draft") := by
  simp [StandardDraft.properties]

theorem controlDraft_status (c : ControlDraft) : c.properties["status"]? = some (text "draft") := by
  simp [ControlDraft.properties]

/-- What a primitive of a create creates or gives a status. -/
theorem created_status {new : NewPolicy} {capabilityIds : List String} {p : Primitive} {n : NodeRef}
    (hp : CreatedBy new capabilityIds p) (h : Creates p n ∨ Sets p n "status") :
    (n = policyRef new.policyId ∨ ∃ r ∈ draftEdges new.policyId new.standards, r.target = n) ∧
      Creates p n ∧ Puts p n "status" (text "draft") := by
  cases hp with
  | policy heq =>
    subst heq
    obtain rfl : n = policyRef new.policyId := by
      rcases h with h | h
      · exact h
      · exact h.1.symm
    exact ⟨.inl rfl, rfl, rfl, newPolicy_columns.1⟩
  | supersedes prior _ heq =>
    subst heq
    exact (h.elim id id).elim
  | standard d hd hmem =>
    obtain ⟨rfl, hstatus⟩ := child_status_sets hmem (standardDraft_status d) h
    exact ⟨.inr ⟨_, mem_draftEdges.2 ⟨d, hd, .inl rfl⟩, rfl⟩, hstatus⟩
  | control d hd c hc hmem =>
    obtain ⟨rfl, hstatus⟩ := child_status_sets hmem (controlDraft_status c) h
    exact ⟨.inr ⟨_, mem_draftEdges.2 ⟨d, hd, .inr ⟨c, hc, rfl⟩⟩, rfl⟩, hstatus⟩
  | claim capability _ heq =>
    subst heq
    exact (h.elim id id).elim

theorem links_create {new : NewPolicy} {capabilityIds : List String} {r : EdgeRecord} (hr : TreeEdge r) :
    Links (new.primitives ++ claimPrimitives new.policyId capabilityIds) r ↔
      r ∈ draftEdges new.policyId new.standards := by
  rw [mem_draftEdges]
  constructor
  · rintro ⟨e, props, hmem, heq⟩
    rcases mem_create.1 hmem with h | ⟨prior, -, h⟩ | ⟨d, hd, h⟩ | ⟨d, hd, c, hc, h⟩ | ⟨capability, -, h⟩
    · cases h
    · obtain ⟨rfl, -⟩ := Primitive.upsertEdge.inj h
      have hne : "SUPERSEDED_BY" ≠ r.relType := hr.relType_ne (by decide) (by decide)
      exact absurd (congrArg EdgeRecord.relType heq) hne
    · exact ⟨d, hd, .inl (links_child ⟨e, props, h, heq⟩)⟩
    · exact ⟨d, hd, .inr ⟨c, hc, links_child ⟨e, props, h, heq⟩⟩⟩
    · obtain ⟨rfl, -⟩ := Primitive.upsertEdge.inj h
      have hne : "GOVERNED_BY" ≠ r.relType := hr.relType_ne (by decide) (by decide)
      exact absurd (congrArg EdgeRecord.relType heq) hne
  · rintro ⟨d, hd, rfl | ⟨c, hc, rfl⟩⟩
    · exact @links_self (policyRef new.policyId) (standardRef d.id) d.properties "SUPPORTED_BY" _
        fun p hp => mem_create.2 (.standard d hd hp)
    · exact @links_self (standardRef d.id) (controlRef c.id) c.properties "IMPLEMENTED_BY" _
        fun p hp => mem_create.2 (.control d hd c hc hp)

theorem supplied_create {has : NodeRef → Prop} {new : NewPolicy} {capabilityIds : List String}
    (hprior : ∀ prior, new.supersedes = some prior → has (policyRef prior))
    (hclaims : ∀ c ∈ capabilityIds, has (capabilityRef c)) :
    Supplied has (new.primitives ++ claimPrimitives new.policyId capabilityIds) := by
  rw [NewPolicy.primitives_claims]
  refine ⟨fun n hn => hn.elim, by simp, ?_⟩
  refine Supplied.append ?_ (Supplied.append ?_ ?_)
  · refine supplied_of_needs ?_ ?_
    · intro p hp n hn
      obtain ⟨prior, hsome, rfl⟩ := Option.map_eq_some_iff.1 (Option.mem_toList.1 hp)
      rcases hn with rfl | rfl
      · exact .inl (hprior prior hsome)
      · exact .inr rfl
    · intro p hp n
      obtain ⟨prior, -, rfl⟩ := Option.map_eq_some_iff.1 (Option.mem_toList.1 hp)
      simp
  · refine supplied_flatMap fun d _ => Supplied.append (supplied_child (.inl (.inr rfl))) ?_
    refine supplied_flatMap fun c _ => supplied_child (.inr ⟨_, List.mem_cons_self, rfl⟩)
  · refine supplied_of_needs ?_ ?_
    · intro p hp n hn
      obtain ⟨capability, hcapability, rfl⟩ := List.mem_map.1 hp
      rcases hn with rfl | rfl
      · exact .inl (.inl (.inl (hclaims capability hcapability)))
      · exact .inl (.inl (.inr rfl))
    · intro p hp n
      obtain ⟨capability, -, rfl⟩ := List.mem_map.1 hp
      simp

/-- A create where no such Policy is. -/
theorem adds_create {g : Graph} {new : NewPolicy} {capabilityIds : List String} (hnew : policyRef new.policyId ∉ g.nodes)
    (hprior : ∀ prior, new.supersedes = some prior → policyRef prior ∈ g.nodes)
    (hclaims : ∀ c ∈ capabilityIds, capabilityRef c ∈ g.nodes) :
    Adds g (new.primitives ++ claimPrimitives new.policyId capabilityIds) new.policyId
      (draftEdges new.policyId new.standards) where
  supplied := supplied_create hprior hclaims
  grows p hp := by
    rw [NewPolicy.primitives_claims] at hp
    rcases List.mem_cons.1 hp with rfl | hp
    · trivial
    · exact grows_rest p hp
  links r hr := links_create hr
  rooted r hr := by
    obtain ⟨d, hd, rfl | ⟨c, hc, rfl⟩⟩ := mem_draftEdges.1 hr
    · exact .inl ⟨d.id, rfl⟩
    · exact .inr ⟨d.id, c.id, rfl, .inr (mem_draftEdges.2 ⟨d, hd, .inl rfl⟩)⟩
  creates p hp n hn := (created_status (mem_create.1 hp) (.inl hn)).1
  sets p hp n hs := (created_status (mem_create.1 hp) (.inr hs)).2
  drafts r hr := by
    obtain ⟨d, hd, rfl | ⟨c, hc, rfl⟩⟩ := mem_draftEdges.1 hr
    · exact ⟨_, mem_create.2 (.standard d hd List.mem_cons_self), rfl⟩
    · exact ⟨_, mem_create.2 (.control d hd c hc List.mem_cons_self), rfl⟩
  opened hmem := absurd hmem hnew
  policy := .inr ⟨_, mem_create.2 (.policy rfl), rfl⟩
  given p hp n hn := (created_status (mem_create.1 hp) (.inl hn)).2.2

/-! ## What a call keeps -/

/-- The tree edges a call mints: its ids come from the titles it is given, a fork's from the titles of its prior's tree. -/
def minted (h : Hashing) (scan : ScanOrder) (g : Graph) : LifecycleCall → List EdgeRecord
  | .createPolicyDraft _ title standards none _ =>
    draftEdges (h.policyId title none) (buildStandardDrafts h (h.policyId title none) standards)
  | .createPolicyDraft _ title _ (some prior) _ =>
    draftEdges (h.policyId title (some prior))
      ((buildForkedStandardDrafts h scan g (h.policyId title (some prior)) prior).getD [])
  | .addStandardToDraft _ _ policyId title _ => [supportedBy policyId (h.standardId policyId title)]
  | .addControlToDraft _ _ standardId title _ _ => [implementedBy standardId (h.controlId standardId title)]
  | _ => []

/-- What an accepted call leaves of the trees, and what it adds. -/
structure Keeps (g g' : Graph) (edges : List EdgeRecord) : Prop where
  sound : MintsApart g edges → Sound g'
  linked : ∀ r ∈ edges, Shows g' r
  kept : ∀ r, TreeEdge r → Shows g r → Shows g' r

theorem SameShape.refl (g : Graph) : SameShape g g := ⟨fun _ => .rfl, fun _ _ => .rfl⟩

theorem SameShape.trans {g g' g'' : Graph} (h : SameShape g g') (h' : SameShape g' g'') : SameShape g g'' where
  nodes n := (h'.nodes n).trans (h.nodes n)
  shows r hr := (h'.shows r hr).trans (h.shows r hr)

theorem Restamped.sameShape {g g' : Graph} (h : Restamped g g') : SameShape g g' where
  nodes _ := h.mem
  shows r _ := h.shows r

theorem SameShape.keeps {g g' : Graph} (h : SameShape g g') (hg : Sound g') : Keeps g g' [] where
  sound _ := hg
  linked r hr := by cases hr
  kept r hr hshow := (h.shows r hr).2 hshow

theorem MintsApart.restamped {g g' : Graph} (h : Restamped g g') {edges : List EdgeRecord} (hapart : MintsApart g edges) :
    MintsApart g' edges := by
  intro r hr parent hshow
  exact hapart r hr parent (hshow.imp_left (h.shows _).1)

theorem Adds.restamped {g g' : Graph} (h : Restamped g g') {ps : List Primitive} {id : String} {edges : List EdgeRecord}
    (hadds : Adds g ps id edges) : Adds g' ps id edges where
  supplied := h.supplied hadds.supplied
  grows := hadds.grows
  links := hadds.links
  rooted r hr := by
    simp only [h.shows]
    exact hadds.rooted r hr
  creates := hadds.creates
  sets := hadds.sets
  drafts := hadds.drafts
  opened hid := by
    unfold statusOf
    rw [h.columns]
    exact hadds.opened (h.mem.1 hid)
  policy := hadds.policy.imp_left h.mem.2
  given := hadds.given

/-- A group that adds to a tree, after the stamps. -/
theorem Adds.keeps {g g' : Graph} {ps : List Primitive} {id : String} {edges : List EdgeRecord} (hadds : Adds g ps id edges)
    (hg : Sound g) (h : Restamped g g')
    (hversion : ∀ x, policyRef x ∈ (applyAll g' ps).nodes → (columns (applyAll g' ps) (policyRef x))["version"]? ≠ none) :
    Keeps g (applyAll g' ps) edges := by
  have hgrafts := (hadds.restamped h).grafts
  refine ⟨fun hapart => ⟨hgrafts.coherent (hapart.restamped h) (hg.restamped h).toCoherent, hversion⟩, fun r hr => ?_,
    fun r hr hshow => ?_⟩
  · exact (hgrafts.shows r (hadds.treeEdge hr)).2 (.inr hr)
  · exact (hgrafts.shows r hr).2 (.inl ((h.shows r).2 hshow))

section Calls

variable {gw : Gateway} {h : Hashing} {s : GraphState} {R : GraphState → Prop}

theorem does_readTransitionTarget {policyId : String} {P : GraphState → PolicyRecord → Prop}
    (hback : Backfilled gw.scan s.graph) (hno : R s)
    (hP : ∀ r, readPolicyTree gw.scan s.graph policyId = some r → P s r) :
    Does gw R (readTransitionTarget gw policyId) P s := by
  refine Flow.alone_bind (does_backfill (hback policyId) ?_)
  exact Flow.alone_bind (does_query (does_need (fun _ => hno) hP))

/-- What a cascade needs is there. -/
theorem supplied_cascade {g : Graph} {id target : String} {nodes : List NodeRef} (hstored : policyRef id ∈ g.nodes)
    (hnodes : ∀ n, n ∈ nodes ↔ n = policyRef id ∨ Under g id n) : Supplied (· ∈ g.nodes) (statusMerges target nodes) := by
  refine supplied_of_needs ?_ ?_
  · intro p hp n hn
    obtain ⟨m, hm, rfl⟩ := List.mem_map.1 hp
    obtain rfl : n = m := hn
    rcases (hnodes n).1 hm with rfl | hunder
    · exact hstored
    · exact hunder.mem.2
  · intro p hp n
    obtain ⟨m, -, rfl⟩ := List.mem_map.1 hp
    simp

theorem does_cascadeStatus {action : Transition} {actor : Actor} {policyId : String} {P : GraphState → Unit → Prop}
    (hg : Sound s.graph) (hstored : policyRef policyId ∈ s.graph.nodes)
    (hP : ∀ s', Sound s'.graph → SameShape s.graph s'.graph → P s' ()) :
    Does gw R (cascadeStatus gw action actor policyId) P s := by
  refine Flow.alone_bind (does_query ?_)
  obtain ⟨nodes, heq, hnodes⟩ := @cascadePrimitives_shape gw.scan s.graph policyId action.target hstored
  rw [heq]
  refine does_submitGroup (supplied_cascade hstored hnodes) fun g' n hstamped => ?_
  have hnone : ∀ p ∈ ([] : List Primitive), Governs p := by simp
  have hnodes' : ∀ n, n ∈ nodes ↔ n = policyRef policyId ∨ Under g' policyId n := by
    intro n
    rw [hstamped.under]
    exact hnodes n
  have hcascade := @Sound.cascade g' (hg.restamped hstamped) policyId action.target [] nodes hnone
    (hstamped.mem.2 hstored) hnodes'
  exact hP ⟨_, n⟩ hcascade.1 (hstamped.sameShape.trans hcascade.2)

theorem governed_ends {g : Graph} {scan : ScanOrder} {policyId : String} {repoint : ForkGovernance}
    (h : readRepoint scan g policyId = some repoint) : ∀ c ∈ repoint.capabilityIds, capabilityRef c ∈ g.nodes := by
  intro c hc
  obtain ⟨hread, -⟩ := Option.filter_eq_some_iff.1 h
  obtain ⟨prior, -, rfl⟩ := Option.map_eq_some_iff.1 hread
  obtain ⟨_, -, hc⟩ := List.mem_flatMap.1 hc
  obtain ⟨e, he, rfl⟩ := List.mem_map.1 hc
  obtain ⟨hshow, ⟨htype, hsource, htarget⟩, -⟩ := mem_edgeRows.1 he
  have hend := (shows_ends hshow).1
  rwa [EdgeRecord.source, show e.sourceLabel = "Capability" from hsource] at hend

theorem supplied_repoint {has : NodeRef → Prop} {policyId priorId : String} {capabilityIds : List String}
    (hpolicy : has (policyRef policyId)) (hcapabilities : ∀ c ∈ capabilityIds, has (capabilityRef c)) :
    Supplied has (repointPrimitives policyId priorId capabilityIds) := by
  refine supplied_of_needs ?_ ?_
  · intro p hp n hn
    rcases List.mem_append.1 hp with hp | hp
    · obtain ⟨c, -, rfl⟩ := List.mem_map.1 hp
      exact hn.elim
    · obtain ⟨c, hc, rfl⟩ := List.mem_map.1 hp
      rcases hn with rfl | rfl
      · exact hcapabilities c (List.mem_eraseDups.1 hc)
      · exact hpolicy
  · intro p hp n
    rcases List.mem_append.1 hp with hp | hp
    · obtain ⟨c, -, rfl⟩ := List.mem_map.1 hp
      simp
    · obtain ⟨c, -, rfl⟩ := List.mem_map.1 hp
      simp

theorem does_writeApproval {actor : Actor} {policyId : String} {P : GraphState → Unit → Prop} (hg : Sound s.graph)
    (hstored : policyRef policyId ∈ s.graph.nodes)
    (hP : ∀ s', Sound s'.graph → SameShape s.graph s'.graph → P s' ()) :
    Does gw R (writeApproval gw actor policyId (readRepoint gw.scan s.graph policyId)) P s := by
  cases hrepoint : readRepoint gw.scan s.graph policyId with
  | none => exact does_cascadeStatus hg hstored hP
  | some repoint =>
    have hread : readForkGovernance gw.scan s.graph policyId = some repoint := (Option.filter_eq_some_iff.1 hrepoint).1
    have hunchanged : repoint.unchanged (readForkGovernance gw.scan s.graph policyId) = true := by
      simp [ForkGovernance.unchanged, hread]
    refine Flow.alone_bind (Flow.alone_bind (Flow.alone_get (Flow.alone_bind (does_query ?_))))
    simp only [hunchanged, Bool.not_true, Bool.false_eq_true, if_false]
    refine Flow.alone_bind (does_ensureStamped fun g' n hstamped => ?_)
    refine Flow.alone_bind (does_query ?_)
    have hstored' := hstamped.mem.2 hstored
    obtain ⟨nodes, heq, hnodes⟩ := @cascadePrimitives_shape gw.scan g' policyId Transition.approve.target hstored'
    simp only [heq]
    have hcascade := @Sound.cascade g' (hg.restamped hstamped) policyId Transition.approve.target _ nodes
      (@governs_repoint policyId repoint.priorId repoint.capabilityIds) hstored' hnodes
    refine does_submit ?_ (by simp) fun m => ?_
    · refine (supplied_repoint hstored' fun c hc => hstamped.mem.2 (governed_ends hrepoint c hc)).append ?_
      exact (supplied_cascade hstored' hnodes).mono fun _ hn => .inl hn
    · exact does_gate (fun hno => by cases hno) fun _ => hP ⟨_, m⟩ hcascade.1 (hstamped.sameShape.trans hcascade.2)

theorem does_deprecatePrior {actor : Actor} {policyId : String} {P : GraphState → Unit → Prop} (hg : Sound s.graph)
    (hP : ∀ s', Sound s'.graph → SameShape s.graph s'.graph → P s' ()) :
    Does gw R (deprecatePrior gw actor policyId) P s := by
  refine Flow.alone_bind (does_query ?_)
  split
  · exact hP s hg (.refl _)
  · refine Flow.alone_bind (does_query ?_)
    split
    · exact hP s hg (.refl _)
    · rename_i r hr
      exact does_cascadeStatus hg (readPolicyTree_spec hr).1 hP

/-! ### Edits -/

theorem patchable_not_managed {label key : String} (h : key ∈ patchableFields label) : key ≠ "status" ∧ key ≠ "version" := by
  have hall : ∀ label ∈ ["Policy", "Standard", "Control"], ∀ key ∈ patchableFields label,
      key ≠ "status" ∧ key ≠ "version" := by decide +kernel
  by_cases hlabel : label ∈ ["Policy", "Standard", "Control"]
  · exact hall label hlabel key h
  · have hempty : schemaProperties label = [] := by
      unfold schemaProperties
      split <;> simp_all
    simp [patchableFields, hempty] at h

/-- **A patch keeps coherence**: it writes no status. -/
theorem Sound.patch {g : Graph} (hg : Sound g) {label id : String} (fields : ContentFields label) :
    Sound (applyAll g (patchPrimitives id fields)) ∧ SameShape g (applyAll g (patchPrimitives id fields)) := by
  have hsets : ∀ p ∈ patchPrimitives id fields, ∀ n key, Sets p n key → key ≠ "status" ∧ key ≠ "version" := by
    intro p hp n key hs
    rcases mem_patchPrimitives hp with rfl | rfl
    · exact patchable_not_managed (values_patchable fields hs.2)
    · exact patchable_not_managed (nullKeys_patchable fields hs.2)
  have hshape : SameShape g (applyAll g (patchPrimitives id fields)) := by
    refine sameShape_of (grows_edit (.patch id fields)) (fun r _ => links_patch) fun p hp n hn => ?_
    rcases mem_patchPrimitives hp with rfl | rfl
    · exact hn
    · exact hn
  have hstatus : ∀ n, statusOf (applyAll g (patchPrimitives id fields)) n = statusOf g n := fun n =>
    applyAll_columns (fun p hp hs => (hsets p hp n _ hs).1 rfl) g
  refine ⟨hg.sameShape hshape (fun x n hunder => ?_) fun x => ?_, hshape⟩
  · rw [hstatus, hstatus, hg.aligned x n hunder]
  · exact applyAll_columns (fun p hp hs => (hsets p hp _ _ hs).2 rfl) g

theorem supplied_patch {has : NodeRef → Prop} {label id : String} {fields : ContentFields label} (h : has ⟨label, id⟩) :
    Supplied has (patchPrimitives id fields) := by
  refine supplied_of_needs ?_ ?_
  · intro p hp n hn
    rcases mem_patchPrimitives hp with rfl | rfl
    · obtain rfl : n = _ := hn
      exact h
    · exact hn.elim
  · intro p hp n
    rcases mem_patchPrimitives hp with rfl | rfl <;> simp

theorem does_patch {purpose : Purpose} {label id : String} {fields : ContentFields label} (hg : Sound s.graph)
    (hstored : (⟨label, id⟩ : NodeRef) ∈ s.graph.nodes) :
    Does gw R (submitGroup gw purpose (patchPrimitives id fields)) (fun s' _ => Keeps s.graph s'.graph []) s := by
  refine does_submitGroup (supplied_patch hstored) fun g' n hstamped => ?_
  have hpatch := @Sound.patch g' (hg.restamped hstamped) label id fields
  exact (hstamped.sameShape.trans hpatch.2).keeps hpatch.1

theorem draft_of_authorized {access : Access} {actor : Actor} {owner : Owner} {status : Option PropertyValue}
    (h : authorizeDraftEdit access ⟨actor, owner, .edit, status⟩ = true) : status = some (text "draft") := by
  simp only [authorizeDraftEdit, requireStatus, requiredStatus, Option.any_some, Bool.and_eq_true,
    decide_eq_true_eq] at h
  exact h.2

/-- A child that is no Policy leaves every version. -/
theorem versioned_child {g : Graph} {parent child : NodeRef} {props : PropertyMap} {edgeType : String}
    (hchild : ∀ x, child ≠ policyRef x) (hg : Versioned g) :
    Versioned (applyAll g (childPrimitives parent child props edgeType)) := by
  intro x hx
  have hold : policyRef x ∈ g.nodes := by
    by_contra hnot
    obtain ⟨props', e, hp⟩ := applyAll_new hnot hx
    rcases List.mem_cons.1 hp with heq | hp
    · exact hchild x (Primitive.upsertNode.inj heq).1.symm
    · cases List.mem_singleton.1 hp
  rw [applyAll_columns (fun p hp hs => hchild x (touches_child hp hs.touches).symm) g]
  exact hg x hold

theorem newStandard_status {title : String} {fields : ContentFields "Standard"} :
    (newStandardProperties title fields)["status"]? = some (text "draft") := by
  simp [newStandardProperties]

theorem newControl_status {title controlType : String} {fields : ContentFields "Control"} :
    (newControlProperties title controlType fields)["status"]? = some (text "draft") := by
  simp [newControlProperties]

theorem does_addStandard {purpose : Purpose} {policyId standardId title : String} {fields : ContentFields "Standard"}
    (hg : Sound s.graph) (hdraft : statusOf s.graph (policyRef policyId) = some (text "draft")) :
    Does gw R (submitGroup gw purpose (addStandardPrimitives policyId standardId title fields))
      (fun s' _ => Keeps s.graph s'.graph [supportedBy policyId standardId]) s := by
  have hadds : Adds s.graph (addStandardPrimitives policyId standardId title fields) policyId
      [supportedBy policyId standardId] :=
    adds_child newStandard_status hdraft (stored_of_status hdraft) (.inl ⟨standardId, rfl⟩)
  refine does_submitGroup hadds.supplied fun g' n hstamped => hadds.keeps hg hstamped ?_
  exact versioned_child (fun x => standardRef_ne) (hg.restamped hstamped).versioned

theorem does_addControl {purpose : Purpose} {policyId standardId controlId title controlType : String}
    {fields : ContentFields "Control"} (hg : Sound s.graph) (hparent : Shows s.graph (supportedBy policyId standardId))
    (hdraft : statusOf s.graph (standardRef standardId) = some (text "draft")) :
    Does gw R (submitGroup gw purpose (addControlPrimitives standardId controlId title controlType fields))
      (fun s' _ => Keeps s.graph s'.graph [implementedBy standardId controlId]) s := by
  have hpolicy : statusOf s.graph (policyRef policyId) = some (text "draft") := by
    rw [← hg.aligned policyId _ (under_standard.2 hparent)]
    exact hdraft
  have hadds : Adds s.graph (addControlPrimitives standardId controlId title controlType fields) policyId
      [implementedBy standardId controlId] :=
    adds_child newControl_status hpolicy (supportedBy_ends hparent).2 (.inr ⟨standardId, controlId, rfl, hparent⟩)
  refine does_submitGroup hadds.supplied fun g' n hstamped => hadds.keeps hg hstamped ?_
  exact versioned_child (fun x => controlRef_ne) (hg.restamped hstamped).versioned

theorem findStandardWithParent_spec {scan : ScanOrder} {g : Graph} {standardId : String} {row : StandardWithParent}
    (h : findStandardWithParent scan g standardId = some row) :
    Shows g (supportedBy row.policyId standardId) ∧ row.standardStatus = statusOf g (standardRef standardId) := by
  obtain ⟨e, he, rfl⟩ := Option.map_eq_some_iff.1 h
  obtain ⟨hshow, ⟨htype, hsource, htarget⟩, hid⟩ := mem_edgeRows.1 (List.mem_of_mem_head? he)
  refine ⟨?_, rfl⟩
  obtain ⟨t, sl, x, tl, y⟩ := e
  obtain rfl : t = "SUPPORTED_BY" := htype
  obtain rfl : sl = "Policy" := hsource
  obtain rfl : tl = "Standard" := htarget
  obtain rfl : y = standardId := of_decide_eq_true hid
  exact hshow

theorem does_standardWithParent {standardId : String} {P : GraphState → StandardWithParent → Prop}
    (hback : Backfilled gw.scan s.graph) (hno : R s)
    (hP : ∀ row, findStandardWithParent gw.scan s.graph standardId = some row → P s row) :
    Does gw R (readStandardWithParentBackfilled gw standardId) P s := by
  refine Flow.alone_bind (does_query (Flow.alone_bind (does_need (fun _ => hno) fun row _ => ?_)))
  refine Flow.alone_bind (does_backfill (hback row.policyId) ?_)
  exact Flow.alone_bind (does_query (does_need (fun _ => hno) hP))

theorem findControlWithParent_spec {scan : ScanOrder} {g : Graph} {controlId : String} {row : ControlWithParent}
    (h : findControlWithParent scan g controlId = some row) : controlRef controlId ∈ g.nodes := by
  obtain ⟨i, hi, -⟩ := List.mem_flatMap.1 (List.mem_of_mem_head? h)
  obtain ⟨hshow, ⟨-, -, htarget⟩, hid⟩ := mem_edgeRows.1 hi
  have hend := (shows_ends hshow).2
  rwa [EdgeRecord.target, show i.targetLabel = "Control" from htarget, of_decide_eq_true hid] at hend

theorem does_controlWithParent {controlId : String} {P : GraphState → ControlWithParent → Prop}
    (hback : Backfilled gw.scan s.graph) (hno : R s)
    (hP : ∀ row, findControlWithParent gw.scan s.graph controlId = some row → P s row) :
    Does gw R (readControlWithParentBackfilled gw controlId) P s := by
  refine Flow.alone_bind (does_query (Flow.alone_bind (does_need (fun _ => hno) fun row _ => ?_)))
  refine Flow.alone_bind (does_backfill (hback row.policyId) ?_)
  exact Flow.alone_bind (does_query (does_need (fun _ => hno) hP))

/-! ### Creates -/

theorem version_create {g : Graph} {new : NewPolicy} {capabilityIds : List String} (hg : Versioned g) :
    Versioned (applyAll g (new.primitives ++ claimPrimitives new.policyId capabilityIds)) := by
  have honly : ∀ p ∈ new.primitives ++ claimPrimitives new.policyId capabilityIds, ∀ x, Touches p (policyRef x) →
      x = new.policyId ∧ p = .upsertNode (policyRef new.policyId) new.properties none := by
    intro p hp x htouch
    rcases mem_create.1 hp with rfl | ⟨prior, -, rfl⟩ | ⟨d, -, h⟩ | ⟨d, -, c, -, h⟩ | ⟨capability, -, rfl⟩
    · exact ⟨(NodeRef.mk.inj htouch).2.symm, rfl⟩
    · exact htouch.elim
    · exact absurd (touches_child h htouch).symm standardRef_ne
    · exact absurd (touches_child h htouch).symm controlRef_ne
    · exact htouch.elim
  intro x hx
  by_cases hid : x = new.policyId
  · have hputs : Puts (.upsertNode (policyRef new.policyId) new.properties none) (policyRef x) "version"
        (text new.version) := by
      refine ⟨by rw [hid], ?_⟩
      simp only [NewPolicy.properties, ExtTreeMap.getElem?_insert, Std.LawfulEqCmp.compare_eq_iff_eq]
      rfl
    rw [@columns_of_puts _ _ _ (text new.version) (fun p hp hs => (honly p hp x hs.touches).2 ▸ hputs) g
      (.inr ⟨_, mem_create.2 (.policy rfl), congrArg policyRef hid, hputs⟩)]
    simp
  · have hold : policyRef x ∈ g.nodes := by
      by_contra hnot
      obtain ⟨props, e, hp⟩ := applyAll_new hnot hx
      exact hid (honly _ hp x rfl).1
    rw [applyAll_columns (fun p hp hs => hid (honly p hp x hs.touches).1) g]
    exact hg x hold

theorem claimable_mem {scan : ScanOrder} {g : Graph} {capabilityIds : List String}
    (h : claimable scan g capabilityIds = true) : ∀ c ∈ capabilityIds, capabilityRef c ∈ g.nodes := by
  intro c hc
  have hread := of_decide_eq_true (List.all_eq_true.1 h c hc)
  obtain ⟨p, hp, -⟩ := Option.map_eq_some_iff.1 hread
  exact ExtTreeMap.mem_iff_isSome_getElem?.2 (by rw [hp]; rfl)

theorem does_writeUnclaimed {new : NewPolicy} (hg : Sound s.graph) (hno : R s) (hnew : policyRef new.policyId ∉ s.graph.nodes)
    (hprior : ∀ prior, new.supersedes = some prior → policyRef prior ∈ s.graph.nodes) :
    Does gw R (writeUnclaimed gw new)
      (fun s' _ => Keeps s.graph s'.graph (draftEdges new.policyId new.standards)) s := by
  have hadds := @adds_create s.graph new [] hnew hprior (by simp)
  refine Flow.alone_bind (does_gate (fun _ => hno) fun _ => ?_)
  have heq : new.primitives = new.primitives ++ claimPrimitives new.policyId [] := (List.append_nil _).symm
  rw [heq]
  refine does_submitGroup hadds.supplied fun g' n hstamped => hadds.keeps hg hstamped ?_
  exact version_create (hg.restamped hstamped).versioned

theorem does_writeClaimed {new : NewPolicy} {capabilityIds : List String} (hg : Sound s.graph) (hno : R s)
    (hnew : policyRef new.policyId ∉ s.graph.nodes)
    (hprior : ∀ prior, new.supersedes = some prior → policyRef prior ∈ s.graph.nodes) (hstorable : new.storable = true) :
    Does gw R (writeClaimed gw new capabilityIds)
      (fun s' _ => Keeps s.graph s'.graph (draftEdges new.policyId new.standards)) s := by
  refine Flow.alone_bind (Flow.alone_get (Flow.alone_bind (does_query (Flow.alone_bind ?_))))
  refine does_gate (fun _ => hno) fun hclaimable => ?_
  have hadds := @adds_create s.graph new capabilityIds hnew hprior (claimable_mem hclaimable)
  refine Flow.alone_bind (does_ensureStamped fun g' n hstamped => ?_)
  refine Flow.alone_bind (does_gate (fun hf => by rw [hstorable] at hf; cases hf) fun _ => Flow.alone_bind ?_)
  refine does_submit (hstamped.supplied hadds.supplied) (by simp) fun m => ?_
  refine does_gate (fun hf => by cases hf) fun _ => hadds.keeps hg hstamped ?_
  exact version_create (hg.restamped hstamped).versioned

/-- A new draft with the children it was given holds nothing that cannot be stored. -/
theorem storable_built {policyId title version : String} {actor : Actor} {supersedes : Option String}
    {standards : List StandardDraftInput} :
    (NewPolicy.mk policyId title actor (buildStandardDrafts h policyId standards) supersedes version).storable = true := by
  simp [NewPolicy.storable, buildStandardDrafts]

theorem not_stored_of_existing {g : Graph} {policyId : String} (h : (findExistingPolicy g policyId).isNone = true) :
    policyRef policyId ∉ g.nodes := by
  rw [ExtTreeMap.mem_iff_isSome_getElem?]
  simpa [findExistingPolicy] using h

theorem does_createPolicyDraft {actor : Actor} {title : String} {standards : List StandardDraftInput}
    {supersedes : Option String} {capabilityIds : List String} (hg : Sound s.graph) (hback : Backfilled gw.scan s.graph)
    (hno : R s) :
    Does gw R (createPolicyDraft gw h actor title standards supersedes capabilityIds) (fun s' _ => Keeps s.graph s'.graph
      (minted h gw.scan s.graph (.createPolicyDraft actor title standards supersedes capabilityIds))) s := by
  cases supersedes with
  | none =>
    refine Flow.alone_bind (Flow.alone_pure (Flow.alone_bind (does_query (Flow.alone_bind ?_))))
    refine does_gate (fun _ => hno) fun hexisting => Flow.alone_bind (does_query (Flow.alone_bind ?_))
    refine does_gate (fun _ => hno) fun _ => ?_
    refine Flow.alone_bind (Flow.alone_pure (Flow.alone_bind (does_need (fun hf => by cases hf) fun drafts hdrafts => ?_)))
    obtain rfl := Option.some.inj hdrafts
    have hnew := not_stored_of_existing hexisting
    have hprior : ∀ prior, (none : Option String) = some prior → policyRef prior ∈ s.graph.nodes := by
      intro prior hsome
      cases hsome
    simp only [Option.isSome_none, Bool.false_eq_true, if_false]
    split
    · exact does_writeUnclaimed hg hno hnew hprior
    · exact does_writeClaimed hg hno hnew hprior storable_built
  | some prior =>
    refine Flow.alone_bind (Flow.alone_bind (does_readTransitionTarget hback hno fun r hr => Flow.alone_bind ?_))
    refine does_gate (fun _ => hno) fun _ => does_need (fun _ => hno) fun version _ => ?_
    refine Flow.alone_bind (does_query (Flow.alone_bind ?_))
    refine does_gate (fun _ => hno) fun hexisting => Flow.alone_bind (does_query (Flow.alone_bind ?_))
    refine does_gate (fun _ => hno) fun _ => Flow.alone_bind (does_query (Flow.alone_bind ?_))
    refine does_need (fun _ => hno) fun drafts hdrafts => ?_
    have hminted : minted h gw.scan s.graph (.createPolicyDraft actor title standards (some prior) capabilityIds) =
        draftEdges (h.policyId title (some prior)) drafts := by
      simp only [minted, hdrafts, Option.getD_some]
    rw [hminted]
    simp only [Option.isSome_some, if_true]
    refine does_writeUnclaimed hg hno (not_stored_of_existing hexisting) ?_
    rintro prior' heq
    cases heq
    exact (readPolicyTree_spec hr).1

/-- **One call** with no other beside it keeps coherent trees, or is refused and leaves the graph. -/
theorem call_keeps (hg : Sound s.graph) (call : LifecycleCall) :
    Does gw (fun s' => s'.graph = s.graph) (call.flow gw h)
      (fun s' _ => Keeps s.graph s'.graph (minted h gw.scan s.graph call)) s := by
  have hback : Backfilled gw.scan s.graph := (backfilled_iff hg.toCoherent).2 hg.versioned
  have hsame : ∀ s' : GraphState, Sound s'.graph → SameShape s.graph s'.graph → Keeps s.graph s'.graph [] :=
    fun s' hs' hshape => hshape.keeps hs'
  cases call with
  | createPolicyDraft actor title standards supersedes capabilityIds => exact does_createPolicyDraft hg hback rfl
  | getPolicy policyId =>
    exact Flow.alone_bind (does_readTransitionTarget hback rfl fun r _ => hsame s hg (.refl _))
  | proposePolicy actor policyId =>
    refine Flow.alone_bind (does_readTransitionTarget hback rfl fun r hr => Flow.alone_bind ?_)
    refine does_gate (fun _ => rfl) fun _ => Flow.alone_bind (does_gate (fun _ => rfl) fun _ => Flow.alone_bind ?_)
    exact does_gate (fun _ => rfl) fun _ => does_cascadeStatus hg (readPolicyTree_spec hr).1 hsame
  | approvePolicy access actor policyId =>
    refine Flow.alone_bind (does_readTransitionTarget hback rfl fun r hr => Flow.alone_bind ?_)
    refine does_gate (fun _ => rfl) fun _ => Flow.alone_bind (does_gate (fun _ => rfl) fun _ => Flow.alone_bind ?_)
    refine does_gate (fun _ => rfl) fun _ => Flow.alone_bind (does_query (Flow.alone_bind ?_))
    refine does_writeApproval hg (readPolicyTree_spec hr).1 fun s₁ h₁ hshape => does_deprecatePrior h₁ ?_
    exact fun s₂ h₂ hshape₂ => hsame s₂ h₂ (hshape.trans hshape₂)
  | rejectPolicy access actor policyId =>
    refine Flow.alone_bind (does_readTransitionTarget hback rfl fun r hr => Flow.alone_bind ?_)
    refine does_gate (fun _ => rfl) fun _ => Flow.alone_bind (does_gate (fun _ => rfl) fun _ => Flow.alone_bind ?_)
    exact does_gate (fun _ => rfl) fun _ => does_cascadeStatus hg (readPolicyTree_spec hr).1 hsame
  | revertPolicyToDraft actor policyId =>
    refine Flow.alone_bind (does_readTransitionTarget hback rfl fun r hr => Flow.alone_bind ?_)
    refine does_gate (fun _ => rfl) fun _ => Flow.alone_bind ?_
    exact does_gate (fun _ => rfl) fun _ => does_cascadeStatus hg (readPolicyTree_spec hr).1 hsame
  | updatePolicyDraft access actor policyId fields =>
    refine Flow.alone_bind (does_readTransitionTarget hback rfl fun r hr => Flow.alone_bind ?_)
    exact does_gate (fun _ => rfl) fun _ => does_patch hg (readPolicyTree_spec hr).1
  | addStandardToDraft access actor policyId title fields =>
    refine Flow.alone_bind (does_readTransitionTarget hback rfl fun r hr => Flow.alone_bind ?_)
    refine does_gate (fun _ => rfl) fun hgate => does_addStandard hg ?_
    rw [← (readPolicyTree_spec hr).2.2]
    exact draft_of_authorized hgate
  | updateStandardDraft access actor standardId fields =>
    refine Flow.alone_bind (does_standardWithParent hback rfl fun row hrow => Flow.alone_bind ?_)
    exact does_gate (fun _ => rfl) fun _ => does_patch hg (supportedBy_ends (findStandardWithParent_spec hrow).1).2
  | addControlToDraft access actor standardId title controlType fields =>
    refine Flow.alone_bind (does_standardWithParent hback rfl fun row hrow => Flow.alone_bind ?_)
    obtain ⟨hshow, hstatus⟩ := findStandardWithParent_spec hrow
    refine does_gate (fun _ => rfl) fun hgate => does_addControl hg hshow ?_
    rw [← hstatus]
    exact draft_of_authorized hgate
  | updateControlDraft access actor controlId fields =>
    refine Flow.alone_bind (does_controlWithParent hback rfl fun row hrow => Flow.alone_bind ?_)
    exact does_gate (fun _ => rfl) fun _ => does_patch hg (findControlWithParent_spec hrow)

end Calls

/-! ## Runs -/

section Runs

variable (gw : Gateway) (h : Hashing) (s : GraphState)

/-- The graph after calls one after another. -/
def graphAfter (calls : List LifecycleCall) : Graph := (callsAlone gw h s calls).graph

/-- The trees are coherent at the start and after every call. -/
def CoherentThroughout (calls : List LifecycleCall) : Prop :=
  ∀ past future, calls = past ++ future → Coherent (graphAfter gw h s past)

/-- The call, where it is accepted, mints no id that hangs under another parent. -/
def MintsApartAt (past : List LifecycleCall) (call : LifecycleCall) : Prop :=
  ¬ Refused gw h (callsAlone gw h s past) call →
    MintsApart (graphAfter gw h s past) (minted h gw.scan (graphAfter gw h s past) call)

/-- The call, where it is refused, leaves the graph. -/
def RefusedLeaves (past : List LifecycleCall) (call : LifecycleCall) : Prop :=
  Refused gw h (callsAlone gw h s past) call → graphAfter gw h s (past ++ [call]) = graphAfter gw h s past

variable {gw h s}

theorem graphAfter_snoc {past : List LifecycleCall} {call : LifecycleCall} :
    graphAfter gw h s (past ++ [call]) = (callAlone gw h (callsAlone gw h s past) call).graph := by
  unfold graphAfter callsAlone
  rw [List.foldl_append]
  rfl

/-- An accepted call keeps, a refused one leaves. -/
theorem call_ends (hg : Sound s.graph) (call : LifecycleCall) :
    (¬ Refused gw h s call → Keeps s.graph (callAlone gw h s call).graph (minted h gw.scan s.graph call)) ∧
      (Refused gw h s call → (callAlone gw h s call).graph = s.graph) := by
  have hdoes : Does gw (fun s' => s'.graph = s.graph) (call.flow gw h)
      (fun s' _ => Keeps s.graph s'.graph (minted h gw.scan s.graph call)) s := call_keeps hg call
  obtain ⟨hreturn, hrefused⟩ := Flow.alone_run hdoes
  refine ⟨fun hno => ?_, hrefused⟩
  obtain ⟨a, ha⟩ := Option.ne_none_iff_exists'.1 hno
  exact hreturn a ha

/-- Minting the child of another parent would give it two. -/
theorem apart_of_coherent {g g' : Graph} {edges : List EdgeRecord} (hkeeps : Keeps g g' edges)
    (htree : ∀ r ∈ edges, TreeEdge r) (hg' : Coherent g') : MintsApart g edges := by
  intro r hr parent hparent
  have hnew := hkeeps.linked r hr
  cases htree r hr with
  | standard x c =>
    have hother : Shows g' (supportedBy parent c) :=
      hparent.elim (hkeeps.kept _ (.standard parent c)) (hkeeps.linked _)
    exact (hg'.standard c (supportedBy_ends hnew).2).unique hother hnew
  | control x c =>
    have hother : Shows g' (implementedBy parent c) :=
      hparent.elim (hkeeps.kept _ (.control parent c)) (hkeeps.linked _)
    exact (hg'.control c (implementedBy_ends hnew).2).unique hother hnew

theorem draftEdges_tree {policyId : String} {drafts : List StandardDraft} :
    ∀ r ∈ draftEdges policyId drafts, TreeEdge r := by
  intro r hr
  obtain ⟨d, -, rfl | ⟨c, -, rfl⟩⟩ := mem_draftEdges.1 hr
  · exact .standard policyId d.id
  · exact .control d.id c.id

theorem minted_tree {scan : ScanOrder} {g : Graph} {call : LifecycleCall} : ∀ r ∈ minted h scan g call, TreeEdge r := by
  intro r hr
  cases call with
  | createPolicyDraft actor title standards supersedes capabilityIds =>
    cases supersedes with
    | none => exact draftEdges_tree r hr
    | some prior => exact draftEdges_tree r hr
  | addStandardToDraft access actor policyId title fields =>
    obtain rfl := List.mem_singleton.1 hr
    exact .standard _ _
  | addControlToDraft access actor standardId title controlType fields =>
    obtain rfl := List.mem_singleton.1 hr
    exact .control _ _
  | _ => cases hr

/-- Calls that mint apart keep sound trees sound. -/
theorem sound_after {calls : List LifecycleCall} (hg : Sound s.graph) (hapart : Throughout (MintsApartAt gw h s) calls) :
    Sound (graphAfter gw h s calls) := by
  induction calls using List.reverseRecOn with
  | nil => exact hg
  | append_singleton past call ih =>
    have hpast : Sound (callsAlone gw h s past).graph := ih hapart.init
    obtain ⟨haccepted, hrefused⟩ := @call_ends gw h _ hpast call
    rw [graphAfter_snoc]
    by_cases hno : Refused gw h (callsAlone gw h s past) call
    · rw [hrefused hno]
      exact hpast
    · exact (haccepted hno).sound (hapart.last hno)

end Runs

/-- **Policy tree coherence.** Calls one after another from a backfilled graph keep every tree coherent, and leave the
graph where they are refused, exactly where the trees are coherent at the start and no accepted call mints a Standard of
another Policy or a Control of another Standard. -/
theorem tree_coherence_iff (gw : Gateway) (h : Hashing) (s : GraphState) (calls : List LifecycleCall)
    (hback : Backfilled gw.scan s.graph) :
    CoherentThroughout gw h s calls ∧ Throughout (RefusedLeaves gw h s) calls ↔
      Coherent s.graph ∧ Throughout (MintsApartAt gw h s) calls := by
  constructor
  · rintro ⟨hcoherent, -⟩
    have hstart : Coherent s.graph := hcoherent [] calls rfl
    have hsound : Sound s.graph := ⟨hstart, (backfilled_iff hstart).1 hback⟩
    refine ⟨hstart, ?_⟩
    induction calls using List.reverseRecOn with
    | nil =>
      intro past call future heq
      simp at heq
    | append_singleton past call ih =>
      have hinit : Throughout (MintsApartAt gw h s) past := by
        refine ih fun done rest heq => hcoherent done (rest ++ [call]) ?_
        rw [heq, List.append_assoc]
      refine hinit.snoc fun haccepted => ?_
      have hpast : Sound (callsAlone gw h s past).graph := sound_after hsound hinit
      have hafter : Coherent (graphAfter gw h s (past ++ [call])) := hcoherent (past ++ [call]) [] (by simp)
      rw [graphAfter_snoc] at hafter
      exact apart_of_coherent ((call_ends hpast call).1 haccepted) minted_tree hafter
  · rintro ⟨hstart, hapart⟩
    have hsound : Sound s.graph := ⟨hstart, (backfilled_iff hstart).1 hback⟩
    constructor
    · intro past future heq
      refine (sound_after hsound ?_).toCoherent
      intro past' call future' heq'
      exact hapart past' call (future' ++ future) (by simp [heq, heq'])
    · intro past call future heq hrefused
      have hpast : Sound (callsAlone gw h s past).graph := by
        refine sound_after hsound ?_
        intro past' call' future' heq'
        exact hapart past' call' (future' ++ call :: future) (by simp [heq, heq'])
      rw [graphAfter_snoc]
      exact (call_ends hpast call).2 hrefused

/-! ## Two Policies with a Standard of one id -/

def giftsId : String := "pol_gifts_management_e4d7d4"

def remoteId : String := "pol_remote_network_control_a73df6"

/-- The first six digits of SHA-1 of the texts these calls hash; the ids of the two Standards agree in them. -/
def reportingHashing : Hashing where
  lower := String.toLower
  hash
    | "gifts management" => "e4d7d4"
    | "remote network control" => "a73df6"
    | "pol_gifts_management_e4d7d4:reporting" => "06c00f"
    | "pol_remote_network_control_a73df6:reporting" => "06c00f"
    | _ => ""

def reportingEdge : EdgeKey × PropertyMap :=
  ((edgeBetween "SUPPORTED_BY" (policyRef giftsId) (standardRef "std_reporting_06c00f")).edgeKey, ∅)

/-- A gateway over a graph with that edge or none. -/
noncomputable def reportingGateway : Gateway where
  scan := ⟨fun m => if m = 0 then [] else if m = {reportingEdge} then [reportingEdge] else m.toList, fun m => by
    split
    · rename_i h
      rw [h]
      rfl
    · split
      · rename_i h
        rw [h]
        rfl
      · exact m.coe_toList⟩
  allow := ⟨["Policy", "Standard", "Control"], ["SUPPORTED_BY", "IMPLEMENTED_BY"]⟩

/-- Two owners create a Policy with one Standard each; the first proposes hers in between. -/
def reportingCalls : List LifecycleCall :=
  [.createPolicyDraft alice "Gifts Management" [⟨"Reporting", []⟩] none [], .proposePolicy alice giftsId,
    .createPolicyDraft bob "Remote Network Control" [⟨"Reporting", []⟩] none []]

theorem coherent_empty : Coherent ∅ where
  aligned _ _ := fun ⟨_, h, _⟩ => absurd h not_shows_empty
  standard _ hs := absurd hs (by simp)
  control _ hk := absurd hk (by simp)

theorem backfilled_empty (scan : ScanOrder) : Backfilled scan ∅ := by
  intro id
  simp [backfillPrimitives]

/-- The second create takes the Standard of the proposed Policy over: it is a draft, under two Policies. -/
theorem standard_taken_over : Coherent (∅ : Graph) ∧ Backfilled reportingGateway.scan ∅ ∧
    ¬ CoherentThroughout reportingGateway reportingHashing ⟨∅, 0⟩ reportingCalls := by
  refine ⟨coherent_empty, backfilled_empty _, fun hcoherent => ?_⟩
  have hlast := hcoherent reportingCalls [] (by simp)
  have hshow : Shows (graphAfter reportingGateway reportingHashing ⟨∅, 0⟩ reportingCalls)
      (supportedBy giftsId "std_reporting_06c00f") := ⟨reportingEdge, by decide +kernel, rfl⟩
  have hstatus : statusOf (graphAfter reportingGateway reportingHashing ⟨∅, 0⟩ reportingCalls)
      (standardRef "std_reporting_06c00f") = some (text "draft") := by decide +kernel
  have hpolicy : statusOf (graphAfter reportingGateway reportingHashing ⟨∅, 0⟩ reportingCalls) (policyRef giftsId) =
      some (text "proposed") := by decide +kernel
  have haligned := hlast.aligned giftsId _ (under_standard.2 hshow)
  rw [hstatus, hpolicy] at haligned
  revert haligned
  decide

/-- The create and the proposal alone keep the tree coherent. -/
theorem tree_coherence_iff_gifts :
    CoherentThroughout reportingGateway reportingHashing ⟨∅, 0⟩ (reportingCalls.take 2) ∧
      Throughout (RefusedLeaves reportingGateway reportingHashing ⟨∅, 0⟩) (reportingCalls.take 2) := by
  refine (tree_coherence_iff reportingGateway reportingHashing ⟨∅, 0⟩ (reportingCalls.take 2)
    (backfilled_empty _)).2 ⟨coherent_empty, ?_⟩
  have hnil : Throughout (MintsApartAt reportingGateway reportingHashing ⟨∅, 0⟩) [] := by
    intro past call future heq
    simp at heq
  refine (hnil.snoc (e := .createPolicyDraft alice "Gifts Management" [⟨"Reporting", []⟩] none []) ?_).snoc
    (e := .proposePolicy alice giftsId) ?_
  · intro _ r hr parent hparent
    have hminted : minted reportingHashing reportingGateway.scan (graphAfter reportingGateway reportingHashing ⟨∅, 0⟩ [])
        (.createPolicyDraft alice "Gifts Management" [⟨"Reporting", []⟩] none []) =
        [supportedBy giftsId "std_reporting_06c00f"] := by decide +kernel
    rw [hminted, List.mem_singleton] at hr hparent
    rcases hparent with hshow | heq
    · exact absurd hshow not_shows_empty
    · rw [hr] at heq ⊢
      exact congrArg EdgeRecord.sourceId heq
  · intro _ r hr
    cases hr

end PolicySystem.PolicyLifecycle
