import PolicySystem.Gateway.BatchApply
import PolicySystem.Gateway.GraphWriteGateway
import PolicySystem.Gateway.ReplaceExact

/-!
# Applying again what is partly applied

* `Lags`: content some queries ahead of its marker: the first pending run makes up for them;
* `Redoable`, `Partway`: a leg's entries, and what any number of broken-off passes over them may leave;
* `redo`: **a pass over the entries from any such content leaves what one pass over the start leaves**;
* `effective_redoable`: the effective primitives of a leg are so.
-/

open Std (ExtTreeMap)

namespace PolicySystem

open PropertyGraph GraphWrite

/-! ## Behind the marker -/

/-- **The content lags**: applying the first pending run leaves what it leaves over the content at the marker.
With nothing pending the content is that content. -/
def Lags (atMarker : Graph) (pending : List Positioned) (g : Graph) : Prop :=
  match runs pending with
  | [] => g = atMarker
  | run :: _ => applyAll g (run.map Prod.snd) = applyAll atMarker (run.map Prod.snd)

theorem lags_refl (g : Graph) (pending : List Positioned) : Lags g pending g := by
  unfold Lags
  split <;> rfl

theorem lags_nil {atMarker g : Graph} : Lags atMarker [] g ↔ g = atMarker := Iff.rfl

variable {atMarker g : Graph} {pending run : List Positioned} {rest : List (List Positioned)} {batchSize : ℕ}

theorem isRun_of_runs (hruns : runs pending = run :: rest) : IsRun (run.map Prod.snd) :=
  mem_runs (by rw [hruns]; exact List.mem_cons_self)

/-- Queries of the first pending run keep the content lagging. -/
theorem lags_chunks (hb : 1 ≤ batchSize) (hruns : runs pending = run :: rest) (h : Lags atMarker pending g)
    {done : List (List Positioned)} (hdone : done <+: chunksOf run batchSize) :
    Lags atMarker pending (done.foldl (fun g chunk => applyChunk g (chunk.map Prod.snd)) g) := by
  unfold Lags at h ⊢
  rw [hruns] at h ⊢
  exact (rerun hb (isRun_of_runs hruns) hdone g).trans h

/-- The whole first run brings the content to where the run ends. -/
theorem lags_run (hb : 1 ≤ batchSize) (hruns : runs pending = run :: rest) (h : Lags atMarker pending g) :
    applyRun batchSize g run = applyAll atMarker (run.map Prod.snd) := by
  unfold Lags at h
  rw [hruns] at h
  exact (applyRun_eq hb (isRun_of_runs hruns) g).trans h

/-! ## Passes over a leg -/

/-- A list that may be applied over and over: stamps that give each pair the identity of its legacy edge, then
grounded primitives without a stamp. -/
structure Redoable (g : Graph) (stamps : List EdgeBase) (rest : List Primitive) : Prop where
  legacy : ∀ e ∈ stamps, e.unidentifiedKey.stamped = e
  stampFree : ∀ p ∈ rest, isStamp p = false
  grounded : Grounded (applyAll g (stamps.map .stampEdgeIdentity)) (writesOf rest)

/-- What broken-off passes leave: some of the stamps, or all of them and some of the rest. -/
def Partway (g : Graph) (stamps : List EdgeBase) (rest : List Primitive) (c : Graph) : Prop :=
  (∃ some : List EdgeBase, (∀ e ∈ some, e ∈ stamps) ∧ c = applyAll g (some.map .stampEdgeIdentity)) ∨
    ∃ some : List Primitive, (∀ p ∈ some, p ∈ rest) ∧ c = applyAll (applyAll g (stamps.map .stampEdgeIdentity)) some

section Passes

variable {g : Graph} {stamps : List EdgeBase} {rest : List Primitive} {c : Graph}

theorem partway_refl : Partway g stamps rest g := .inl ⟨[], by simp, rfl⟩

theorem partway_post : Partway g stamps rest (applyAll g (stamps.map .stampEdgeIdentity ++ rest)) :=
  .inr ⟨rest, fun _ h => h, applyAll_append _ _ _⟩

theorem applyAll_stamps_nodes (es : List EdgeBase) (g : Graph) :
    (applyAll g (es.map .stampEdgeIdentity)).nodes = g.nodes :=
  applyAll_edgeOnly_nodes (fun p hp => by obtain ⟨e, -, rfl⟩ := List.mem_map.1 hp; exact .inl ⟨e, rfl⟩) g

/-- Stamps of one identity a pair do what their set does, in whatever order and however often. -/
theorem applyAll_stamps_congr {es fs : List EdgeBase} (hfs : OnePerPair fs) (h : ∀ e, e ∈ es ↔ e ∈ fs) (g : Graph) :
    applyAll g (es.map .stampEdgeIdentity) = applyAll g (fs.map .stampEdgeIdentity) := by
  refine ext_at (fun n => by rw [applyAll_stamps_nodes, applyAll_stamps_nodes]) fun k => ?_
  have hes : OnePerPair es := fun e he f hf => hfs e ((h e).1 he) f ((h f).1 hf)
  rw [applyAll_stamps_edgesAt hes, applyAll_stamps_edgesAt hfs]
  simp only [h]

theorem applyAll_stamps_done (g : Graph) (stamps : List EdgeBase) (ps : List Primitive) {es : List EdgeBase}
    (hes : ∀ e ∈ es, e ∈ stamps) :
    applyAll (applyAll (applyAll g (stamps.map .stampEdgeIdentity)) ps) (es.map .stampEdgeIdentity) =
      applyAll (applyAll g (stamps.map .stampEdgeIdentity)) ps := by
  refine applyAll_stamps_noop (fun p hp => ?_) fun e he => ?_
  · obtain ⟨e, -, rfl⟩ := List.mem_map.1 hp; rfl
  · obtain ⟨f, hf, hfe⟩ := List.mem_map.1 he
    cases hfe
    exact applyAll_unidentified rfl (applyAll_clears (List.mem_map_of_mem (hes _ hf)) g) ps

/-- **Redoing.** A pass from wherever broken-off passes left the content leaves what one pass leaves. -/
theorem redo (h : Redoable g stamps rest) (hc : Partway g stamps rest c) :
    applyAll c (stamps.map .stampEdgeIdentity ++ rest) = applyAll g (stamps.map .stampEdgeIdentity ++ rest) := by
  rw [applyAll_append, applyAll_append]
  rcases hc with ⟨some, hsome, rfl⟩ | ⟨some, hsome, rfl⟩
  · -- Some of the stamps are done: all of them once more are all of them once.
    have hsame : ∀ e, e ∈ some ++ stamps ↔ e ∈ stamps := by
      intro e
      simpa using hsome e
    have hstamps := applyAll_stamps_congr (onePerPair_of_legacy h.legacy) hsame g
    rw [List.map_append, applyAll_append] at hstamps
    rw [hstamps]
  · rw [applyAll_stamps_done g stamps some fun _ he => he,
      applyAll_eq_writeAll (fun p hp => h.stampFree p (hsome p hp)), applyAll_eq_writeAll h.stampFree,
      applyAll_eq_writeAll h.stampFree]
    refine reapply (writesOf_overwriting _) (fun w hw => ?_) h.grounded
    obtain ⟨p, hp, hpw⟩ := mem_writesOf.1 hw
    exact mem_writesOf.2 ⟨p, hsome p hp, hpw⟩

/-- The content in a pass: what a broken-off pass may leave, with the stamps of the entries done. -/
def InPass (g : Graph) (stamps : List EdgeBase) (rest done : List Primitive) (c : Graph) : Prop :=
  (∃ some : List EdgeBase, (∀ e ∈ some, e ∈ stamps) ∧ (∀ e, .stampEdgeIdentity e ∈ done → e ∈ some) ∧
      c = applyAll g (some.map .stampEdgeIdentity)) ∨
    ∃ some : List Primitive, (∀ p ∈ some, p ∈ rest) ∧ c = applyAll (applyAll g (stamps.map .stampEdgeIdentity)) some

theorem InPass.partway {done : List Primitive} (h : InPass g stamps rest done c) : Partway g stamps rest c := by
  rcases h with ⟨some, h1, -, h2⟩ | h
  · exact .inl ⟨some, h1, h2⟩
  · exact .inr h

theorem Partway.inPass (h : Partway g stamps rest c) : InPass g stamps rest [] c := by
  rcases h with ⟨some, h1, h2⟩ | h
  · exact .inl ⟨some, h1, by simp, h2⟩
  · exact .inr h

/-- One more query of a pass: of stamps, or of the rest once all stamps are done. -/
theorem InPass.query (hr : Redoable g stamps rest) {done : List Primitive} (h : InPass g stamps rest done c)
    {chunk : List Primitive}
    (hchunk : (∃ es : List EdgeBase, (∀ e ∈ es, e ∈ stamps) ∧ chunk = es.map .stampEdgeIdentity) ∨
      (∀ p ∈ chunk, p ∈ rest) ∧ ∀ e ∈ stamps, .stampEdgeIdentity e ∈ done) :
    InPass g stamps rest (done ++ chunk) (applyAll c chunk) := by
  rcases hchunk with ⟨es, hes, rfl⟩ | ⟨hrest, hall⟩
  · rcases h with ⟨some, h1, h2, rfl⟩ | ⟨some, h1, rfl⟩
    · refine .inl ⟨some ++ es, fun e he => ?_, fun e he => ?_, by rw [List.map_append, applyAll_append]⟩
      · rcases List.mem_append.1 he with he | he
        · exact h1 e he
        · exact hes e he
      · rcases List.mem_append.1 he with he | he
        · exact List.mem_append_left _ (h2 e he)
        · obtain ⟨f, hf, hfe⟩ := List.mem_map.1 he
          cases hfe
          exact List.mem_append_right _ hf
    · exact .inr ⟨some, h1, applyAll_stamps_done g stamps some hes⟩
  · rcases h with ⟨some, h1, h2, rfl⟩ | ⟨some, h1, rfl⟩
    · have hsame : applyAll g (some.map .stampEdgeIdentity) = applyAll g (stamps.map .stampEdgeIdentity) :=
        applyAll_stamps_congr (onePerPair_of_legacy hr.legacy) (fun e => ⟨h1 e, fun he => h2 e (hall e he)⟩) g
      exact .inr ⟨chunk, hrest, by rw [hsame]⟩
    · refine .inr ⟨some ++ chunk, fun p hp => ?_, (applyAll_append _ _ _).symm⟩
      rcases List.mem_append.1 hp with hp | hp
      · exact h1 p hp
      · exact hrest p hp

end Passes

/-! ## The walk of the filter -/

section Walk

variable {o o' : Overlay} {index : ℕ} {changed : Bool} {p : Primitive}

/-- A node the overlay shows after a primitive was there before, or the primitive created it. -/
theorem apply_nodes (h : o.apply index p = .ok (changed, o')) {n : NodeRef} (hn : n ∈ o'.nodes) :
    n ∈ o.nodes ∨ changed = true ∧ ∃ f, p.toWrite = some (.put n f) := by
  have hset : ∀ (m : NodeRef) (v : NodeContent), n ∈ o.nodes.insert m v → n ∈ o.nodes ∨ m = n := by
    intro m v hin
    rw [ExtTreeMap.mem_insert, Std.LawfulEqCmp.compare_eq_iff_eq] at hin
    exact hin.symm
  have hmem : ∀ (m : NodeRef) (v : NodeContent), o.nodes[m]? = some v → m = n → n ∈ o.nodes := by
    intro m v hv hmn
    subst hmn
    exact ExtTreeMap.mem_iff_isSome_getElem?.2 (by rw [hv]; rfl)
  cases p with
  | upsertNode m props e =>
    by_cases hmn : m = n
    · subst hmn
      cases changed with
      | true => exact .inr ⟨rfl, _, rfl⟩
      | false =>
        -- an unchanged node stands as it was
        simp only [Overlay.apply] at h
        split at h
        · split at h
          · cases h; exact .inl hn
          · cases h
        · cases h
    · simp only [Overlay.apply] at h
      split at h
      · split at h
        · cases h; exact .inl hn
        · cases h; exact .inl ((hset _ _ hn).resolve_right hmn)
      · cases h; exact .inl ((hset _ _ hn).resolve_right hmn)
  | mergeProperty m props =>
    simp only [Overlay.apply] at h
    split at h
    · cases h
    · rename_i v hv
      split at h
      · cases h; exact .inl hn
      · cases h; exact .inl ((hset _ _ hn).elim id (hmem m v hv))
  | removeProperty m keys =>
    simp only [Overlay.apply] at h
    split at h
    · cases h; exact .inl hn
    · rename_i v hv
      split at h
      · cases h; exact .inl ((hset _ _ hn).elim id (hmem m v hv))
      · cases h; exact .inl hn
  | deleteNode m =>
    simp only [Overlay.apply] at h
    split at h
    · cases h; exact .inl (ExtTreeMap.mem_erase.1 hn).2
    · cases h; exact .inl hn
  | upsertEdge e props =>
    simp only [Overlay.apply] at h
    split at h
    · split at h
      · split at h <;> cases h <;> exact .inl hn
      · cases h; exact .inl hn
    · cases h
  | deleteEdge e =>
    simp only [Overlay.apply] at h
    split at h <;> cases h <;> exact .inl hn
  | stampEdgeIdentity e =>
    simp only [Overlay.apply] at h
    split at h <;> cases h <;> exact .inl hn

/-- A selected primitive finds the nodes it needs. -/
theorem apply_needs (h : o.apply index p = .ok (true, o')) {w : GraphWrite NodeRef NodeContent EdgeKey PropertyMap}
    (hw : p.toWrite = some w) {n : NodeRef} (hn : Needs w n) : n ∈ o.nodes := by
  have hmem : ∀ (m : NodeRef) (v : NodeContent), o.nodes[m]? = some v → m ∈ o.nodes := by
    intro m v hv
    exact ExtTreeMap.mem_iff_isSome_getElem?.2 (by rw [hv]; rfl)
  cases p with
  | mergeProperty m props =>
    cases hw
    obtain ⟨rfl, -⟩ := hn
    simp only [Overlay.apply] at h
    split at h
    · cases h
    · rename_i v hv; exact hmem m v hv
  | removeProperty m keys =>
    cases hw
    obtain ⟨rfl, -⟩ := hn
    simp only [Overlay.apply] at h
    split at h
    · cases h
    · rename_i v hv; exact hmem m v hv
  | upsertEdge e props =>
    cases hw
    simp only [Overlay.apply] at h
    split at h
    · rename_i hends
      rcases hn with rfl | rfl
      · exact hends.1
      · exact hends.2
    · cases h
  | upsertNode m props e => cases hw; exact hn.elim
  | deleteNode m => cases hw; exact hn.elim
  | deleteEdge e => cases hw; exact hn.elim
  | stampEdgeIdentity e => cases hw

/-- No primitive makes an identity-less edge. -/
theorem apply_unidentified (h : o.apply index p = .ok (changed, o')) {k : EdgeKey} (hk : k.identity = none)
    (hnone : o.edges[k]? = none) : o'.edges[k]? = none := by
  have hset : ∀ (e : EdgeBase) (v : PropertyMap) (edges : ExtTreeMap EdgeKey PropertyMap), edges[k]? = none →
      (edges.insert e.edgeKey v)[k]? = none := by
    intro e v edges hedges
    rw [getElem?_insert_self', if_neg, hedges]
    rintro rfl
    cases hk
  have herase : ∀ k', (o.edges.erase k')[k]? = none := by
    intro k'
    rw [ExtTreeMap.getElem?_erase, hnone, ite_self]
  cases p with
  | upsertNode m props e =>
    simp only [Overlay.apply] at h
    split at h
    · split at h <;> cases h <;> exact hnone
    · cases h; exact hnone
  | mergeProperty m props =>
    simp only [Overlay.apply] at h
    split at h
    · cases h
    · split at h <;> cases h <;> exact hnone
  | removeProperty m keys =>
    simp only [Overlay.apply] at h
    split at h
    · cases h; exact hnone
    · split at h <;> cases h <;> exact hnone
  | deleteNode m =>
    simp only [Overlay.apply] at h
    split at h
    · cases h
      rw [getElem?_deleteNode_edges, hnone, ite_self]
    · cases h; exact hnone
  | upsertEdge e props =>
    simp only [Overlay.apply] at h
    split at h
    · split at h
      · split at h
        · cases h; exact hnone
        · cases h; exact hset _ _ _ hnone
      · cases h; exact hset _ _ _ hnone
    · cases h
  | deleteEdge e =>
    simp only [Overlay.apply] at h
    split at h <;> cases h
    · exact herase _
    · exact hnone
  | stampEdgeIdentity e =>
    simp only [Overlay.apply] at h
    split at h <;> cases h
    · exact hnone
    · dsimp only
      split
      · exact herase _
      · exact hset _ _ _ (herase _)

/-- A stamp leaves no identity-less edge on its pair. -/
theorem apply_stamp_clears {e : EdgeBase} (h : o.apply index (.stampEdgeIdentity e) = .ok (changed, o')) :
    o'.edges[e.unidentifiedKey]? = none := by
  simp only [Overlay.apply] at h
  split at h <;> cases h
  · assumption
  · dsimp only
    have herase : (o.edges.erase e.unidentifiedKey)[e.unidentifiedKey]? = none := by simp
    split
    · exact herase
    · rw [getElem?_insert_self', if_neg (e.unidentifiedKey_ne_edgeKey e).symm, herase]

/-- A stamp whose pair holds nothing to stamp is dropped. -/
theorem apply_stamp_dropped {e : EdgeBase} (h : o.apply index (.stampEdgeIdentity e) = .ok (changed, o'))
    (hnone : o.edges[e.unidentifiedKey]? = none) : changed = false := by
  simp only [Overlay.apply, hnone] at h
  cases h; rfl

end Walk

/-- What a selected primitive needs was there, or a primitive selected before it creates it. -/
theorem selectFrom_needs {o : Overlay} {index : ℕ} {ps selected : List Primitive}
    (h : selectFrom o index ps = .ok selected) {E₁ E₂ : List (GraphWrite NodeRef NodeContent EdgeKey PropertyMap)} {w}
    (hw : writesOf selected = E₁ ++ w :: E₂) {n : NodeRef} (hn : Needs w n) : n ∈ o.nodes ∨ Creates E₁ n := by
  induction ps generalizing o index selected E₁ with
  | nil => cases h; simp [writesOf] at hw
  | cons p ps ih =>
    obtain ⟨changed, o', rest, happly, hrest, rfl⟩ := selectFrom_cons h
    cases changed with
    | false =>
      rcases ih hrest hw with hin | hc
      · exact (apply_nodes happly hin).imp id fun hc => absurd hc.1 Bool.false_ne_true
      · exact .inr hc
    | true =>
      rw [if_pos rfl, writesOf] at hw
      cases hp : p.toWrite with
      | none =>
        rw [List.filterMap_cons_none hp] at hw
        rcases ih hrest hw with hin | hc
        · refine (apply_nodes happly hin).imp id ?_
          rintro ⟨-, f, hf⟩
          rw [hp] at hf; cases hf
        · exact .inr hc
      | some v =>
        rw [List.filterMap_cons_some hp] at hw
        cases E₁ with
        | nil =>
          obtain ⟨rfl, -⟩ := List.cons_eq_cons.1 hw
          exact .inl (apply_needs happly hp hn)
        | cons v' E₁ =>
          obtain ⟨rfl, htail⟩ := List.cons_eq_cons.1 (hw.trans (List.cons_append ..))
          rcases ih hrest htail with hin | ⟨f, hf⟩
          · rcases apply_nodes happly hin with hin | ⟨-, f, hf⟩
            · exact .inl hin
            · rw [hp] at hf
              cases hf
              exact .inr ⟨f, List.mem_cons_self⟩
          · exact .inr ⟨f, List.mem_cons_of_mem _ hf⟩

/-- After some primitives no identity-less edge is left on a pair that held none or that they stamp. -/
theorem selectFrom_append {o : Overlay} {index : ℕ} {ps qs selected : List Primitive}
    (h : selectFrom o index (ps ++ qs) = .ok selected) :
    ∃ first rest o' index', selected = first ++ rest ∧ first.Sublist ps ∧ selectFrom o' index' qs = .ok rest ∧
      ∀ k : EdgeKey, k.identity = none →
        o.edges[k]? = none ∨ (∃ e, .stampEdgeIdentity e ∈ ps ∧ e.unidentifiedKey = k) → o'.edges[k]? = none := by
  induction ps generalizing o index selected with
  | nil => exact ⟨[], selected, o, index, rfl, List.Sublist.refl _, h, fun k _ hk => hk.resolve_right (by simp)⟩
  | cons p ps ih =>
    obtain ⟨changed, o₁, tail, happly, htail, rfl⟩ := selectFrom_cons h
    obtain ⟨first, rest, o', index', rfl, hsub, hrest, hclear⟩ := ih htail
    have hclear' : ∀ k : EdgeKey, k.identity = none →
        o.edges[k]? = none ∨ (∃ e, .stampEdgeIdentity e ∈ p :: ps ∧ e.unidentifiedKey = k) → o'.edges[k]? = none := by
      intro k hk hor
      refine hclear k hk ?_
      rcases hor with hnone | ⟨e, he, rfl⟩
      · exact .inl (apply_unidentified happly hk hnone)
      · rcases List.mem_cons.1 he with rfl | he
        · exact .inl (apply_stamp_clears happly)
        · exact .inr ⟨e, he, rfl⟩
    cases changed with
    | true => exact ⟨p :: first, rest, o', index', rfl, hsub.cons_cons p, hrest, hclear'⟩
    | false => exact ⟨first, rest, o', index', rfl, hsub.cons p, hrest, hclear'⟩

/-- Where no stamp of the walk finds anything to stamp, none is selected. -/
theorem selectFrom_stampFree {o : Overlay} {index : ℕ} {ps selected : List Primitive}
    (h : selectFrom o index ps = .ok selected)
    (hnone : ∀ e, .stampEdgeIdentity e ∈ ps → o.edges[e.unidentifiedKey]? = none) :
    ∀ p ∈ selected, isStamp p = false := by
  induction ps generalizing o index selected with
  | nil => cases h; simp
  | cons p ps ih =>
    obtain ⟨changed, o', rest, happly, hrest, rfl⟩ := selectFrom_cons h
    have hih := ih hrest fun e he => apply_unidentified happly rfl (hnone e (List.mem_cons_of_mem _ he))
    cases changed with
    | false => exact hih
    | true =>
      intro q hq
      rcases List.mem_cons.1 hq with rfl | hq
      · cases q with
        | stampEdgeIdentity e => exact absurd (apply_stamp_dropped happly (hnone e (by simp))) (by decide)
        | _ => rfl
      · exact hih q hq

/-! ## The entries of a leg -/

theorem readOverlay_mem {scan : ScanOrder} {g : Graph} {group : List Primitive} {n : NodeRef}
    (h : n ∈ (readOverlay scan g group).nodes) : n ∈ g.nodes := by
  simp only [readOverlay, readNodes, readExistingNodes, ExtTreeMap.mem_iff_isSome_getElem?, ExtTreeMap.getElem?_union,
    ExtTreeMap.getElem?_map, ExtTreeMap.getElem?_filter'] at h ⊢
  cases hv : g.nodes[n]? with
  | none => rw [hv] at h; simp at h
  | some v => rfl

theorem stamped_unidentified {k : EdgeKey} (h : k.identity = none) : k.stamped.unidentifiedKey = k := by
  cases k; cases h; rfl

/-- The scan names every identity-less edge the gateway may name. -/
theorem mem_scanUnidentifiedEdges {allow : AllowList} {scan : ScanOrder} {g : Graph} {e : EdgeBase} :
    e ∈ scanUnidentifiedEdges allow scan g ↔ e.unidentifiedKey.stamped = e ∧ g.edgesAt e.unidentifiedKey ≠ 0 ∧
      (Primitive.stampEdgeIdentity e).isAllowed allow = true := by
  unfold scanUnidentifiedEdges
  simp only [List.mem_eraseDups, List.mem_map, List.mem_filter, mem_order, Primitive.isAllowed, decide_eq_true_eq]
  constructor
  · rintro ⟨⟨k, p⟩, ⟨hin, hk, ht, hs, hd⟩, rfl⟩
    have hkey := stamped_unidentified hk
    have hat : g.edgesAt k ≠ 0 := by
      intro h0
      have := mem_edgesAt.2 hin
      rw [h0] at this
      simp at this
    cases k
    cases hk
    exact ⟨rfl, hat, hs, hd, ht⟩
  · rintro ⟨hstamp, hat, hs, hd, ht⟩
    obtain ⟨p, hp⟩ := Multiset.exists_mem_of_ne_zero hat
    exact ⟨(e.unidentifiedKey, p), ⟨mem_edgesAt.1 hp, rfl, ht, hs, hd⟩, hstamp⟩

/-- **The effective primitives of a leg may be applied over and over.** -/
theorem effective_redoable {allow : AllowList} {scan scan' : ScanOrder} {g : Graph} {group effective : List Primitive}
    {replace : Bool} (hallow : ∀ p ∈ group, p.isAllowed allow = true) (hups : replace = true → UpsertOnly group)
    (hsel : selectEffectivePrimitives scan' g (expandLeg allow scan g group replace) = .ok effective) :
    ∃ stamps rest, effective = stamps.map .stampEdgeIdentity ++ rest ∧ Redoable g stamps rest := by
  -- the stamps come first, each the legacy stamp of its pair, and no stamp after them finds anything
  have hsplit : ∃ (stamps : List EdgeBase) (others : List Primitive),
      expandLeg allow scan g group replace = stamps.map .stampEdgeIdentity ++ others ∧
      (∀ e ∈ stamps, e.unidentifiedKey.stamped = e) ∧
      ∀ e, .stampEdgeIdentity e ∈ others → g.edgesAt e.unidentifiedKey = 0 ∨
        ∃ f ∈ stamps, f.unidentifiedKey = e.unidentifiedKey := by
    cases replace with
    | true =>
      refine ⟨stampedLive (readGraphShape scan g) group, (deletedLive (readGraphShape scan g) group).map .deleteEdge ++
        ((droppedNodes (readGraphShape scan g) group).map .deleteNode ++ group), ?_, fun e he => ?_, fun e he => ?_⟩
      · simp [expandLeg, replacement]
      · exact (mem_stampedLive.1 he).1
      · rcases List.mem_append.1 he with he | he
        · simp at he
        · rcases List.mem_append.1 he with he | he
          · simp at he
          · rcases hups rfl _ he with ⟨n, props, emb, h⟩ | ⟨f, props, h⟩ <;> cases h
    | false =>
      refine ⟨scanUnidentifiedEdges allow scan g, group, rfl, fun e he => (mem_scanUnidentifiedEdges.1 he).1, ?_⟩
      intro e he
      by_cases h0 : g.edgesAt e.unidentifiedKey = 0
      · exact .inl h0
      · refine .inr ⟨e.unidentifiedKey.stamped, mem_scanUnidentifiedEdges.2 ⟨rfl, h0, ?_⟩, rfl⟩
        have he' := hallow _ he
        simp only [Primitive.isAllowed, decide_eq_true_eq] at he' ⊢
        exact he'
  obtain ⟨stamps, others, hgroup, hlegacy, hothers⟩ := hsplit
  rw [hgroup, selectEffectivePrimitives] at hsel
  obtain ⟨first, rest, o', index', rfl, hsub, hrest, hclear⟩ := selectFrom_append hsel
  obtain ⟨selected, hselected, rfl⟩ := List.sublist_map_iff.1 hsub
  refine ⟨selected, rest, rfl, fun e he => hlegacy e (hselected.subset he), ?_, ?_⟩
  · refine selectFrom_stampFree hrest fun e he => hclear _ rfl ?_
    rcases hothers e he with h0 | ⟨f, hf, hfe⟩
    · left
      rw [readOverlay_edges scan' g _ (mem_named_stamp (List.mem_append_right _ he)), lastScanned_eq_none]
      exact h0
    · exact .inr ⟨f, List.mem_map_of_mem hf, hfe⟩
  · intro E₁ w E₂ hw n hn
    have hwrites : writesOf (selected.map .stampEdgeIdentity ++ rest) = writesOf rest := by
      unfold writesOf
      rw [List.filterMap_append, List.filterMap_eq_nil_iff.2, List.nil_append]
      intro p hp
      obtain ⟨e, -, rfl⟩ := List.mem_map.1 hp
      rfl
    rcases selectFrom_needs hsel (hwrites.trans hw) hn with hin | hc
    · left
      rw [applyAll_stamps_nodes]
      exact readOverlay_mem hin
    · exact .inr (.inl hc)

end PolicySystem
