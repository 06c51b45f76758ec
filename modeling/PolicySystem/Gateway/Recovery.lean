import PolicySystem.Gateway.Reachable
import PolicySystem.Gateway.Rebuilding

/-!
# Recovery from the loss of a graph

What the gateway logs can be replayed, so a start of the service gets a lost graph back.

* `selected_met`: a group that passed the filter finds the nodes it needs;
* `Recoverable`: every log is met from its start, and every checkpoint holds the digest of the fold up to it;
* `recoverable_run`: **every run keeps it**;
* `lost_graph_recovers`: **a graph that is lost in any world of any run comes back as its log has it.**
-/

namespace PolicySystem

open Faults Proc PropertyGraph GraphWrite

/-! ## What the filter lets through -/

/-- A step of the walk keeps the overlay's nodes among those of the graph. -/
theorem apply_shown {o o' : Overlay} {g : Graph} {index : ℕ} {p : Primitive} {w}
    (h : o.apply index p = .ok (true, o')) (hp : p.toWrite = some w) (ho : ∀ n ∈ o.nodes, n ∈ g.nodes) :
    ∀ n ∈ o'.nodes, n ∈ (g.write w).nodes := by
  intro n hn
  have hone : g.write w = g.writeAll [w] := rfl
  rw [hone]
  by_cases hdrop : GraphWrite.drop n ∈ [w]
  · -- a deleted node is not in the overlay
    rw [List.mem_singleton] at hdrop
    subst hdrop
    cases p with
    | deleteNode m =>
      cases hp
      simp only [Overlay.apply] at h
      split at h
      · cases h
        exact absurd hn (by simp [Overlay.deleteNode])
      · cases h
    | _ => cases hp
  · rcases apply_nodes h hn with hin | ⟨-, f, hf⟩
    · exact mem_writeAll_of_mem hdrop (ho n hin)
    · rw [hp] at hf
      cases hf
      rw [mem_writeAll]
      simp [nodeStep]

/-- **A group that passed the filter finds the nodes it needs**, each primitive at its turn. -/
theorem selectFrom_met {o : Overlay} {g : Graph} {index : ℕ} {ps selected : List Primitive}
    (h : selectFrom o index ps = .ok selected) (ho : ∀ n ∈ o.nodes, n ∈ g.nodes) : NeedsMet g (writesOf selected) := by
  induction ps generalizing o g index selected with
  | nil =>
    cases h
    exact needsMet_nil
  | cons p ps ih =>
    obtain ⟨changed, o', rest, happly, hrest, rfl⟩ := selectFrom_cons h
    cases changed with
    | false =>
      refine ih hrest fun n hn => ?_
      exact ho n ((apply_nodes happly hn).resolve_right fun hc => Bool.false_ne_true hc.1)
    | true =>
      rw [if_pos rfl, writesOf]
      cases hp : p.toWrite with
      | none =>
        rw [List.filterMap_cons_none hp]
        refine ih hrest fun n hn => ho n ((apply_nodes happly hn).resolve_right ?_)
        rintro ⟨-, f, hf⟩
        rw [hp] at hf
        cases hf
      | some w =>
        rw [List.filterMap_cons_some hp, needsMet_cons]
        refine ⟨fun n hn => ho n (apply_needs happly hp hn), ?_⟩
        exact ih hrest (apply_shown happly hp ho)

theorem selected_met {scan : ScanOrder} {g : Graph} {group effective : List Primitive}
    (h : selectEffectivePrimitives scan g group = .ok effective) : NeedsMet g (writesOf effective) :=
  selectFrom_met h fun _ => readOverlay_mem

/-! ## What records no checkpoint -/

section Checkpoints

variable (gw : GraphWriteGateway) {α : Type} (g : String)

/-- The program leaves the checkpoints as they were. -/
abbrev NoCheckpoint (p : Gw α) : Prop := Preserves World.checkpoints p

theorem noCheckpoint_logRead (read : World → α) : NoCheckpoint (logRead read) :=
  preserves_call fun fate w => by cases fate <;> rfl

theorem noCheckpoint_graphRead (read : World → α) : NoCheckpoint (graphRead read) :=
  preserves_call fun fate w => by cases fate <;> rfl

theorem noCheckpoint_logWrite {write : World → Option (α × World)}
    (h : ∀ w a w', write w = some (a, w') → w'.checkpoints = w.checkpoints) : NoCheckpoint (logWrite write) := by
  refine preserves_call fun fate w => ?_
  cases hw : write w with
  | none => cases fate <;> rfl
  | some r =>
    have hr := h w r.1 r.2 hw
    cases fate <;> first | rfl | exact hr

theorem noCheckpoint_graphWrite {write : World → Option World}
    (h : ∀ w w', write w = some w' → w'.checkpoints = w.checkpoints) : NoCheckpoint (graphWrite write) := by
  refine preserves_call fun fate w => ?_
  cases hw : write w with
  | none => cases fate <;> rfl
  | some w' =>
    have hw' := h w w' hw
    cases fate <;> first | rfl | exact hw'

theorem noCheckpoint_guardCall {operation : Gw α} (h : NoCheckpoint operation) :
    NoCheckpoint (guardCall gw g operation) := by
  refine preserves_handle (preserves_retry h _) fun e => ?_
  split
  · exact preserves_raise _
  · exact preserves_raise _
  · exact preserves_raise _

theorem noCheckpoint_advance (position : ℕ) : NoCheckpoint (advanceAppliedPosition g position) := by
  refine noCheckpoint_logWrite fun w a w' hw => ?_
  split at hw
  · cases hw
  · cases hw
    rfl

theorem noCheckpoint_decodeEntries (rows : List LogRow) : NoCheckpoint (decodeEntries rows) := by
  induction rows with
  | nil => exact preserves_pure _
  | cons row rows ih =>
    unfold decodeEntries
    split
    · exact preserves_raise _
    · exact preserves_bind ih fun _ => preserves_pure _

theorem noCheckpoint_applyDecoded {query : Query → Gw Unit} {onRunApplied : ℕ → Gw Unit}
    (hquery : ∀ q, NoCheckpoint (query q)) (hrun : ∀ n, NoCheckpoint (onRunApplied n)) (batchSize : ℕ)
    (decoded : List Positioned) : NoCheckpoint (applyDecoded query onRunApplied batchSize decoded) := by
  refine preserves_forM fun run _ => preserves_bind (preserves_forM fun chunk _ => ?_) fun _ => ?_
  · split
    · exact preserves_pure _
    · exact hquery _
  · split
    · exact hrun _
    · exact preserves_pure _

theorem noCheckpoint_applyEntries {query : Query → Gw Unit} {onRunApplied : ℕ → Gw Unit}
    (hquery : ∀ q, NoCheckpoint (query q)) (hrun : ∀ n, NoCheckpoint (onRunApplied n)) (rows : List LogRow) :
    NoCheckpoint (applyEntries gw query rows onRunApplied) := by
  refine preserves_bind (noCheckpoint_decodeEntries rows) fun decoded => preserves_bind ?_ fun _ => ?_
  · unfold ensureIndexes
    split
    · exact preserves_pure _
    · exact noCheckpoint_graphRead _
  · exact noCheckpoint_applyDecoded hquery hrun _ _

theorem noCheckpoint_queryLive (q : Query) : NoCheckpoint (queryLive g q) :=
  noCheckpoint_graphWrite fun _ _ hw => by cases hw; rfl

theorem noCheckpoint_process {f : World → World} (h : ∀ w, (f w).checkpoints = w.checkpoints) :
    NoCheckpoint (modify f : Gw Unit) := preserves_modify h

theorem noCheckpoint_applyPending (before : Option ℕ) : NoCheckpoint (applyPending gw g before) := by
  refine preserves_bind (preserves_handle (noCheckpoint_guardCall gw g ?_) fun e => ?_) fun _ => ?_
  · refine preserves_bind (noCheckpoint_logRead _) fun applied => preserves_bind (noCheckpoint_logRead _) fun rows => ?_
    exact noCheckpoint_applyEntries gw (noCheckpoint_queryLive g) (noCheckpoint_advance g) _
  · split
    · exact preserves_bind (noCheckpoint_process fun _ => rfl) fun _ => preserves_raise _
    · exact preserves_raise _
  · exact noCheckpoint_process fun _ => rfl

/-! ### Staging -/

theorem noCheckpoint_catchUpBeforeWrite : NoCheckpoint (catchUpBeforeWrite gw g) := by
  refine preserves_bind (noCheckpoint_guardCall gw g ?_) fun lagging => ?_
  · exact preserves_bind (noCheckpoint_logRead _) fun _ =>
      preserves_bind (noCheckpoint_logRead _) fun _ => preserves_pure _
  · split
    · refine preserves_bind ?_ fun _ => preserves_handle (noCheckpoint_applyPending gw g none) fun e => ?_
      · refine preserves_bind (noCheckpoint_guardCall gw g ?_) fun pending => ?_
        · exact preserves_bind (noCheckpoint_logRead _) fun _ => noCheckpoint_logRead _
        · split
          · exact preserves_bind (noCheckpoint_process fun _ => rfl) fun _ => preserves_raise _
          · exact preserves_pure _
      · dsimp only
        split
        · exact preserves_bind (noCheckpoint_process fun _ => rfl) fun _ => preserves_raise _
        · exact preserves_bind (preserves_pure _) fun _ => preserves_raise _
    · exact preserves_pure _

theorem noCheckpoint_validateGroup (primitives : List Primitive) : NoCheckpoint (validateGroup gw primitives) := by
  unfold validateGroup
  split
  · exact preserves_pure _
  · exact preserves_raise _

theorem noCheckpoint_stage (group : MutationGroup) (replace : Option Bool) :
    NoCheckpoint (stage gw group replace) := by
  unfold stage
  refine preserves_bind preserves_get fun w => preserves_unless ?_
  refine preserves_bind (noCheckpoint_catchUpBeforeWrite gw _) fun _ =>
    preserves_bind (noCheckpoint_validateGroup gw _) fun _ => preserves_bind ?_ fun _ => ?_
  · refine preserves_forM fun expected _ => preserves_bind (noCheckpoint_guardCall gw _ (noCheckpoint_logRead _))
      fun actual => ?_
    split
    · exact preserves_raise _
    · exact preserves_pure _
  · dsimp only
    split
    · refine preserves_bind (preserves_pure _) fun primitives =>
        preserves_bind (noCheckpoint_guardCall gw _ (noCheckpoint_graphRead _)) fun selected => ?_
      split
      · exact preserves_pure _
      · exact preserves_raise _
    · refine preserves_bind (preserves_bind (noCheckpoint_guardCall gw _ (noCheckpoint_graphRead _))
        fun primitives => ?_) fun primitives =>
          preserves_bind (noCheckpoint_guardCall gw _ (noCheckpoint_graphRead _)) fun selected => ?_
      · split
        · exact preserves_bind (noCheckpoint_validateGroup gw _) fun _ => preserves_pure _
        · exact preserves_pure _
      · split
        · exact preserves_pure _
        · exact preserves_raise _

theorem noCheckpoint_stageLegs (legs : List GraphLeg) : NoCheckpoint (stageLegs gw legs) := by
  induction legs with
  | nil => exact preserves_pure _
  | cons leg legs ih =>
    exact preserves_bind (noCheckpoint_stage gw _ _) fun _ => preserves_bind ih fun _ => preserves_pure _

/-! ### Applying a unit -/

theorem noCheckpoint_setStaged (w : World) (graphs : List String) (swapSet : ℕ) :
    (graphs.foldl (fun w g => w.setStaged g swapSet none) w).checkpoints = w.checkpoints := by
  induction graphs generalizing w with
  | nil => rfl
  | cons h graphs ih => exact ih _

theorem noCheckpoint_rename (w : World) (graphs : List String) (swapSet : ℕ) :
    (graphs.foldl (fun w g => w.rename swapSet g) w).checkpoints = w.checkpoints := by
  induction graphs generalizing w with
  | nil => rfl
  | cons h graphs ih =>
    rw [List.foldl_cons, ih]
    unfold World.rename
    split
    · rfl
    · rfl

theorem noCheckpoint_discard (graphs : List String) (swapSet : ℕ) : NoCheckpoint (discard graphs swapSet) := by
  refine preserves_handle (noCheckpoint_graphWrite fun w w' hw => ?_) fun e => ?_
  · cases hw
    exact noCheckpoint_setStaged w graphs swapSet
  · split
    · exact preserves_pure _
    · exact preserves_pure _
    · exact preserves_raise _

theorem noCheckpoint_stageLeg (swapSet : ℕ) (rows : List LogRow) : NoCheckpoint (stageLeg gw g swapSet rows) := by
  refine preserves_bind (noCheckpoint_guardCall gw g (noCheckpoint_graphWrite fun w w' hw => ?_)) fun _ =>
    noCheckpoint_guardCall gw g (noCheckpoint_applyEntries gw (fun q => noCheckpoint_graphWrite fun w w' hw => ?_)
      (fun _ => preserves_pure _) rows)
  · split at hw
    · cases hw
      rfl
    · cases hw
    · cases hw
      rfl
  · cases hw
    rfl

theorem noCheckpoint_flip (graphs : List String) (swapSet : ℕ) : NoCheckpoint (flip graphs swapSet) := by
  refine preserves_handle (preserves_call fun fate w => ?_) fun e => ?_
  · have hrenamed := noCheckpoint_rename w graphs swapSet
    cases fate with
    | done =>
      dsimp only
      split
      · exact hrenamed
      · exact hrenamed
    | lost => exact hrenamed
    | _ => rfl
  · split
    · exact preserves_raise _
    · exact preserves_raise _
    · exact preserves_raise _

theorem noCheckpoint_swapTries (swapSet : ℕ) (legs : List (AppendedGroup × List LogRow)) (tries : ℕ) :
    NoCheckpoint (swapTries gw swapSet legs tries) := by
  have hattempt : NoCheckpoint (swapAttempt gw swapSet legs) :=
    preserves_bind (noCheckpoint_discard _ _) fun _ => preserves_bind (noCheckpoint_graphRead _) fun _ =>
      preserves_bind (preserves_forM fun leg _ => noCheckpoint_stageLeg gw _ _ _) fun _ => noCheckpoint_flip _ _
  induction tries with
  | zero => exact preserves_raise _
  | succ tries ih =>
    refine preserves_handle hattempt fun e => preserves_bind (noCheckpoint_discard _ _) fun _ => ?_
    split
    · exact ih
    · exact preserves_raise _

theorem noCheckpoint_swapUnit (swapSet : ℕ) (legs : List AppendedGroup) : NoCheckpoint (swapUnit gw swapSet legs) := by
  have hpending : NoCheckpoint (pendingOfLegs gw legs) := by
    induction legs with
    | nil => exact preserves_pure _
    | cons leg legs ih =>
      refine preserves_bind (noCheckpoint_guardCall gw _ ?_) fun _ => preserves_bind ih fun _ => preserves_pure _
      exact preserves_bind (noCheckpoint_logRead _) fun _ => noCheckpoint_logRead _
  have hregister : ∀ graphs : List String, NoCheckpoint (graphs.forM register) := fun graphs =>
    preserves_forM fun _ _ => noCheckpoint_process fun _ => rfl
  refine preserves_handle ?_ fun e => ?_
  · refine preserves_bind (preserves_bind (preserves_bind hpending fun _ => noCheckpoint_swapTries gw _ _ _)
      fun _ => preserves_forM fun leg _ => noCheckpoint_guardCall gw _ (noCheckpoint_advance _ _)) fun _ => ?_
    exact preserves_bind (noCheckpoint_process fun _ => rfl) fun _ => preserves_pure _
  · split
    · exact preserves_bind (noCheckpoint_process fun _ => rfl) fun _ => preserves_pure _
    · exact preserves_bind (noCheckpoint_process fun _ => rfl) fun _ => preserves_raise _
    · exact preserves_bind (hregister _) fun _ => preserves_pure _
    · exact preserves_bind (hregister _) fun _ => preserves_pure _
    · exact preserves_raise _

theorem noCheckpoint_lockAll (graphs : List String) : NoCheckpoint (lockAll graphs) := by
  refine preserves_bind preserves_get fun w => ?_
  split
  · exact preserves_raise _
  · exact preserves_pure _

theorem noCheckpoint_resolveUnit : NoCheckpoint (resolveUnit gw g) := by
  refine noCheckpoint_guardCall gw g (preserves_bind (noCheckpoint_logRead _) fun applied =>
    preserves_bind (noCheckpoint_logRead _) fun pending => ?_)
  split
  · exact preserves_pure _
  · refine preserves_bind (noCheckpoint_logRead _) fun rows => preserves_bind ?_ fun legs => preserves_pure _
    induction rows with
    | nil => exact preserves_pure _
    | cons row rows ih =>
      exact preserves_bind (noCheckpoint_logRead _) fun _ => preserves_bind ih fun _ => preserves_pure _

theorem noCheckpoint_catchUpUnit (u : ApplyUnit) : NoCheckpoint (catchUpUnit gw g u) := by
  refine preserves_bind (preserves_handle ?_ fun e => ?_) fun _ => ?_
  · unfold applyUnit
    split
    · exact preserves_bind (noCheckpoint_applyPending gw _ _) fun _ => preserves_pure _
    · exact preserves_bind (preserves_forM fun _ _ => noCheckpoint_applyPending gw _ _) fun _ =>
        noCheckpoint_swapUnit gw _ _
  · split
    · exact preserves_bind (preserves_forM fun _ _ => noCheckpoint_process fun _ => rfl) fun _ => preserves_pure _
    · exact preserves_raise _
  · exact preserves_bind (noCheckpoint_logRead _) fun _ => preserves_bind (noCheckpoint_logRead _) fun _ =>
      preserves_pure _

/-- **`catch_up`** records no checkpoint. -/
theorem noCheckpoint_withUnit (attempts : ℕ) : NoCheckpoint (withUnit gw g attempts) := by
  induction attempts with
  | zero => exact preserves_bind (noCheckpoint_process fun _ => rfl) fun _ => preserves_raise _
  | succ attempts ih =>
    refine preserves_bind (noCheckpoint_resolveUnit gw g) fun u => preserves_bind (noCheckpoint_lockAll _) fun _ =>
      preserves_bind (noCheckpoint_resolveUnit gw g) fun current => ?_
    split
    · exact noCheckpoint_catchUpUnit gw g current
    · exact ih

theorem noCheckpoint_recover : NoCheckpoint (recover gw) := by
  refine preserves_bind (noCheckpoint_logRead _) fun graphs => preserves_forM fun h _ =>
    preserves_handle (preserves_bind (noCheckpoint_withUnit gw h 3) fun _ => preserves_pure _) fun e => ?_
  split
  · exact preserves_pure _
  · exact preserves_pure _
  · exact preserves_pure _
  · exact preserves_raise _

theorem noCheckpoint_reconcile : NoCheckpoint (reconcile gw) := by
  have hforget : ∀ h, NoCheckpoint (forget h) := fun h => noCheckpoint_process fun _ => rfl
  refine preserves_bind preserves_get fun w => preserves_forM fun h _ =>
    preserves_handle (preserves_bind (noCheckpoint_withUnit gw h 3) fun result => ?_) fun e => ?_
  · split
    · exact hforget h
    · exact preserves_pure _
  · split
    · exact hforget h
    · exact hforget h
    · exact preserves_pure _

end Checkpoints

/-! ## What every run keeps -/

section Invariant

variable (digest : Graph → String) (start : String → Graph)

/-- A checkpoint holds the digest of the fold of the log up to its position. -/
structure CheckpointTrue (w : World) (c : DigestCheckpoint) : Prop where
  positive : 1 ≤ c.position
  within : c.position ≤ (w.view c.graph).logged.length
  holds : c.canonicalDigest = digest (applyAll (start c.graph) ((w.view c.graph).logged.take c.position))

/-- The group of an open submission is still on its transaction, or it ended as the last of its graph or without a
trace. -/
def Submitted (w : World) (s : StagedSubmission) : Prop :=
  (∃ t ∈ w.transactions, t.draft.graph = s.appended.graph ∧
      s.appended.lastPosition = (w.view s.appended.graph).logged.length + t.draft.primitives.length) ∨
    w.isAppending s.appended.graph = false ∧ (w.view s.appended.graph).logged.length ≤ s.appended.lastPosition

/-- **What is logged can be replayed**: each entry finds the nodes it needs, also those that a transaction is still to
commit, and the checkpoints are true. -/
structure Recoverable (w : World) : Prop where
  met : ∀ g, Identified (start g) → NeedsMet (start g) (writesOf (w.view g).logged)
  drafts : ∀ t ∈ w.transactions,
    NeedsMet ((w.view t.draft.graph).atLast (start t.draft.graph)) (writesOf t.draft.primitives)
  distinct : (w.transactions.map fun t => t.draft.submission).Nodup
  checkpoints : ∀ c ∈ w.checkpoints, CheckpointTrue digest start w c
  submitted : ∀ s ∈ w.process.submissions, s.isOpen = true → 1 ≤ s.appended.lastPosition ∧ Submitted w s

variable {digest start} {w w' : World} {g : String}

theorem CheckpointTrue.grow {c : DigestCheckpoint} (h : CheckpointTrue digest start w c) {more : List Primitive}
    (hlog : (w'.view c.graph).logged = (w.view c.graph).logged ++ more) : CheckpointTrue digest start w' c where
  positive := h.positive
  within := by
    rw [hlog, List.length_append]
    have := h.within
    omega
  holds := by
    rw [hlog, List.take_append_of_le_length h.within]
    exact h.holds

theorem CheckpointTrue.same {c : DigestCheckpoint} (h : CheckpointTrue digest start w c)
    (hlog : (w'.view c.graph).logged = (w.view c.graph).logged) : CheckpointTrue digest start w' c :=
  h.grow (hlog.trans (List.append_nil _).symm)

theorem Recoverable.of_sameLog (h : Recoverable digest start w) (hsame : SameLog w w')
    (hcheck : w'.checkpoints = w.checkpoints) : Recoverable digest start w' where
  met g hg := by
    rw [hsame.logged]
    exact h.met g hg
  drafts t ht := by
    rw [hsame.transactions] at ht
    unfold GraphView.atLast
    rw [hsame.logged]
    exact h.drafts t ht
  distinct := by
    rw [hsame.transactions]
    exact h.distinct
  checkpoints c hc := by
    rw [hcheck] at hc
    exact (h.checkpoints c hc).same (hsame.logged _)
  submitted s hs ho := by
    rw [hsame.submissions] at hs
    unfold Submitted
    rw [hsame.transactions, hsame.isAppending, hsame.logged]
    exact h.submitted s hs ho

/-- A graph after its log. -/
theorem atLast_writes (hstart : Identified (start g)) :
    (w.view g).atLast (start g) = (start g).writeAll (writesOf (w.view g).logged) := hstart.writes _

theorem logged_append (d : GroupDraft) (swapSet : Option ℕ) :
    ((w.append d swapSet).2.view d.graph).logged = (w.view d.graph).logged ++ d.primitives := by
  unfold GraphView.logged World.view
  dsimp only
  rw [append_entries, List.filterMap_append]
  unfold newEntries
  rw [primitives_rowOf, map_snd_numbered]

theorem logged_append_of_ne {d : GroupDraft} {swapSet : Option ℕ} (h : g ≠ d.graph) :
    ((w.append d swapSet).2.view g).logged = (w.view g).logged := by
  rw [view_append_of_ne h]

/-- **A group is logged** that its graph's log meets. -/
theorem Recoverable.append (h : Recoverable digest start w) {d : GroupDraft} {swapSet : Option ℕ}
    (hmet : NeedsMet ((w.view d.graph).atLast (start d.graph)) (writesOf d.primitives))
    (hfree : w.isAppending d.graph = false)
    (hopen : ∀ s ∈ w.process.submissions, s.isOpen = true → s.appended.graph = d.graph →
      s.appended.lastPosition = (w.view d.graph).logged.length + d.primitives.length) :
    Recoverable digest start (w.append d swapSet).2 where
  met g hg := by
    by_cases hgd : g = d.graph
    · subst hgd
      rw [logged_append, writesOf_append, needsMet_append, ← atLast_writes hg]
      exact ⟨h.met _ hg, hmet⟩
    · rw [logged_append_of_ne hgd]
      exact h.met g hg
  drafts t ht := by
    have hne : t.draft.graph ≠ d.graph := by
      intro heq
      unfold World.isAppending at hfree
      rw [List.any_eq_false] at hfree
      exact hfree t ht (by simp [heq])
    rw [view_append_of_ne hne]
    exact h.drafts t ht
  distinct := h.distinct
  checkpoints c hc := by
    by_cases hgd : c.graph = d.graph
    · have hlog := @logged_append w d swapSet
      rw [← hgd] at hlog
      exact (h.checkpoints c hc).grow hlog
    · exact (h.checkpoints c hc).same (logged_append_of_ne hgd)
  submitted s hs ho := by
    refine ⟨(h.submitted s hs ho).1, ?_⟩
    by_cases hgd : s.appended.graph = d.graph
    · refine .inr ⟨by rw [hgd]; exact hfree, ?_⟩
      rw [hopen s hs ho hgd, hgd, logged_append, List.length_append]
    · have hsubmitted := (h.submitted s hs ho).2
      unfold Submitted at hsubmitted ⊢
      rw [logged_append_of_ne hgd]
      exact hsubmitted

theorem not_held {s : StagedSubmission} (hheld : w.holds g = false) (hs : s ∈ w.process.submissions)
    (ho : s.isOpen = true) : s.appended.graph ≠ g := by
  intro heq
  unfold World.holds at hheld
  rw [List.any_eq_false] at hheld
  exact hheld s hs (by simp [ho, heq])

/-- Groups in one transaction, each on a graph of its own. -/
theorem Recoverable.appendAll (h : Recoverable digest start w) {ds : List GroupDraft} {swapSet : Option ℕ}
    (hgraphs : (ds.map GroupDraft.graph).Nodup)
    (hds : ∀ d ∈ ds, NeedsMet ((w.view d.graph).atLast (start d.graph)) (writesOf d.primitives) ∧
      w.isAppending d.graph = false ∧ w.holds d.graph = false) :
    Recoverable digest start (w.appendAll ds swapSet).2 := by
  induction ds generalizing w with
  | nil => exact h
  | cons d ds ih =>
    rw [List.map_cons, List.nodup_cons] at hgraphs
    obtain ⟨hmet, hfree, hheld⟩ := hds d (List.mem_cons_self ..)
    rw [appendAll_cons]
    refine ih (h.append hmet hfree fun s hs ho heq => absurd heq (not_held hheld hs ho)) hgraphs.2 fun d' hd' => ?_
    have hne : d'.graph ≠ d.graph := fun heq => hgraphs.1 (List.mem_map.2 ⟨d', hd', heq⟩)
    obtain ⟨hmet', hfree', hheld'⟩ := hds d' (List.mem_cons_of_mem _ hd')
    rw [view_append_of_ne hne]
    exact ⟨hmet', hfree', hheld'⟩

/-- A group is drafted on a transaction, and its submission opened. -/
theorem Recoverable.draft (h : Recoverable digest start w) {d : GroupDraft}
    (hmet : NeedsMet ((w.view d.graph).atLast (start d.graph)) (writesOf d.primitives))
    (hfresh : ∀ t ∈ w.transactions, t.draft.submission ≠ d.submission) (hheld : w.holds d.graph = false) :
    Recoverable digest start { w with transactions := w.transactions ++ [⟨d⟩] } where
  met := h.met
  drafts t ht := by
    rcases List.mem_append.1 ht with ht | ht
    · exact h.drafts t ht
    · rw [List.mem_singleton.1 ht]
      exact hmet
  distinct := by
    rw [List.map_append, List.map_singleton]
    refine (List.perm_append_singleton _ _).nodup_iff.2 (List.nodup_cons.2 ⟨fun hin => ?_, h.distinct⟩)
    obtain ⟨t, ht, hsub⟩ := List.mem_map.1 hin
    exact hfresh t ht hsub
  checkpoints c hc := (h.checkpoints c hc).same rfl
  submitted s hs ho := by
    refine ⟨(h.submitted s hs ho).1, ?_⟩
    rcases (h.submitted s hs ho).2 with ⟨t, ht, hgraph, hlast⟩ | ⟨hnone, hlast⟩
    · exact .inl ⟨t, List.mem_append_left _ ht, hgraph, hlast⟩
    · refine .inr ⟨?_, hlast⟩
      have hne := not_held hheld hs ho
      unfold World.isAppending at hnone ⊢
      rw [List.any_append, hnone]
      simpa using hne.symm

theorem Recoverable.process (h : Recoverable digest start w) {p : Process}
    (hp : ∀ s ∈ p.submissions, s.isOpen = true → 1 ≤ s.appended.lastPosition ∧ Submitted w s) :
    Recoverable digest start { w with process := p } where
  met := h.met
  drafts := h.drafts
  distinct := h.distinct
  checkpoints c hc := (h.checkpoints c hc).same rfl
  submitted := hp

theorem Recoverable.nextCall (h : Recoverable digest start w) :
    Recoverable digest start { w with calls := w.calls + 1 } where
  met := h.met
  drafts := h.drafts
  distinct := h.distinct
  checkpoints c hc := (h.checkpoints c hc).same rfl
  submitted := h.submitted

/-- A transaction ends without a trace. -/
theorem Recoverable.undraft (h : Recoverable digest start w) {submission : ℕ}
    (halone : (w.transactions.map fun t => t.draft.graph).Nodup) :
    Recoverable digest start { w with transactions := w.transactions.filter fun t => t.draft.submission ≠ submission } where
  met := h.met
  drafts t ht := h.drafts t (List.mem_filter.1 ht).1
  distinct := h.distinct.sublist (List.filter_sublist.map _)
  checkpoints c hc := (h.checkpoints c hc).same rfl
  submitted s hs ho := by
    refine ⟨(h.submitted s hs ho).1, ?_⟩
    rcases (h.submitted s hs ho).2 with ⟨t, ht, hgraph, hlast⟩ | ⟨hnone, hlast⟩
    · by_cases hsub : t.draft.submission = submission
      · -- its own transaction: nothing else appends to the graph
        refine .inr ⟨?_, by rw [hlast]; exact Nat.le_add_right _ _⟩
        unfold World.isAppending
        rw [List.any_eq_false]
        intro t' ht'
        obtain ⟨hmem, hne⟩ := List.mem_filter.1 ht'
        intro heq
        have hsame : t' = t := List.inj_on_of_nodup_map halone hmem ht (by simpa [hgraph] using heq)
        rw [hsame] at hne
        exact absurd hsub (by simpa using hne)
      · exact .inl ⟨t, List.mem_filter.2 ⟨ht, by simpa using hsub⟩, hgraph, hlast⟩
    · refine .inr ⟨?_, hlast⟩
      unfold World.isAppending at hnone ⊢
      rw [List.any_eq_false] at hnone ⊢
      exact fun t ht => hnone t (List.mem_filter.1 ht).1

/-- **A transaction ends**, committed or not. -/
theorem Recoverable.endTransaction (h : Recoverable digest start w) {flipped : ℕ → Prop}
    (hok : GatewayOk start flipped w) (submission : ℕ) (committed : Bool) :
    Recoverable digest start (w.endTransaction submission committed) := by
  unfold World.endTransaction
  split
  · exact h
  · rename_i t ht
    have htmem := List.mem_of_find?_eq_some ht
    have htsub : t.draft.submission = submission := by simpa using List.find?_some ht
    have hrest := @Recoverable.undraft digest start w h submission hok.alone
    dsimp only
    split
    · refine hrest.append (h.drafts t htmem) ?_ fun s hs ho hgraph => ?_
      · unfold World.isAppending
        rw [List.any_eq_false]
        intro t' ht'
        obtain ⟨hmem, hne⟩ := List.mem_filter.1 ht'
        intro heq
        have hsame : t' = t := List.inj_on_of_nodup_map hok.alone hmem htmem (by simpa using heq)
        rw [hsame, htsub] at hne
        simp at hne
      · rcases (h.submitted s hs ho).2 with ⟨t', ht', hgraph', hlast⟩ | ⟨hnone, -⟩
        · have hsame : t' = t := List.inj_on_of_nodup_map hok.alone ht' htmem (hgraph'.trans hgraph)
          rw [hlast, hsame, hgraph]
          rfl
        · unfold World.isAppending at hnone
          rw [List.any_eq_false] at hnone
          exact absurd (by simp [hgraph]) (hnone t htmem)
    · exact hrest

theorem Recoverable.crash (h : Recoverable digest start w) : Recoverable digest start w.crash where
  met := h.met
  drafts _ ht := absurd ht List.not_mem_nil
  distinct := List.nodup_nil
  checkpoints c hc := (h.checkpoints c hc).same rfl
  submitted _ hs := absurd hs List.not_mem_nil

theorem recoverable_initial (live : String → Option StoredGraph) :
    Recoverable digest (startOf live) (World.initial live) where
  met _ _ := needsMet_nil
  drafts _ ht := absurd ht List.not_mem_nil
  distinct := List.nodup_nil
  checkpoints _ hc := absurd hc List.not_mem_nil
  submitted _ hs := absurd hs List.not_mem_nil

/-- **A checkpoint is recorded** of a graph that is caught up. -/
theorem Recoverable.record (h : Recoverable digest start w) {flipped : ℕ → Prop} (hok : GatewayOk start flipped w)
    {position : ℕ} (hpos : 1 ≤ position) (hlast : position = (w.view g).logged.length) (hcaught : (w.view g).CaughtUp) :
    Recoverable digest start { w with checkpoints := w.checkpoints ++ [⟨g, position, digest (w.content g)⟩] } where
  met := h.met
  drafts := h.drafts
  distinct := h.distinct
  submitted := h.submitted
  checkpoints c hc := by
    rcases List.mem_append.1 hc with hc | hc
    · exact (h.checkpoints c hc).same rfl
    · rw [List.mem_singleton.1 hc]
      have hcontent : w.content g = (w.view g).atLast (start g) := (hok.graphs g).content_eq hcaught
      refine ⟨hpos, le_of_eq hlast, ?_⟩
      dsimp only
      rw [hcontent, hlast]
      exact congrArg digest (congrArg (PolicySystem.applyAll (start g)) (List.take_length ..).symm)

end Invariant

/-! ## Each call keeps it -/

section Calls

variable (gw : GraphWriteGateway) {start : String → Graph} {w w' : World} {g : String}

/-- The invariants of the world and of recovery. -/
def Durable (start : String → Graph) (w : World) : Prop := Inv start w ∧ Recoverable gw.canonicalDigest start w

/-- They hold over the log as it was. -/
def DurableSame (start : String → Graph) (w w' : World) : Prop := Same start w w' ∧ Recoverable gw.canonicalDigest start w'

variable {gw}

theorem DurableSame.durable (h : DurableSame gw start w w') : Durable gw start w' := ⟨h.1.1, h.2⟩

theorem DurableSame.refl (h : Durable gw start w) : DurableSame gw start w w := ⟨Same.refl h.1, h.2⟩

theorem DurableSame.trans {w'' : World} (h : DurableSame gw start w w') (h' : DurableSame gw start w' w'') :
    DurableSame gw start w w'' := ⟨h.1.trans h'.1, h'.2⟩

theorem Durable.same (h : Durable gw start w) (hsame : Same start w w') (hcheck : w'.checkpoints = w.checkpoints) :
    DurableSame gw start w w' := ⟨hsame, h.2.of_sameLog hsame.2 hcheck⟩

theorem DurableSame.process {w'' : World} (h : DurableSame gw start w w') (hp : ProcessOnly w' w'') :
    DurableSame gw start w w'' := by
  refine h.trans (h.durable.same ⟨hp.inv h.1.1, hp.sameLog⟩ ?_)
  obtain ⟨p, rfl, -⟩ := hp
  rfl

variable (gw)

/-- A program that ends over the log as it was, and records no checkpoint. -/
theorem ends_durable {α : Type} {p : Gw α} {R : α → World → Prop} (h : Durable gw start w)
    (hp : wp p (Ends (fun a w' => Same start w w' ∧ R a w') (Same start w)) w) (hnone : NoCheckpoint p) :
    wp p (Ends (fun a w' => DurableSame gw start w w' ∧ R a w') (DurableSame gw start w)) w :=
  ends_mono (ends_preserves hp hnone) (fun _ _ hw' => ⟨h.same hw'.1.1 hw'.2, hw'.1.2⟩) fun _ hw' => h.same hw'.1 hw'.2

/-- A group at the end of its graph's log. -/
def AtEnd (w : World) (appended : AppendedGroup) : Prop :=
  1 ≤ appended.lastPosition ∧ appended.lastPosition = (w.view appended.graph).logged.length

theorem AtEnd.same {appended : AppendedGroup} (h : AtEnd w appended) (hsame : SameLog w w') : AtEnd w' appended := by
  refine ⟨h.1, ?_⟩
  rw [hsame.logged]
  exact h.2

theorem durable_recordCheckpoint (h : Durable gw start w) {appended : AppendedGroup} (hend : AtEnd w appended)
    (hcaught : (w.view appended.graph).CaughtUp) :
    wp (recordCheckpoint gw appended) (Ends (fun _ => DurableSame gw start w) (DurableSame gw start w)) w := by
  have hself := DurableSame.refl h
  unfold recordCheckpoint
  refine ends_handle (F := DurableSame gw start w) ?_ (fun e w' hw' => ?_) fun _ hw' => hw'
  · refine ends_bind (R := fun digest w' => digest = gw.canonicalDigest (w.content appended.graph) ∧ w = w')
      (ends_graphRead ⟨rfl, rfl⟩ hself) ?_
    rintro _ _ ⟨rfl, rfl⟩
    refine ends_bind (R := fun _ => DurableSame gw start w) (ends_logWrite (fun u w' hw' => ?_) hself)
      fun _ w' hw' => wp_pure hw'
    split at hw'
    · cases hw'
    · cases hw'
      obtain ⟨⟨flipped, hok⟩, hrecoverable⟩ := h
      have hlog : SameLog w { w with checkpoints := w.checkpoints ++
          [⟨appended.graph, appended.lastPosition, gw.canonicalDigest (w.content appended.graph)⟩] } :=
        ⟨rfl, rfl, rfl, rfl, rfl, fun _ => le_rfl⟩
      have hdurable : DurableSame gw start w { w with checkpoints := w.checkpoints ++
          [⟨appended.graph, appended.lastPosition, gw.canonicalDigest (w.content appended.graph)⟩] } :=
        ⟨⟨⟨flipped, hok.of_sameLog hlog hok.graphs⟩, hlog⟩, hrecoverable.record hok hend.1 hend.2 hcaught⟩
      exact ⟨hdurable, hdurable⟩
  · split
    · exact wp_pure hw'
    · exact wp_pure hw'
    · exact wp_pure hw'
    · exact wp_pure hw'
    · exact wp_raise hw'

/-- **`_apply_committed`** takes the checkpoint where the graph is caught up, or takes none. -/
theorem durable_applyCommitted (h : Durable gw start w) {appended : AppendedGroup} (hend : AtEnd w appended)
    (hin : (w.view appended.graph).InPlace) (requested : Bool) :
    wp (applyCommitted gw appended requested) (Ends (fun _ => DurableSame gw start w) (DurableSame gw start w)) w := by
  have hpending : wp (applyPending gw appended.graph none) (Ends (fun _ w' => DurableSame gw start w w' ∧
      (w'.view appended.graph).CaughtUp) (DurableSame gw start w)) w := by
    refine ends_durable gw h ?_ (noCheckpoint_applyPending gw _ _)
    exact ends_mono (ends_applyPending gw h.1 hin) (fun _ _ hw' => ⟨⟨hw'.1.1, hw'.1.2.toSameLog⟩, hw'.2⟩)
      fun _ hw' => ⟨hw'.1, hw'.2.toSameLog⟩
  unfold applyCommitted
  refine ends_bind (R := fun status w' => DurableSame gw start w w' ∧
    (status = .applied → (w'.view appended.graph).CaughtUp)) ?_ ?_
  · refine ends_handle (F := DurableSame gw start w) ?_ (fun e w' hw' => ?_) fun _ hw' => hw'
    · exact ends_bind hpending fun _ w' hw' => wp_pure ⟨hw'.1, fun _ => hw'.2⟩
    · split
      · refine ends_bind (register_ends _) fun _ w'' hw'' => wp_pure ⟨hw'.process hw'', ?_⟩
        intro happlied
        cases happlied
      · exact wp_raise hw'
  · rintro status w₁ ⟨hdurable, hcaught⟩
    dsimp only
    split
    · rename_i hrecord
      refine ends_bind (ends_mono (durable_recordCheckpoint gw hdurable.durable (hend.same hdurable.1.2) (hcaught hrecord.2))
        (S := fun _ => DurableSame gw start w) (F := DurableSame gw start w) (fun _ _ hw' => hdurable.trans hw')
        fun _ hw' => hdurable.trans hw') fun _ w' hw' => wp_pure hw'
    · exact ends_bind (R := fun _ => DurableSame gw start w) (wp_pure hdurable) fun _ w' hw' => wp_pure hw'

/-! ### One graph -/

/-- A group on one graph that was staged. -/
theorem durable_staged (h : Durable gw start w) (group : MutationGroup) :
    wp (stage gw group none) (Ends (fun effective w' => Durable gw start w' ∧ (w'.view group.graph).CaughtUp ∧
      w'.calls = w.calls + 1 ∧ SameLog { w with calls := w.calls + 1 } w' ∧
      NeedsMet ((w'.view group.graph).atLast (start group.graph)) (writesOf effective)) (Durable gw start))
      { w with calls := w.calls + 1 } := by
  have hnext : Durable gw start { w with calls := w.calls + 1 } := ⟨h.1.nextCall, h.2.nextCall⟩
  refine ends_mono (ends_preserves (ends_stage gw hnext.1 group none nofun) (noCheckpoint_stage gw _ _)) ?_ ?_
  · rintro effective w' ⟨⟨⟨hI, hmove⟩, heffective⟩, hcheck⟩
    refine ⟨⟨hI, hnext.2.of_sameLog hmove.toSameLog hcheck⟩, heffective.caughtUp, hmove.calls, hmove.toSameLog, ?_⟩
    obtain ⟨flipped, hok⟩ := hI
    rw [← (hok.graphs group.graph).content_eq heffective.caughtUp]
    exact selected_met heffective.selected
  · rintro w' ⟨⟨hI, hmove⟩, hcheck⟩
    exact ⟨hI, hnext.2.of_sameLog hmove.toSameLog hcheck⟩

theorem durable_submitGroup (h : Durable gw start w) (group : MutationGroup) :
    wp (submitGroup gw group) (Ends (fun _ => Durable gw start) (Durable gw start)) w := by
  unfold submitGroup
  refine ends_bind (ends_lockAll _ h) ?_
  rintro - _ ⟨rfl, hheld⟩
  refine ends_bind ends_nextCall ?_
  rintro _ _ ⟨rfl, rfl⟩
  refine ends_bind (durable_staged gw h group) ?_
  rintro effective w₁ ⟨h₁, hcaught, hcalls, hsame, hmet⟩
  split
  · exact wp_pure h₁
  rename_i hne
  have hne' : effective ≠ [] := fun h => hne (by rw [h]; rfl)
  refine ends_bind (R := fun appended w' => Durable gw start w' ∧ AtEnd w' appended ∧
    (w'.view appended.graph).InPlace) ?_ ?_
  · refine ends_guardWrite gw (fun appended w₂ hw₂ => ?_) h₁
    split at hw₂
    · cases hw₂
    rename_i hfree
    cases hw₂
    obtain ⟨⟨flipped, hok⟩, hrecoverable⟩ := h₁
    have hfresh : (w.calls, group.graph) ∉ w₁.keys := by
      rw [hsame.keys]
      exact fresh_of_calls h.1 group.graph
    have hfree' : w₁.isAppending group.graph = false := by simpa using hfree
    have hheld' : w₁.holds group.graph = false := by
      rw [hsame.holds]
      exact hheld _ (List.mem_singleton_self _)
    have hok₂ := @GatewayOk.append start flipped w₁ hok ⟨group.graph, effective, w.calls⟩ none hne' hcaught hfresh
      (by dsimp only; omega) hfree' nofun
    have hdurable : Durable gw start (w₁.append ⟨group.graph, effective, w.calls⟩ none).2 :=
      ⟨⟨flipped, hok₂⟩, hrecoverable.append hmet hfree' fun s hs ho heq => absurd heq (not_held hheld' hs ho)⟩
    refine ⟨⟨hdurable, ⟨?_, ?_⟩, ?_⟩, hdurable⟩
    · have hpos := List.length_pos_iff.2 hne'
      show 1 ≤ w₁.lastPosition group.graph + effective.length
      omega
    · have hlog : ((w₁.append ⟨group.graph, effective, w.calls⟩ none).2.view group.graph).logged =
          (w₁.view group.graph).logged ++ effective := logged_append _ _
      show w₁.lastPosition group.graph + effective.length =
        ((w₁.append ⟨group.graph, effective, w.calls⟩ none).2.view group.graph).logged.length
      rw [hlog, List.length_append, lastPosition_eq (hok.graphs group.graph)]
    · exact inPlace_append (hok.graphs group.graph) (hcaught.inPlace (hok.graphs group.graph))
  · rintro appended w₂ ⟨h₂, hend, hin⟩
    exact ends_mono (durable_applyCommitted gw h₂ hend hin _) (fun _ _ hw' => hw'.durable) fun _ hw' => hw'.durable

theorem durable_submitGroupInTransaction (h : Durable gw start w) (group : MutationGroup) :
    wp (submitGroupInTransaction gw group) (Ends (fun _ => Durable gw start) (Durable gw start)) w := by
  unfold submitGroupInTransaction
  refine ends_bind (ends_lockAll _ h) ?_
  rintro - _ ⟨rfl, hheld⟩
  refine ends_bind ends_nextCall ?_
  rintro _ _ ⟨rfl, rfl⟩
  refine ends_bind (durable_staged gw h group) ?_
  rintro effective w₁ ⟨h₁, hcaught, hcalls, hsame, hmet⟩
  split
  · exact wp_pure h₁
  rename_i hne
  have hne' : effective ≠ [] := fun h => hne (by rw [h]; rfl)
  refine ends_bind (R := fun appended w' => Durable gw start w' ∧ 1 ≤ appended.lastPosition ∧
    (w'.view appended.graph).InPlace ∧ ∃ t ∈ w'.transactions, t.draft.graph = appended.graph ∧
      appended.lastPosition = (w'.view appended.graph).logged.length + t.draft.primitives.length) ?_ ?_
  · refine ends_logWrite (fun appended w₂ hw₂ => ?_) h₁
    split at hw₂
    · cases hw₂
    rename_i hfree
    cases hw₂
    obtain ⟨⟨flipped, hok⟩, hrecoverable⟩ := h₁
    have hfresh : (w.calls, group.graph) ∉ w₁.keys := by
      rw [hsame.keys]
      exact fresh_of_calls h.1 group.graph
    have hheld' : w₁.holds group.graph = false := by
      rw [hsame.holds]
      exact hheld _ (List.mem_singleton_self _)
    have hok₂ := hok.draft (d := ⟨group.graph, effective, w.calls⟩) hne' hcaught hfresh (by dsimp only; omega)
      (by simpa using hfree)
    -- every transaction that is open is an earlier call's
    have hearlier : ∀ t ∈ w₁.transactions, t.draft.submission ≠ w.calls := by
      intro t ht heq
      rw [hsame.transactions] at ht
      obtain ⟨flipped₀, hok₀⟩ := h.1
      have hlt := hok₀.drafted _ (List.mem_append_right _ (List.mem_map_of_mem ht))
      dsimp only at hlt
      omega
    have hdurable : Durable gw start { w₁ with transactions := w₁.transactions ++ [⟨group.graph, effective, w.calls⟩] } :=
      ⟨⟨flipped, hok₂⟩, hrecoverable.draft hmet hearlier hheld'⟩
    refine ⟨⟨hdurable, ?_, hcaught.inPlace (hok.graphs group.graph), ⟨⟨group.graph, effective, w.calls⟩⟩,
      List.mem_append_right _ (List.mem_singleton_self _), rfl, ?_⟩, hdurable⟩
    · have hpos := List.length_pos_iff.2 hne'
      show 1 ≤ w₁.lastPosition group.graph + effective.length
      omega
    · show w₁.lastPosition group.graph + effective.length = _
      rw [lastPosition_eq (hok.graphs group.graph)]
      rfl
  · rintro appended w₂ ⟨⟨⟨flipped, hok₂⟩, hrecoverable⟩, hpos, hin, t, ht, hgraph, hlast⟩
    refine wp_modify ⟨⟨flipped, hok₂.process fun s hs ho => ?_⟩, hrecoverable.process fun s hs ho => ?_⟩
    · rcases List.mem_append.1 hs with hs | hs
      · exact hok₂.opened s hs ho
      · rw [List.mem_singleton.1 hs]
        exact hin
    · rcases List.mem_append.1 hs with hs | hs
      · exact hrecoverable.submitted s hs ho
      · rw [List.mem_singleton.1 hs]
        exact ⟨hpos, .inl ⟨t, ht, hgraph, hlast⟩⟩

theorem durable_endTransaction (h : Durable gw start w) (submission : ℕ) (committed : Bool) :
    Durable gw start (w.endTransaction submission committed) := by
  obtain ⟨⟨flipped, hok⟩, hrecoverable⟩ := h
  exact ⟨⟨flipped, hok.endTransaction submission committed⟩, hrecoverable.endTransaction hok submission committed⟩

theorem durable_commitTransaction (h : Durable gw start w) (submission : ℕ) :
    wp (commitTransaction submission) (Ends (fun _ => Durable gw start) (Durable gw start)) w := by
  refine wp_call h fun fate => ?_
  cases fate with
  | done => exact durable_endTransaction gw h submission true
  | lost => exact durable_endTransaction gw h submission true
  | dies => exact h
  | _ => exact durable_endTransaction gw h submission false

/-- What is closed stays closed. -/
theorem durable_abort (h : Durable gw start w) (submission : ℕ) :
    wp (abort submission) (Ends (fun _ => Durable gw start) (Durable gw start)) w := by
  obtain ⟨⟨flipped, hok⟩, hrecoverable⟩ := h
  have hopen : ∀ s ∈ w.process.submissions.map (fun s => if s.submission = submission then { s with isOpen := false }
      else s), s.isOpen = true → s ∈ w.process.submissions := by
    intro s hs ho
    obtain ⟨s', hs', rfl⟩ := List.mem_map.1 hs
    split at ho
    · cases ho
    · rename_i hother
      rw [if_neg hother]
      exact hs'
  refine wp_modify ⟨⟨flipped, hok.process fun s hs ho => ?_⟩, hrecoverable.process fun s hs ho => ?_⟩
  · exact hok.opened s (hopen s hs ho) ho
  · exact hrecoverable.submitted s (hopen s hs ho) ho

theorem durable_complete (h : Durable gw start w) (submission : ℕ) :
    wp (complete gw submission) (Ends (fun _ => Durable gw start) (Durable gw start)) w := by
  unfold complete
  refine ends_bind (R := fun w₀ w' => w = w₀ ∧ w = w') (wp_get ⟨rfl, rfl⟩) ?_
  rintro _ _ ⟨rfl, rfl⟩
  split
  · exact wp_raise h
  rename_i s hs
  have hmem := List.mem_of_find?_eq_some hs
  have hopen : s.isOpen = true := by
    have := List.find?_some hs
    simp only [Bool.and_eq_true] at this
    exact this.2
  refine ends_andFinally (S := fun _ => Durable gw start) (F := Durable gw start) ?_
    (fun _ w' hw' => durable_abort gw hw' submission) (fun w' hw' => durable_abort gw hw' submission) fun _ hw' => hw'
  refine ends_bind (R := fun last w' => last = w.lastPosition s.appended.graph ∧ w = w') (ends_logRead ⟨rfl, rfl⟩ h) ?_
  rintro _ _ ⟨rfl, rfl⟩
  refine ends_unless (fun _ => h) fun hcommitted => ?_
  have hstays := h
  obtain ⟨⟨flipped, hok⟩, hrecoverable⟩ := hstays
  have hlast := lastPosition_eq (hok.graphs s.appended.graph)
  obtain ⟨hpos, hsubmitted⟩ := hrecoverable.submitted s hmem hopen
  have hend : AtEnd w s.appended := by
    refine ⟨hpos, ?_⟩
    rcases hsubmitted with ⟨t, ht, -, hdraft⟩ | ⟨-, hle⟩
    · -- a group on its transaction is past the log
      have hne := List.length_pos_iff.2 (hok.onTop t ht).1
      omega
    · omega
  exact ends_mono (durable_applyCommitted gw h hend (hok.opened s hmem hopen) _) (fun _ _ hw' => hw'.durable)
    fun _ hw' => hw'.durable

/-! ### Several graphs -/

theorem durable_applyLegsInPlace (h : Durable gw start w) {appended : List AppendedGroup}
    (hend : ∀ a ∈ appended, AtEnd w a) {legs : List GraphLeg} (hin : ∀ leg ∈ legs, (w.view leg.graph).InPlace) :
    wp (applyLegsInPlace gw appended legs) (Ends (fun _ => DurableSame gw start w) (DurableSame gw start w)) w := by
  induction legs generalizing w with
  | nil => exact wp_pure (DurableSame.refl h)
  | cons leg legs ih =>
    unfold applyLegsInPlace
    refine ends_bind (R := fun _ => DurableSame gw start w) ?_ fun outcome w₁ hw₁ => ?_
    · unfold applyLegInPlace
      split
      · exact wp_pure (DurableSame.refl h)
      · rename_i a ha
        have hgraph : a.graph = leg.graph := by simpa using List.find?_some ha
        have happ := List.mem_of_find?_eq_some ha
        refine ends_handle (durable_applyCommitted gw h (hend a happ)
          (by rw [hgraph]; exact hin leg (List.mem_cons_self ..)) _) (fun e w' hw' => ?_) fun _ hw' => hw'
        split
        · refine ends_bind (R := fun _ => ProcessOnly w') ?_ fun _ w'' hw'' => wp_raise (hw'.process hw'')
          refine ends_forM (fun _ => ProcessOnly w') (fun _ rest _ _ w'' hw'' => ?_) (ProcessOnly.refl w')
          exact ends_mono (register_ends rest.graph) (fun _ _ hp => hw''.trans hp) fun _ hp => hp
        · exact wp_raise hw'
    · have hrest := ih hw₁.durable (fun a ha => (hend a ha).same hw₁.1.2)
        fun leg' hleg' => hw₁.1.2.inPlace (hin leg' (List.mem_cons_of_mem _ hleg'))
      refine ends_bind (ends_mono hrest (S := fun _ => DurableSame gw start w) (F := DurableSame gw start w)
        (fun _ _ hw' => hw₁.trans hw') fun _ hw' => hw₁.trans hw') fun _ w₂ hw₂ => wp_pure hw₂

theorem durable_recordLegs (h : Durable gw start w) {appended : List AppendedGroup} (hend : ∀ a ∈ appended, AtEnd w a)
    {status : Bool} (hcaught : status = true → ∀ a ∈ appended, (w.view a.graph).CaughtUp) (legs : List GraphLeg) :
    wp (recordLegs gw appended status legs) (Ends (fun _ => DurableSame gw start w) (DurableSame gw start w)) w := by
  induction legs generalizing w with
  | nil => exact wp_pure (DurableSame.refl h)
  | cons leg legs ih =>
    unfold recordLegs
    refine ends_bind (R := fun _ => DurableSame gw start w) ?_ fun outcome w₁ hw₁ => ?_
    · unfold recordLeg
      split
      · exact wp_pure (DurableSame.refl h)
      · rename_i a ha
        have happ := List.mem_of_find?_eq_some ha
        dsimp only
        split
        · rename_i hrecord
          exact ends_bind (durable_recordCheckpoint gw h (hend a happ) (hcaught hrecord.2 a happ))
            fun _ w' hw' => wp_pure hw'
        · exact ends_bind (R := fun _ => DurableSame gw start w) (wp_pure (DurableSame.refl h))
            fun _ w' hw' => wp_pure hw'
    · have hrest := ih hw₁.durable (fun a ha => (hend a ha).same hw₁.1.2) fun hstatus a ha => by
        obtain ⟨flipped, hok⟩ := hw₁.1.1
        exact caughtUp_forward hw₁.1.2 (hok.graphs _) (hcaught hstatus a ha)
      refine ends_bind (ends_mono hrest (S := fun _ => DurableSame gw start w) (F := DurableSame gw start w)
        (fun _ _ hw' => hw₁.trans hw') fun _ hw' => hw₁.trans hw') fun _ w₂ hw₂ => wp_pure hw₂

/-- The groups of one transaction are each the last of its graph. -/
theorem atEnd_appended {ds : List GroupDraft} {swapSet : Option ℕ} {w₁ : World} (hI : Inv start w₁)
    (happ : AppendedAll w₁ ds swapSet w) (hne : ∀ d ∈ ds, d.primitives ≠ []) :
    ∀ a ∈ ds.map fun d => (newRow w₁ swapSet d).appended, AtEnd w a := by
  obtain ⟨flipped, hok⟩ := hI
  intro a ha
  obtain ⟨d, hd, rfl⟩ := List.mem_map.1 ha
  have hpos := List.length_pos_iff.2 (hne d hd)
  have hlogged : (w.view d.graph).logged = (w₁.view d.graph).logged ++ d.primitives := logged_appended happ hd
  refine ⟨?_, ?_⟩
  · show 1 ≤ w₁.lastPosition d.graph + d.primitives.length
    omega
  · show w₁.lastPosition d.graph + d.primitives.length = (w.view d.graph).logged.length
    rw [hlogged, List.length_append, lastPosition_eq (hok.graphs d.graph)]

theorem durable_submitMultiGraphGroup (h : Durable gw start w) (group : MultiGraphGroup) :
    wp (submitMultiGraphGroup gw group) (Ends (fun _ => Durable gw start) (Durable gw start)) w := by
  have hnext : Durable gw start { w with calls := w.calls + 1 } := ⟨h.1.nextCall, h.2.nextCall⟩
  unfold submitMultiGraphGroup
  refine ends_bind (ends_lockAll _ h) ?_
  rintro - _ ⟨rfl, hheld⟩
  refine ends_bind ends_nextCall ?_
  rintro _ _ ⟨rfl, rfl⟩
  refine ends_bind (ends_mono (ends_preserves (ends_stageLegs gw hnext.1 (legGraphs_nodup group))
    (noCheckpoint_stageLegs gw _)) (fun _ _ hw' => hw')
    fun w' hw' => ⟨hw'.1.1, hnext.2.of_sameLog hw'.1.2.toSameLog hw'.2⟩) ?_
  rintro staged w₁ ⟨⟨⟨hI₁, hmove⟩, hfst, heff⟩, hcheck⟩
  have h₁ : Durable gw start w₁ := ⟨hI₁, hnext.2.of_sameLog hmove.toSameLog hcheck⟩
  have hkeys : ∀ g, (w.calls, g) ∉ w₁.keys := by
    intro g
    rw [hmove.keys]
    exact fresh_of_calls h.1 g
  have hcalls : w₁.calls = w.calls + 1 := hmove.calls
  have hnodup : ((draftsOf w.calls staged).map GroupDraft.graph).Nodup :=
    draftsOf_graphs hfst (legGraphs_nodup group)
  have hdrafts : ∀ d ∈ draftsOf w.calls staged, d.primitives ≠ [] := by
    intro d hd
    obtain ⟨leg, -, hne, rfl⟩ := mem_draftsOf hd
    exact hne
  dsimp only
  split
  · exact wp_pure h₁
  change wp (guardCall gw _ (appendGroupsStandalone (draftsOf w.calls staged)
    (if group.swap then some w.calls else none)) >>= _) _ w₁
  have hheld₁ : ∀ g ∈ legGraphs group.legs, w₁.holds g = false := by
    intro g hg
    rw [hmove.holds]
    exact hheld g hg
  refine ends_bind (ends_appendLegs gw hI₁ hfst heff hkeys (by omega) hheld₁
    (if group.swap then some w.calls else none) (fun s hs => ?_) h₁ fun hfree hI₂ => ⟨hI₂, ?_⟩) ?_
  · split at hs
    · exact (Option.some.inj hs).symm
    · cases hs
  · -- each leg's primitives were selected over the content its graph has now
    refine h₁.2.appendAll hnodup fun d hd => ?_
    obtain ⟨leg, hleg, -, rfl⟩ := mem_draftsOf hd
    refine ⟨?_, hfree _ hd, hheld₁ _ (staged_graph hfst hleg)⟩
    obtain ⟨flipped, hok⟩ := hI₁
    dsimp only
    rw [← (hok.graphs leg.1.graph).content_eq (heff leg hleg).caughtUp]
    exact selected_met (heff leg hleg).selected
  · rintro appended w₂ ⟨⟨-, h₂⟩, hw₂, happended⟩
    obtain ⟨happ, -⟩ := @appendAll_all w₁ (if group.swap then some w.calls else none) _ hnodup
    have hrest := @appendAll_rest w₁ (if group.swap then some w.calls else none) (draftsOf w.calls staged)
    rw [← hw₂] at happ hrest
    have happlied : w₂.applied = w₁.applied := by rw [hrest]
    have hend : ∀ a ∈ appended, AtEnd w₂ a := by
      rw [happended]
      exact atEnd_appended hI₁ happ hdrafts
    by_cases hswap : group.swap = true
    · rw [if_pos hswap] at happ happended ⊢
      have hlegs : SwapLegs w₂ w.calls appended := by
        rw [happended]
        exact swapLegs_of_staged gw hI₁ heff hkeys happ happlied
      unfold applyLegsBySwap
      refine ends_bind (ends_mono (ends_durable gw h₂ (ends_swapUnit gw h₂.1 hlegs) (noCheckpoint_swapUnit gw _ _))
        (fun _ _ hw' => hw') fun _ hw' => hw'.durable) ?_
      rintro status w₃ ⟨h₃, hadvanced⟩
      refine ends_mono (durable_recordLegs gw h₃.durable (fun a ha => (hend a ha).same h₃.1.2)
        (fun hstatus a ha => ?_) group.legs) (fun _ _ hw' => hw'.durable) fun _ hw' => hw'.durable
      refine caughtUp_of_le h₃.1.1 ?_
      have hreached := hadvanced hstatus a ha
      have hlast := ((hend a ha).same h₃.1.2).2
      omega
    · rw [if_neg hswap] at happ happended ⊢
      refine ends_mono (durable_applyLegsInPlace gw h₂ hend fun leg hleg => ?_) (fun _ _ hw' => hw'.durable)
        fun _ hw' => hw'.durable
      rw [← hfst] at hleg
      obtain ⟨leg', hleg', rfl⟩ := List.mem_map.1 hleg
      refine inPlace_appended happ happlied ?_
      obtain ⟨flipped₁, hok₁⟩ := hI₁
      exact (heff leg' hleg').caughtUp.inPlace (hok₁.graphs _)

/-- **Every call keeps it**, however it ends. -/
theorem program_durable (call : GatewayCall) (h : Durable gw start w) :
    wp (call.program gw) (fun _ => Durable gw start) w := by
  suffices hends : wp (call.program gw) (Ends (fun _ => Durable gw start) (Durable gw start)) w by
    refine wp_mono hends fun x s hx => ?_
    cases x with
    | returned _ => exact hx
    | raised _ => exact hx
    | died => exact hx
  have hsame : ∀ {α : Type} {p : Gw α}, wp p (Ends (fun _ => Same start w) (Same start w)) w → NoCheckpoint p →
      wp p (Ends (fun _ => Durable gw start) (Durable gw start)) w := fun hp hnone =>
    ends_mono (ends_preserves hp hnone) (fun _ _ hw' => (h.same hw'.1 hw'.2).durable)
      fun _ hw' => (h.same hw'.1 hw'.2).durable
  unfold GatewayCall.program
  cases call with
  | submitGroup group => exact ends_bind (durable_submitGroup gw h group) fun _ _ hw' => wp_pure hw'
  | submitGroupInTransaction group => exact durable_submitGroupInTransaction gw h group
  | commit submission => exact durable_commitTransaction gw h submission
  | rollback submission => exact wp_modify (durable_endTransaction gw h submission false)
  | complete submission => exact ends_bind (durable_complete gw h submission) fun _ _ hw' => wp_pure hw'
  | abort submission => exact durable_abort gw h submission
  | submitMultiGraphGroup group =>
    exact ends_bind (durable_submitMultiGraphGroup gw h group) fun _ _ hw' => wp_pure hw'
  | catchUp graph =>
    exact ends_bind (hsame (ends_withUnit gw h.1 3) (noCheckpoint_withUnit gw graph 3)) fun _ _ hw' => wp_pure hw'
  | recover => exact hsame (ends_recover gw h.1) (noCheckpoint_recover gw)
  | reconcile => exact hsame (ends_reconcile gw h.1) (noCheckpoint_reconcile gw)
  | restart => exact wp_modify ⟨h.1.imp fun _ hok => hok.crash, h.2.crash⟩

/-- **Every run keeps it.** -/
theorem recoverable_run (live : String → Option StoredGraph) (calls : List (GatewayCall × List Fate)) :
    Durable gw (startOf live) (runCalls gw (World.initial live) calls) := by
  refine runAll_keeps (fun _ h => ⟨h.1.imp fun _ hok => hok.crash, h.2.crash⟩) (fun step hstep w hw => ?_)
    ⟨⟨_, initial_ok live⟩, recoverable_initial live⟩
  obtain ⟨call, -, rfl⟩ := List.mem_map.1 hstep
  exact program_durable gw call.1 hw

end Calls

/-! ## The loss of a graph -/

/-- The graph store loses some keys. -/
def World.lose (w : World) (lost : List String) : World :=
  { w with live := fun g => if g ∈ lost then none else w.live g }

section Loss

variable {gw : GraphWriteGateway} {start : String → Graph} {w : World} {g : String}

theorem le_position_numbered {first : ℕ} {ps : List Primitive} {row : LogRow}
    (h : row ∈ (numbered first ps).map rowOf) : first ≤ row.position := by
  induction ps generalizing first with
  | nil => exact absurd h List.not_mem_nil
  | cons p ps ih =>
    rw [numbered, List.map_cons, List.mem_cons] at h
    rcases h with rfl | h
    · exact le_rfl
    · have := ih h
      omega

theorem numbered_ascending (first : ℕ) (ps : List Primitive) :
    ((numbered first ps).map rowOf).Pairwise fun a b => a.position < b.position := by
  induction ps generalizing first with
  | nil => exact List.Pairwise.nil
  | cons p ps ih =>
    rw [numbered, List.map_cons]
    exact List.Pairwise.cons (fun row hrow => le_position_numbered hrow) (ih (first + 1))

/-- A log as the gateway writes it is sound to its end. -/
theorem soundFrom_numbered (first : ℕ) (ps : List Primitive) : soundFrom first ((numbered first ps).map rowOf) = ps := by
  induction ps generalizing first with
  | nil => rfl
  | cons p ps ih =>
    rw [numbered, List.map_cons, soundFrom, if_neg (fun hne => hne rfl)]
    show p :: soundFrom (first + 1) _ = _
    rw [ih]

theorem Durable.sound (h : Durable gw start w) (lost : List String) : (w.lose lost).sound g = (w.view g).logged := by
  obtain ⟨⟨flipped, hok⟩, -⟩ := h
  have hentries : w.entries g = (numbered 1 (w.view g).logged).map rowOf := (hok.graphs g).entries
  show soundFrom 1 (w.entries g) = _
  rw [hentries, soundFrom_numbered]

/-- **The log of a lost graph is ready to be replayed.** -/
theorem Durable.logReady (h : Durable gw start w) (lost : List String) (hstart : start g = ∅)
    (hlogged : 0 < w.lastPosition g) : LogReady g (w.lose lost) := by
  have hsound := @Durable.sound gw start w g h lost
  obtain ⟨⟨flipped, hok⟩, hrecoverable⟩ := h
  have hentries : w.entries g = (numbered 1 (w.view g).logged).map rowOf := (hok.graphs g).entries
  refine ⟨fun row hrow => ?_, ?_, hlogged, ?_, fun c hc _ => (hrecoverable.checkpoints c hc).positive, ?_⟩
  · change row ∈ w.entries g at hrow
    rw [hentries] at hrow
    exact le_position_numbered hrow
  · show (w.entries g).Pairwise _
    rw [hentries]
    exact numbered_ascending 1 _
  · show w.applied g ≤ w.lastPosition g
    rw [lastPosition_eq (hok.graphs g)]
    exact (hok.graphs g).marker
  · rw [hsound, ← hstart]
    refine hrecoverable.met g ?_
    rw [hstart]
    exact identified_empty

/-- **A log that the gateway wrote can always be replayed.** -/
theorem Durable.replayable (h : Durable gw start w) (lost : List String) (hstart : start g = ∅) :
    Replayable gw.canonicalDigest g (w.lose lost) := by
  have hsound := @Durable.sound gw start w g h lost
  obtain ⟨⟨flipped, hok⟩, hrecoverable⟩ := h
  refine ⟨?_, fun c hc => ?_⟩
  · rw [hsound]
    exact (lastPosition_eq (hok.graphs g)).symm
  · obtain ⟨hmem, hgraph, -⟩ := checkpoint_mem hc
    have hholds := (hrecoverable.checkpoints c hmem).holds
    rw [hsound, hholds, hgraph, hstart]

end Loss

/-- **A lost graph comes back.** In every world that a run reaches, let the graph store lose any keys, a graph that the
log started among them. Through any number of starts of the service, stopped, broken off or dead at any call, with calls
beside them: a start that deals with the graph never leaves it gated, it leaves no record of a replay, and the graph has
the digest of the fold of its log; a replayed or resumed one is that fold with its marker at the head, so it is the graph
that was lost where that was caught up. -/
theorem lost_graph_recovers (gw : GraphWriteGateway) (live : String → Option StoredGraph)
    (calls : List (GatewayCall × List Fate)) (lost : List String) (g : String) (hg : g ∈ lost)
    (hstart : startOf live g = ∅) :
    let w := runCalls gw (World.initial live) calls
    0 < w.lastPosition g → ∀ w', Restarted gw g (w.lose lost) w' →
      ∀ (replayer : GraphReplayer) (fates : List Fate) (outcome : StartupOutcome),
        let out := startupGraph replayer g gw w' fates
        out.1 = .returned outcome →
          outcome ∈ [StartupOutcome.replayed, .resumed, .untouched] ∧ (out.2.1.stored g).replayState = none ∧
          gw.canonicalDigest (out.2.1.content g) = gw.canonicalDigest (applyAll ∅ (w.view g).logged) ∧
          (outcome ≠ .untouched → out.2.1.content g = applyAll ∅ (w.view g).logged ∧
            out.2.1.applied g = w.lastPosition g) ∧
          (w.applied g = w.lastPosition g → applyAll ∅ (w.view g).logged = w.content g) := by
  intro w hlogged w' hrestarted replayer fates outcome out hout
  have hdurable : Durable gw (startOf live) w := recoverable_run gw live calls
  have hready := hdurable.logReady lost hstart hlogged
  have hreplayable := hdurable.replayable lost hstart
  have hsound : (w.lose lost).sound g = (w.view g).logged := hdurable.sound lost
  have hgone : (w.lose lost).live g = none := if_pos hg
  have hleft := startup_recovers gw hready hgone hrestarted replayer fates hout
  have hfinished : ∀ {w'' : World}, Finished gw.canonicalDigest g (w.lose lost) w'' →
      w''.content g = applyAll ∅ (w.view g).logged ∧ w''.applied g = w.lastPosition g := by
    intro w'' hf
    rw [← hsound]
    exact ⟨hf.content, hf.marker⟩
  have hwas : w.applied g = w.lastPosition g → applyAll ∅ (w.view g).logged = w.content g := by
    intro hc
    obtain ⟨⟨flipped, hok⟩, -⟩ := hdurable
    have hcaught : (w.view g).CaughtUp := hc.trans (lastPosition_eq (hok.graphs g))
    rw [← hstart]
    exact ((hok.graphs g).content_eq hcaught).symm
  change StartupLeft gw.canonicalDigest g (w.lose lost) outcome out.2.1 at hleft
  cases outcome with
  | replayed =>
    obtain ⟨hcontent, hmarker⟩ := hfinished hleft.2
    exact ⟨by simp, hleft.1, by rw [hcontent], fun _ => ⟨hcontent, hmarker⟩, hwas⟩
  | resumed =>
    obtain ⟨hcontent, hmarker⟩ := hfinished hleft.2
    exact ⟨by simp, hleft.1, by rw [hcontent], fun _ => ⟨hcontent, hmarker⟩, hwas⟩
  | caughtUp => exact hleft.elim
  | untouched =>
    refine ⟨by simp, hleft.1, ?_, fun hne => absurd rfl hne, hwas⟩
    rcases hleft.2 with hf | ⟨hempty, c, hc, hgraph, hat, hdigest⟩
    · rw [(hfinished hf).1]
    · -- an empty graph that a checkpoint at the head vouches for
      have htrue := hdurable.2.checkpoints c hc
      have hlast : c.position = (w.view g).logged.length := by
        obtain ⟨⟨flipped, hok⟩, -⟩ := hdurable
        have hhead : c.position = w.lastPosition g := hat
        exact hhead.trans (lastPosition_eq (hok.graphs g))
      have hholds := htrue.holds
      rw [hdigest, hgraph, hstart, hlast, List.take_length] at hholds
      rw [← hholds]
      exact congrArg gw.canonicalDigest hempty
  | gated => exact absurd hreplayable hleft.2

/-- Two articles in one group, with a checkpoint after it. -/
def articleGroup : MutationGroup := ⟨"eu", [articleUpsert "1", articleUpsert "2"], [], true, by simp [articleUpsert]⟩

/-- A start that dies between two pages, after the group was applied and its graph lost. -/
noncomputable def articlesBrokenOff : World :=
  (startupGraph smallReplayer "eu" countingGateway
    ((runCalls countingGateway (World.initial fun _ => none) [(.submitGroup articleGroup, List.replicate 60 .done)]).lose
      ["eu"]) (List.replicate 14 .done)).2.1

/-- The next start resumes, and the graph is back. -/
theorem lost_graph_recovers_articles :
    let w := runCalls countingGateway (World.initial fun _ => none) [(.submitGroup articleGroup, List.replicate 60 .done)]
    let out := startupGraph smallReplayer "eu" countingGateway articlesBrokenOff (List.replicate 60 .done)
    out.2.1.content "eu" = applyAll ∅ (w.view "eu").logged ∧ (w.view "eu").logged = articleGroup.primitives := by
  have hrecovered := lost_graph_recovers countingGateway (fun _ => none)
    [(.submitGroup articleGroup, List.replicate 60 .done)] ["eu"] "eu" (List.mem_singleton_self _) rfl
    (by decide +kernel) articlesBrokenOff (.start smallReplayer _ .lost) smallReplayer (List.replicate 60 .done) .resumed
    (by decide +kernel)
  exact ⟨(hrecovered.2.2.2.1 (by decide)).1, by decide +kernel⟩

end PolicySystem
