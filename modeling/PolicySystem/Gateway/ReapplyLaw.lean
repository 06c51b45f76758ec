import PolicySystem.Gateway.Redo

/-!
# The re-apply law

A retry, a replay and a swap all apply entries over a graph that already holds part of their effect: a prefix of
them, and any of the queries of the run after it.

* `Foreign`: what a stamp does not meet: primitives at other pairs that delete none of its endpoints;
* `stamps_first`: stamps that nothing before them meets may all come first;
* `AllEffective.foreign`: in an effective list whose stamps come before the other primitives of their pair, nothing
  before a stamp meets it;
* `reapply_law`: **applying the entries over such a graph leaves what applying them once leaves.**
-/

namespace PolicySystem

open PropertyGraph GraphWrite

/-! ## What a stamp does not meet -/

/-- **A primitive a stamp does not meet**: it writes no edge of the stamped pair and deletes no end of it. -/
def Foreign (e : EdgeBase) : Primitive → Prop
  | .deleteNode node => node ≠ e.source ∧ node ≠ e.target
  | .upsertEdge edge _ => edge.unidentifiedKey ≠ e.unidentifiedKey
  | .deleteEdge edge => edge.unidentifiedKey ≠ e.unidentifiedKey
  | .stampEdgeIdentity edge => edge.unidentifiedKey ≠ e.unidentifiedKey
  | _ => True

variable {g : Graph} {e : EdgeBase} {p : Primitive} {ps qs : List Primitive}

theorem edgeKey_ne_of_pair {f : EdgeBase} (h : f.unidentifiedKey ≠ e.unidentifiedKey) : f.edgeKey ≠ e.edgeKey := by
  intro heq
  exact h (congrArg EdgeBase.unidentifiedKey (EdgeBase.edgeKey_injective heq))

/-- A write that leaves the two keys of a pair alone commutes with the pair's stamp. -/
theorem stampEdge_write_comm {w : GraphWrite NodeRef NodeContent EdgeKey PropertyMap}
    (h₁ : ∀ ends (m : Multiset PropertyMap), edgeStep e.unidentifiedKey ends m w = m)
    (h₂ : ∀ ends (m : Multiset PropertyMap), edgeStep e.edgeKey ends m w = m) :
    (stampEdge g e).write w = stampEdge (g.write w) e := by
  refine ext_at (fun n => ?_) fun k => ?_
  · rw [write_nodes, stampEdge_nodes, stampEdge_nodes, write_nodes]
  · rw [write_edgesAt, stampEdge_edgesAt, stampEdge_edgesAt, write_edgesAt, write_edgesAt, write_edgesAt, h₁, h₂]
    have hends : (stampEdge g e).hasEnds k = g.hasEnds k := rfl
    rw [hends]
    by_cases hbare : e.unidentifiedKey = k
    · subst hbare
      rw [if_pos rfl, if_pos rfl, h₁]
    · rw [if_neg hbare, if_neg hbare]
      by_cases hkey : e.edgeKey = k
      · subst hkey
        rw [if_pos rfl, if_pos rfl, h₂]
      · rw [if_neg hkey, if_neg hkey]

/-- Stamps of two pairs commute. -/
theorem stampEdge_comm {f : EdgeBase} (h : f.unidentifiedKey ≠ e.unidentifiedKey) :
    stampEdge (stampEdge g e) f = stampEdge (stampEdge g f) e := by
  have hkey := edgeKey_ne_of_pair h
  have hef := e.unidentifiedKey_ne_edgeKey f
  have hfe := f.unidentifiedKey_ne_edgeKey e
  refine ext_at (fun n => rfl) fun k => ?_
  simp only [stampEdge_edgesAt]
  by_cases h₁ : f.unidentifiedKey = k
  · subst h₁
    rw [if_pos rfl, if_neg h.symm, if_neg hfe.symm, if_pos rfl]
  · by_cases h₂ : f.edgeKey = k
    · subst h₂
      simp [hef, hkey.symm, h.symm, hfe.symm, h₁]
    · simp [h, hkey, hfe, hef.symm, h₁, h₂]

/-- **A primitive a stamp does not meet may as well come after it.** -/
theorem Foreign.comm (h : Foreign e p) (g : Graph) : applyOne (stampEdge g e) p = stampEdge (applyOne g p) e := by
  cases p with
  | upsertNode n props emb =>
    rw [applyOne_eq_write rfl, applyOne_eq_write rfl]
    exact stampEdge_write_comm (fun _ _ => rfl) fun _ _ => rfl
  | mergeProperty n props =>
    rw [applyOne_eq_write rfl, applyOne_eq_write rfl]
    exact stampEdge_write_comm (fun _ _ => rfl) fun _ _ => rfl
  | removeProperty n keys =>
    rw [applyOne_eq_write rfl, applyOne_eq_write rfl]
    exact stampEdge_write_comm (fun _ _ => rfl) fun _ _ => rfl
  | deleteNode n =>
    have hfree : ¬ (e.source = n ∨ e.target = n) := by
      rintro (hn | hn)
      · exact h.1 hn.symm
      · exact h.2 hn.symm
    rw [applyOne_eq_write rfl, applyOne_eq_write rfl]
    exact stampEdge_write_comm (fun _ _ => if_neg hfree) fun _ _ => if_neg hfree
  | upsertEdge f props =>
    rw [applyOne_eq_write rfl, applyOne_eq_write rfl]
    refine stampEdge_write_comm (fun _ _ => if_neg ?_) fun _ _ => if_neg (edgeKey_ne_of_pair h)
    exact (e.unidentifiedKey_ne_edgeKey f).symm
  | deleteEdge f =>
    rw [applyOne_eq_write rfl, applyOne_eq_write rfl]
    refine stampEdge_write_comm (fun _ _ => if_neg ?_) fun _ _ => if_neg (edgeKey_ne_of_pair h)
    exact (e.unidentifiedKey_ne_edgeKey f).symm
  | stampEdgeIdentity f => exact stampEdge_comm h

theorem applyAll_stampEdge (h : ∀ p ∈ ps, Foreign e p) (g : Graph) :
    applyAll (stampEdge g e) ps = stampEdge (applyAll g ps) e := by
  induction ps generalizing g with
  | nil => rfl
  | cons p ps ih =>
    rw [applyAll_cons, applyAll_cons, (h p (by simp)).comm, ih fun q hq => h q (List.mem_cons_of_mem p hq)]

/-- **Stamps may come before a list when each is a no-op or meets nothing of the list.** -/
theorem applyAll_stamps_comm {es : List EdgeBase}
    (h : ∀ e ∈ es, g.edgesAt e.unidentifiedKey = 0 ∨ ∀ p ∈ ps, Foreign e p) :
    applyAll (applyAll g ps) (es.map .stampEdgeIdentity) = applyAll (applyAll g (es.map .stampEdgeIdentity)) ps := by
  induction es generalizing g with
  | nil => rfl
  | cons e es ih =>
    rw [List.map_cons, applyAll_cons, applyAll_cons, applyOne_stamp, applyOne_stamp]
    have hrest : ∀ f ∈ es, (stampEdge g e).edgesAt f.unidentifiedKey = 0 ∨ ∀ p ∈ ps, Foreign f p := by
      intro f hf
      refine (h f (List.mem_cons_of_mem e hf)).imp_left fun hzero => ?_
      exact applyOne_unidentified rfl hzero (.stampEdgeIdentity e)
    rcases h e (by simp) with hzero | hforeign
    · have hafter := applyAll_unidentified rfl hzero ps
      rw [stampEdge_noop hafter, stampEdge_noop hzero]
      rw [stampEdge_noop hzero] at hrest
      exact ih hrest
    · rw [← applyAll_stampEdge hforeign]
      exact ih hrest

/-! ## Stamps first -/

/-- The edges a list stamps. -/
def stampsOf (ps : List Primitive) : List EdgeBase :=
  ps.filterMap fun
    | .stampEdgeIdentity edge => some edge
    | _ => none

/-- The primitives that are no stamps. -/
def unstamped (ps : List Primitive) : List Primitive := ps.filter fun p => !isStamp p

theorem mem_stampsOf : e ∈ stampsOf ps ↔ Primitive.stampEdgeIdentity e ∈ ps := by
  rw [stampsOf, List.mem_filterMap]
  constructor
  · rintro ⟨p, hp, he⟩
    cases p <;> simp at he
    exact he ▸ hp
  · intro h
    exact ⟨_, h, rfl⟩

theorem mem_unstamped : p ∈ unstamped ps ↔ p ∈ ps ∧ isStamp p = false := by
  simp [unstamped]

/-- No primitive before a stamp meets it, other stamps apart. -/
def StampsMeetNothing (ps : List Primitive) : Prop :=
  ∀ xs e ys, ps = xs ++ .stampEdgeIdentity e :: ys → ∀ p ∈ xs, isStamp p = false → Foreign e p

theorem StampsMeetNothing.tail (h : StampsMeetNothing (p :: ps)) : StampsMeetNothing ps := by
  intro xs e ys he q hq
  exact h (p :: xs) e ys (by rw [he]; rfl) q (List.mem_cons_of_mem p hq)

theorem StampsMeetNothing.head (h : StampsMeetNothing (p :: ps)) (hp : isStamp p = false) :
    ∀ e ∈ stampsOf ps, Foreign e p := by
  intro e he
  obtain ⟨xs, ys, hsplit⟩ := List.append_of_mem (mem_stampsOf.1 he)
  exact h (p :: xs) e ys (by rw [hsplit]; rfl) p (by simp) hp

/-- **Stamps that nothing before them meets may all come first.** -/
theorem stamps_first (h : StampsMeetNothing ps) (g : Graph) :
    applyAll g ps = applyAll (applyAll g ((stampsOf ps).map .stampEdgeIdentity)) (unstamped ps) := by
  induction ps generalizing g with
  | nil => rfl
  | cons p ps ih =>
    rw [applyAll_cons, ih h.tail]
    by_cases hp : isStamp p = true
    · cases p <;> simp [isStamp] at hp
      rfl
    · have hp' : isStamp p = false := by simpa using hp
      have hstamps : stampsOf (p :: ps) = stampsOf ps := by cases p <;> simp [isStamp] at hp' <;> rfl
      have hrest : unstamped (p :: ps) = p :: unstamped ps := by simp [unstamped, hp']
      rw [hstamps, hrest, applyAll_cons]
      have hcomm : applyAll (applyAll g [p]) ((stampsOf ps).map .stampEdgeIdentity) =
          applyAll (applyAll g ((stampsOf ps).map .stampEdgeIdentity)) [p] := by
        refine applyAll_stamps_comm fun e he => .inr ?_
        intro q hq
        rw [List.mem_singleton.1 hq]
        exact h.head hp' e he
      rw [applyAll_cons, applyAll_nil, applyAll_cons, applyAll_nil] at hcomm
      rw [hcomm]

/-! ## Effective lists -/

/-- A primitive that writes edges of the stamped pair. -/
def AtPair (e : EdgeBase) : Primitive → Prop
  | .upsertEdge edge _ => edge.unidentifiedKey = e.unidentifiedKey
  | .deleteEdge edge => edge.unidentifiedKey = e.unidentifiedKey
  | _ => False

/-- **A stamp comes before the other edge primitives of its pair.** -/
def StampsLead (ps : List Primitive) : Prop :=
  ∀ xs e ys, ps = xs ++ .stampEdgeIdentity e :: ys → ∀ p ∈ xs, ¬ AtPair e p

theorem AllEffective.at (h : AllEffective g (ps ++ p :: qs)) : applyOne (applyAll g ps) p ≠ applyAll g ps := by
  induction ps generalizing g with
  | nil => exact h.1
  | cons q ps ih => exact ih h.2

/-- A primitive whose node is missing does nothing. -/
theorem applyOne_missing (h : MissingNode g p) : applyOne g p = g := by
  cases p with
  | mergeProperty n props =>
    rw [applyOne_eq_write rfl]
    refine ext_at (fun m => ?_) fun k => by rw [write_edgesAt]; rfl
    rw [write_nodes, nodeStep]
    split
    · rename_i hm
      subst hm
      rw [getElem?_eq_none_of_notMem h]
      rfl
    · rfl
  | upsertEdge e props =>
    rw [applyOne_eq_write rfl]
    refine ext_at (fun m => by rw [write_nodes]; rfl) fun k => ?_
    rw [write_edgesAt, edgeStep]
    split
    · rename_i hk
      subst hk
      have hnone : g.edgesAt e.edgeKey = 0 := by
        rcases h with h | h
        · exact edgesAt_eq_zero_of_source h
        · exact edgesAt_eq_zero_of_target h
      have hends : g.hasEnds e.edgeKey = false := by
        rw [Bool.eq_false_iff, Ne, hasEnds_iff]
        rintro ⟨hs, ht⟩
        rcases h with h | h
        · exact h hs
        · exact h ht
      rw [hnone, hends]
      rfl
    · rfl
  | upsertNode n props emb => exact h.elim
  | removeProperty n keys => exact h.elim
  | deleteNode n => exact h.elim
  | deleteEdge e => exact h.elim
  | stampEdgeIdentity e => exact h.elim

/-- **An effective list is valid**: no primitive misses its node at its turn. -/
theorem AllEffective.valid (h : AllEffective g ps) : ¬ MissingInTurn g ps := by
  rintro ⟨xs, p, ys, rfl, hmissing⟩
  exact h.at (applyOne_missing hmissing)

/-- A stamp that does something finds an identity-less edge. -/
theorem AllEffective.stamp (h : AllEffective g (ps ++ .stampEdgeIdentity e :: qs)) :
    (applyAll g ps).edgesAt e.unidentifiedKey ≠ 0 := by
  intro hzero
  exact h.at (stampEdge_noop hzero)

/-- **In an effective list whose stamps lead, nothing before a stamp meets it**: an end deleted or a pair stamped
before would have left it no edge. -/
theorem AllEffective.foreign (h : AllEffective g ps) (hlead : StampsLead ps) {xs ys : List Primitive}
    (hsplit : ps = xs ++ .stampEdgeIdentity e :: ys) : ∀ p ∈ xs, Foreign e p := by
  intro p hp
  have hpair := hlead xs e ys hsplit p hp
  subst hsplit
  obtain ⟨as, bs, rfl⟩ := List.append_of_mem hp
  have hedge := h.stamp
  rw [applyAll_append, applyAll_cons] at hedge
  have hcleared : (applyOne (applyAll g as) p).edgesAt e.unidentifiedKey ≠ 0 :=
    fun hzero => hedge (applyAll_unidentified rfl hzero bs)
  cases p with
  | deleteNode n =>
    rw [applyOne_eq_write rfl, write_edgesAt, edgeStep] at hcleared
    refine ⟨fun hn => hcleared (if_pos (.inl hn.symm)), fun hn => hcleared (if_pos (.inr hn.symm))⟩
  | stampEdgeIdentity f =>
    intro hsame
    refine hcleared ?_
    rw [← hsame]
    exact stampEdge_clears _ f
  | upsertEdge f props => exact hpair
  | deleteEdge f => exact hpair
  | upsertNode n props emb => trivial
  | mergeProperty n props => trivial
  | removeProperty n keys => trivial

/-- Nothing before a stamp meets it, stamps of its own pair included. -/
def StampsApart (ps : List Primitive) : Prop :=
  ∀ xs e ys, ps = xs ++ .stampEdgeIdentity e :: ys → ∀ p ∈ xs, Foreign e p

theorem StampsApart.meetNothing (h : StampsApart ps) : StampsMeetNothing ps :=
  fun xs e ys hsplit p hp _ => h xs e ys hsplit p hp

/-- A stamp after a cut meets nothing before the cut. -/
theorem StampsApart.after (h : StampsApart (ps ++ qs)) (he : Primitive.stampEdgeIdentity e ∈ qs) :
    ∀ p ∈ ps, Foreign e p := by
  intro p hp
  obtain ⟨xs, ys, rfl⟩ := List.append_of_mem he
  exact h (ps ++ xs) e ys (by simp) p (List.mem_append_left xs hp)

theorem StampsApart.onePerPair (h : StampsApart ps) : OnePerPair (stampsOf ps) := by
  intro e he f hf hpair
  obtain ⟨xs, ys, hsplit⟩ := List.append_of_mem (mem_stampsOf.1 he)
  have hf := mem_stampsOf.1 hf
  rw [hsplit, List.mem_append, List.mem_cons] at hf
  rcases hf with hbefore | hhere | hafter
  · exact absurd hpair.symm (h xs e ys hsplit _ hbefore)
  · cases hhere
    rfl
  · have hcut : ps = (xs ++ [.stampEdgeIdentity e]) ++ ys := by rw [hsplit]; simp
    rw [hcut] at h
    have hapart : Foreign f (.stampEdgeIdentity e) := h.after hafter _ (by simp)
    exact absurd hpair hapart

/-! ## What a list needs -/

/-- A node is there after a list if it was before, or the list creates it. -/
theorem mem_applyAll_nodes {n : NodeRef} (h : n ∈ (applyAll g ps).nodes) :
    n ∈ g.nodes ∨ Creates (writesOf ps) n := by
  induction ps generalizing g with
  | nil => exact .inl h
  | cons p ps ih =>
    have hcreates : Creates (writesOf ps) n → Creates (writesOf (p :: ps)) n := by
      rintro ⟨f, hf⟩
      obtain ⟨q, hq, hqw⟩ := mem_writesOf.1 hf
      exact ⟨f, mem_writesOf.2 ⟨q, List.mem_cons_of_mem p hq, hqw⟩⟩
    rcases ih h with hone | hlater
    · cases hw : p.toWrite with
      | none =>
        cases p <;> simp [Primitive.toWrite] at hw
        exact .inl hone
      | some w =>
        rw [applyOne_eq_write hw] at hone
        by_cases hput : ∃ f, w = put n f
        · obtain ⟨f, rfl⟩ := hput
          exact .inr ⟨f, mem_writesOf.2 ⟨p, by simp, hw⟩⟩
        · refine .inl (by_contra fun hout => ?_)
          refine notMem_writeAll (E := [w]) ?_ hout hone
          rintro ⟨f, hf⟩
          exact hput ⟨f, (List.mem_singleton.1 hf).symm⟩
    · exact .inr (hcreates hlater)

/-- What a primitive needs is there, unless it misses its node. -/
theorem needs_present {w : GraphWrite NodeRef NodeContent EdgeKey PropertyMap} (hw : p.toWrite = some w) {n : NodeRef}
    (hn : Needs w n) (h : ¬ MissingNode g p) : n ∈ g.nodes := by
  cases p with
  | mergeProperty m props =>
    cases hw
    obtain ⟨rfl, -⟩ := hn
    exact not_not.1 h
  | removeProperty m keys =>
    cases hw
    exact absurd (remove_eq_iff.1 (by simp [default])) hn.2
  | upsertEdge f props =>
    cases hw
    have hends := not_or.1 h
    rcases hn with rfl | rfl
    · exact not_not.1 hends.1
    · exact not_not.1 hends.2
  | upsertNode m props emb => cases hw; exact hn.elim
  | deleteNode m => cases hw; exact hn.elim
  | deleteEdge f => cases hw; exact hn.elim
  | stampEdgeIdentity f => cases hw

theorem writesOf_unstamped (ps : List Primitive) : writesOf (unstamped ps) = writesOf ps := by
  induction ps with
  | nil => rfl
  | cons p ps ih =>
    cases p with
    | stampEdgeIdentity f => exact ih
    | _ => exact congrArg (_ :: ·) ih

/-- **A valid list is grounded**, wherever its stamps come. -/
theorem grounded_of_valid (h : ¬ MissingInTurn g ps) (es : List EdgeBase) :
    Grounded (applyAll g (es.map .stampEdgeIdentity)) (writesOf (unstamped ps)) := by
  rw [writesOf_unstamped]
  intro E₁ w E₂ hE n hn
  obtain ⟨xs, zs, rfl, hxs, hzs⟩ := List.filterMap_eq_append_iff.1 hE
  obtain ⟨as, p, ys, rfl, has, hp, -⟩ := List.filterMap_eq_cons_iff.1 hzs
  have hturn : ¬ MissingNode (applyAll g (xs ++ as)) p := fun hm => h ⟨xs ++ as, p, ys, by simp, hm⟩
  have hwrites : writesOf (xs ++ as) = E₁ := by
    rw [writesOf, List.filterMap_append, hxs, List.filterMap_eq_nil_iff.2 has, List.append_nil]
  rw [applyAll_stamps_nodes]
  rcases mem_applyAll_nodes (needs_present hp hn hturn) with hthere | hcreated
  · exact .inl hthere
  · rw [hwrites] at hcreated
    exact .inr (.inl hcreated)

/-! ## The law -/

/-- **Applying a list over some of its own effects.** The effects are those of primitives of the list in which each
stamp of the list either stands, or meets nothing. -/
theorem applyAll_again (hvalid : ¬ MissingInTurn g ps) (hapart : StampsApart ps) (hsub : ∀ p ∈ qs, p ∈ ps)
    (hqs : StampsMeetNothing qs) (hnew : ∀ e ∈ stampsOf ps, e ∈ stampsOf qs ∨ ∀ p ∈ unstamped qs, Foreign e p) :
    applyAll (applyAll g qs) ps = applyAll g ps := by
  have hstamps : applyAll (applyAll g qs) ((stampsOf ps).map .stampEdgeIdentity) =
      applyAll (applyAll g ((stampsOf ps).map .stampEdgeIdentity)) (unstamped qs) := by
    rw [stamps_first hqs, applyAll_stamps_comm]
    · -- the stamps of `qs` are among those of `ps`: all of them after some of them are all of them
      have hsame : ∀ e, e ∈ stampsOf qs ++ stampsOf ps ↔ e ∈ stampsOf ps := by
        intro e
        rw [List.mem_append]
        exact ⟨fun h => h.elim (fun h => mem_stampsOf.2 (hsub _ (mem_stampsOf.1 h))) id, .inr⟩
      have hcongr := applyAll_stamps_congr hapart.onePerPair hsame g
      rw [List.map_append, applyAll_append] at hcongr
      rw [hcongr]
    · intro e he
      refine (hnew e he).imp_left fun hdone => ?_
      exact applyAll_clears (List.mem_map_of_mem hdone) g
  rw [stamps_first hapart.meetNothing, stamps_first hapart.meetNothing, hstamps]
  have hfree : ∀ rs : List Primitive, ∀ p ∈ unstamped rs, isStamp p = false := fun rs p hp => (mem_unstamped.1 hp).2
  rw [applyAll_eq_writeAll (hfree qs), applyAll_eq_writeAll (hfree ps), applyAll_eq_writeAll (hfree ps)]
  refine reapply (writesOf_overwriting _) (fun w hw => ?_) (grounded_of_valid hvalid _)
  rw [writesOf_unstamped] at hw ⊢
  obtain ⟨p, hp, hpw⟩ := mem_writesOf.1 hw
  exact mem_writesOf.2 ⟨p, hsub p hp, hpw⟩

/-- The queries of the run an apply of the entries begins with. -/
def nextQueries (batchSize : ℕ) (entries : List Positioned) : List (List Positioned) :=
  match runs entries with
  | [] => []
  | run :: _ => chunksOf run batchSize

/-- Send queries one after the other. -/
def sendAll (queries : List (List Positioned)) (g : Graph) : Graph :=
  queries.foldl (fun g chunk => applyChunk g (chunk.map Prod.snd)) g

section Cut

variable {done run : List Positioned} {queries : List (List Positioned)} {batchSize : ℕ} {rs : List Primitive}

/-- What the queries of a run write are entries of the run, one at a time. -/
theorem sendAll_eq (hb : 1 ≤ batchSize) (hrun : IsRun (run.map Prod.snd))
    (hqueries : ∀ chunk ∈ queries, chunk ∈ chunksOf run batchSize) (g : Graph) :
    sendAll queries g = applyAll g (queries.flatten.map Prod.snd) := by
  induction queries generalizing g with
  | nil => rfl
  | cons chunk queries ih =>
    have hone := applyChunk_eq hb hrun (hqueries chunk (by simp)) g
    have hrest := ih fun c hc => hqueries c (List.mem_cons_of_mem chunk hc)
    show sendAll queries (applyChunk g (chunk.map Prod.snd)) = _
    rw [hrest, hone, List.flatten_cons, List.map_append, applyAll_append]

theorem mem_of_query (hb : 1 ≤ batchSize) (hqueries : ∀ chunk ∈ queries, chunk ∈ chunksOf run batchSize)
    {p : Primitive} (hp : p ∈ queries.flatten.map Prod.snd) : p ∈ run.map Prod.snd := by
  obtain ⟨x, hx, rfl⟩ := List.mem_map.1 hp
  obtain ⟨chunk, hchunk, hx⟩ := List.mem_flatten.1 hx
  refine List.mem_map_of_mem ((chunksOf_flatten_perm hb run).mem_iff.1 ?_)
  exact List.mem_flatten.2 ⟨chunk, hqueries chunk hchunk, hx⟩

/-- A run that holds a stamp holds nothing else. -/
theorem IsRun.all_stamps (h : IsRun ps) (he : Primitive.stampEdgeIdentity e ∈ ps) (hp : p ∈ ps) : isStamp p = true := by
  have hkey := h.sameKey _ he _ hp
  cases p <;> simp [runKey] at hkey
  rfl

/-- A stamp still to come meets nothing that was applied, nor anything of the next run but stamps. -/
theorem StampsApart.pending (h : StampsApart (ps ++ (qs ++ rs))) (hrun : IsRun qs)
    (he : Primitive.stampEdgeIdentity e ∈ qs ++ rs) (hp : p ∈ ps ∨ p ∈ qs) (hno : isStamp p = false) : Foreign e p := by
  rcases hp with hp | hp
  · exact h.after he p hp
  · rcases List.mem_append.1 he with hin | hlater
    · exact absurd (hrun.all_stamps hin hp) (by simp [hno])
    · rw [← List.append_assoc] at h
      exact h.after hlater p (List.mem_append_right ps hp)

/-- **Applying entries over a prefix of them and some queries of the next run.** -/
theorem applyAll_over_partial (hb : 1 ≤ batchSize) (hrun : IsRun (run.map Prod.snd))
    (hvalid : ¬ MissingInTurn g (done.map Prod.snd ++ (run.map Prod.snd ++ rs)))
    (hapart : StampsApart (done.map Prod.snd ++ (run.map Prod.snd ++ rs)))
    (hqueries : ∀ chunk ∈ queries, chunk ∈ chunksOf run batchSize) :
    applyAll (sendAll queries (applyAll g (done.map Prod.snd))) (done.map Prod.snd ++ (run.map Prod.snd ++ rs)) =
      applyAll g (done.map Prod.snd ++ (run.map Prod.snd ++ rs)) := by
  rw [sendAll_eq hb hrun hqueries, ← applyAll_append g (done.map Prod.snd) (queries.flatten.map Prod.snd)]
  have hin : ∀ p, p ∈ done.map Prod.snd ++ queries.flatten.map Prod.snd →
      p ∈ done.map Prod.snd ∨ p ∈ run.map Prod.snd := by
    intro p hp
    exact (List.mem_append.1 hp).imp_right (mem_of_query hb hqueries)
  refine applyAll_again hvalid hapart (fun p hp => ?_) ?_ fun e he => ?_
  · rcases hin p hp with hp | hp
    · exact List.mem_append_left _ hp
    · exact List.mem_append_right _ (List.mem_append_left _ hp)
  · -- a stamp that took effect stands in the prefix, or opens the next run with other stamps only
    intro xs e ys hsplit p hp hno
    rcases List.append_eq_append_iff.1 hsplit with ⟨as, hxs, has⟩ | ⟨bs, hdone, hbs⟩
    · have he : Primitive.stampEdgeIdentity e ∈ run.map Prod.snd :=
        mem_of_query hb hqueries (has ▸ List.mem_append_right as (by simp))
      refine hapart.pending hrun (List.mem_append_left rs he) ?_ hno
      exact hin p (hsplit ▸ List.mem_append_left _ hp)
    · cases bs with
      | nil =>
        rw [List.append_nil] at hdone
        have he : Primitive.stampEdgeIdentity e ∈ run.map Prod.snd :=
          mem_of_query hb hqueries (by rw [List.nil_append] at hbs; rw [← hbs]; simp)
        refine hapart.pending hrun (List.mem_append_left rs he) (.inl ?_) hno
        rw [hdone]
        exact hp
      | cons b bs =>
        obtain rfl : Primitive.stampEdgeIdentity e = b := (List.cons.inj hbs).1
        exact hapart xs e (bs ++ (run.map Prod.snd ++ rs)) (by rw [hdone]; simp) p hp
  · have he := mem_stampsOf.1 he
    rcases List.mem_append.1 he with hdone | hpending
    · exact .inl (mem_stampsOf.2 (List.mem_append_left _ hdone))
    · refine .inr fun p hp => ?_
      obtain ⟨hp, hno⟩ := mem_unstamped.1 hp
      exact hapart.pending hrun hpending (hin p hp) hno

end Cut

theorem recordApply_graph {batchSize : ℕ} (hb : 1 ≤ batchSize) (entries : List Positioned) (g : Graph) :
    (recordApply batchSize entries g).graph = applyAll g (entries.map Prod.snd) :=
  (batched_apply_eq_one_by_one batchSize hb entries g).1

/-- **The re-apply law.** The entries are effective on the graph, and so valid, and their stamps lead. Over what any
prefix of them and any of the queries of the next run leave, applying them all leaves what it leaves over the graph
itself. -/
theorem reapply_law {g : Graph} {entries done rest : List Positioned} {batchSize : ℕ} (hb : 1 ≤ batchSize)
    (heffective : AllEffective g (entries.map Prod.snd)) (hlead : StampsLead (entries.map Prod.snd))
    (hentries : entries = done ++ rest) {queries : List (List Positioned)}
    (hqueries : ∀ chunk ∈ queries, chunk ∈ nextQueries batchSize rest) :
    (recordApply batchSize entries (sendAll queries (recordApply batchSize done g).graph)).graph =
      (recordApply batchSize entries g).graph := by
  rw [recordApply_graph hb, recordApply_graph hb, recordApply_graph hb]
  have hvalid := heffective.valid
  have hapart : StampsApart (entries.map Prod.snd) := fun xs e ys hsplit => heffective.foreign hlead hsplit
  cases hruns : runs rest with
  | nil =>
    -- nothing is left to apply: the prefix is the whole list
    have hnone : queries = [] := by
      refine List.eq_nil_iff_forall_not_mem.2 fun chunk hchunk => ?_
      have := hqueries chunk hchunk
      rw [nextQueries, hruns] at this
      simp at this
    have hrest : rest = [] := by rw [← runs_flatten rest, hruns]; rfl
    have hall : entries = done := by rw [hentries, hrest, List.append_nil]
    subst hall
    rw [hnone]
    exact applyAll_again hvalid hapart (fun p hp => hp) hapart.meetNothing fun e he => .inl he
  | cons run others =>
    have hrun : IsRun (run.map Prod.snd) := mem_runs (by rw [hruns]; exact List.mem_cons_self)
    have hchunks : ∀ chunk ∈ queries, chunk ∈ chunksOf run batchSize := by
      intro chunk hchunk
      have := hqueries chunk hchunk
      rwa [nextQueries, hruns] at this
    have hsplit : entries.map Prod.snd = done.map Prod.snd ++ (run.map Prod.snd ++ others.flatten.map Prod.snd) := by
      rw [hentries, ← runs_flatten rest, hruns, List.flatten_cons, List.map_append, List.map_append]
    rw [hsplit] at hvalid hapart ⊢
    exact applyAll_over_partial hb hrun hvalid hapart hchunks

/-- A legacy edge is given its identity, reviewed and deleted. -/
def reviewedAndDeleted : List Positioned :=
  [(1, .stampEdgeIdentity legacyEdge), (2, .upsertEdge legacyEdge reviewed), (3, .deleteEdge legacyEdge)]

theorem reviewedAndDeleted_lead : StampsLead (reviewedAndDeleted.map Prod.snd) := by
  intro xs e ys hsplit p hp
  rcases xs with _ | ⟨a, _ | ⟨b, _ | ⟨c, xs⟩⟩⟩
  · simp at hp
  · simp [reviewedAndDeleted] at hsplit
  · simp [reviewedAndDeleted] at hsplit
  · simp [reviewedAndDeleted] at hsplit

theorem reapply_law_legacy :
    (recordApply 10 reviewedAndDeleted (sendAll [[(2, .upsertEdge legacyEdge reviewed)]]
      (recordApply 10 [(1, .stampEdgeIdentity legacyEdge)] legacyGraph).graph)).graph =
      (recordApply 10 reviewedAndDeleted legacyGraph).graph :=
  @reapply_law legacyGraph reviewedAndDeleted [(1, .stampEdgeIdentity legacyEdge)]
    [(2, .upsertEdge legacyEdge reviewed), (3, .deleteEdge legacyEdge)] 10 (by decide)
    ⟨by decide, by decide, by decide, trivial⟩ reviewedAndDeleted_lead rfl _ (by decide)

end PolicySystem
