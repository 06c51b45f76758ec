import PolicySystem.CompanyMerge.Dedup
import PolicySystem.Faults.Run

/-!
# What a dedup run decides

The live dedup of Company Merge, with scores of a linear order.

* `Tracks`: the working index is the existing nodes and the nodes minted so far, whatever embeddings were computed;
* `Decision.Sound`: one node's resolution and near miss, against the scores of its candidates;
* `dedupe_sound`: every run's resolutions and near misses are sound decisions.
-/

namespace PolicySystem

/-! ## The first of the greatest -/

section Max

variable {α Score : Type} [LinearOrder Score] {key : α → Score}

theorem maxBy_concat (items : List α) (y : α) :
    maxBy key (items ++ [y]) =
      match maxBy key items with
      | none => some y
      | some x => some (if key x < key y then y else x) := by
  cases items with
  | nil => rfl
  | cons x xs => simp [maxBy, List.foldl_append]

/-- Of two lists of items: the best of the second where it is greater, else the best of the first. -/
theorem maxBy_append (items more : List α) :
    maxBy key (items ++ more) =
      match maxBy key items, maxBy key more with
      | none, best => best
      | best, none => best
      | some x, some y => some (if key x < key y then y else x) := by
  induction more using List.reverseRecOn with
  | nil =>
    rw [List.append_nil]
    cases h : maxBy key items <;> rfl
  | append_singleton more y ih =>
    rw [← List.append_assoc, maxBy_concat, ih, maxBy_concat]
    cases hitems : maxBy key items with
    | none => cases maxBy key more <;> rfl
    | some x =>
      cases hmore : maxBy key more with
      | none => rfl
      | some z =>
        simp only [Option.some.injEq]
        split_ifs <;> first | rfl | order

theorem maxBy_le {items : List α} {x : α} (h : maxBy key items = some x) : ∀ y ∈ items, key y ≤ key x := by
  induction items using List.reverseRecOn generalizing x with
  | nil => cases h
  | append_singleton items y ih =>
    rw [maxBy_concat] at h
    intro z hz
    cases hbest : maxBy key items with
    | none =>
      rw [hbest] at h
      have hnil : items = [] := by
        by_contra hne
        obtain ⟨w, hw⟩ := @maxBy_isSome _ _ _ _ key items hne
        rw [hbest] at hw
        cases hw
      rw [hnil, List.nil_append, List.mem_singleton] at hz
      rw [hz, Option.some.inj h]
    | some w =>
      rw [hbest] at h
      have hx := Option.some.inj h
      rcases List.mem_append.1 hz with hmem | hmem
      · have hle := ih hbest z hmem
        rw [← hx]
        split
        · order
        · exact hle
      · rw [List.mem_singleton.1 hmem, ← hx]
        split
        · exact le_rfl
        · order

theorem maxBy_eq_none {items : List α} (h : maxBy key items = none) : items = [] := by
  by_contra hne
  obtain ⟨w, hw⟩ := @maxBy_isSome _ _ _ _ key items hne
  rw [h] at hw
  cases hw

end Max

set_option linter.unusedSectionVars false

section Sound

variable {Emb Score : Type} [LinearOrder Score]

/-! ## Scores -/

/-- The vector of a text: the cached one, or the one `route_embedding` answers. -/
def vector (calls : DedupCalls Emb Score) (cached : Option Emb) (text : String) : Except DedupError Emb :=
  match cached with
  | some embedding => .ok embedding
  | none => calls.routeEmbedding text

/-- The score of a candidate for an incoming text. -/
def candidateScore (calls : DedupCalls Emb Score) (cached : Option Emb) (text : String)
    (candidate : ExistingCanonicalNode Emb) : Except DedupError Score := do
  let own ← vector calls cached text
  let other ← vector calls candidate.embedding candidate.text
  calls.cosineSimilarity own other

/-- Two entries of one id, text and vector: one may have its vector cached. -/
structure SameEntry (calls : DedupCalls Emb Score) (entry candidate : ExistingCanonicalNode Emb) : Prop where
  id : entry.id = candidate.id
  text : entry.text = candidate.text
  vector : vector calls entry.embedding entry.text = vector calls candidate.embedding candidate.text

/-- The working index holds the candidates, each under one id. -/
structure Tracks (calls : DedupCalls Emb Score) (index candidates : List (ExistingCanonicalNode Emb)) : Prop where
  same : List.Forall₂ (SameEntry calls) index candidates
  nodup : (index.map ExistingCanonicalNode.id).Nodup

variable {calls : DedupCalls Emb Score} {index candidates : List (ExistingCanonicalNode Emb)}
  {entry candidate : ExistingCanonicalNode Emb} {own : Emb} {scored : List (String × Score)} {computed : List (String × Emb)}

theorem Tracks.ids (h : Tracks calls index candidates) :
    index.map ExistingCanonicalNode.id = candidates.map ExistingCanonicalNode.id := by
  have hsame := h.same
  clear h
  induction hsame with
  | nil => rfl
  | cons hentry _ ih => rw [List.map_cons, List.map_cons, hentry.id, ih]

theorem candidateEmbedding_ok {found : Emb × List (String × Emb)}
    (h : candidateEmbedding calls entry = .ok found) :
    vector calls entry.embedding entry.text = .ok found.1 ∧
      ∀ c ∈ found.2, c.1 = entry.id ∧ vector calls entry.embedding entry.text = .ok c.2 := by
  unfold candidateEmbedding at h
  unfold vector
  cases hcached : entry.embedding with
  | some embedding =>
    rw [hcached] at h
    cases h
    exact ⟨rfl, fun c hc => by cases hc⟩
  | none =>
    rw [hcached] at h
    cases hroute : calls.routeEmbedding entry.text with
    | error e =>
      rw [hroute] at h
      cases h
    | ok embedding =>
      rw [hroute] at h
      cases h
      refine ⟨rfl, fun c hc => ?_⟩
      rw [List.mem_singleton.1 hc]
      exact ⟨rfl, rfl⟩

/-- The scan scores every entry, and computes only vectors of entries. -/
theorem scoreEntries_ok (h : scoreEntries calls own index = .ok (scored, computed)) :
    List.Forall₂ (fun entry p => entry.id = p.1 ∧
      ∃ other, vector calls entry.embedding entry.text = .ok other ∧ calls.cosineSimilarity own other = .ok p.2)
      index scored ∧
    ∀ c ∈ computed, ∃ entry ∈ index, c.1 = entry.id ∧ vector calls entry.embedding entry.text = .ok c.2 := by
  induction index generalizing scored computed with
  | nil =>
    cases h
    exact ⟨.nil, fun c hc => by cases hc⟩
  | cons entry index ih =>
    unfold scoreEntries at h
    obtain ⟨found, hfound, h⟩ := bind_ok.1 h
    obtain ⟨score, hscore, h⟩ := bind_ok.1 h
    obtain ⟨rest, hrest, h⟩ := bind_ok.1 h
    cases h
    obtain ⟨hvector, hcomputed⟩ := candidateEmbedding_ok hfound
    obtain ⟨hscored, hothers⟩ := ih hrest
    refine ⟨.cons ⟨rfl, _, hvector, hscore⟩ hscored, fun c hc => ?_⟩
    rcases List.mem_append.1 hc with hc | hc
    · exact ⟨entry, List.mem_cons_self, hcomputed c hc⟩
    · obtain ⟨other, hother, heq⟩ := hothers c hc
      exact ⟨other, List.mem_cons_of_mem _ hother, heq⟩

/-! ## The working index -/

theorem forall₂_imp_mem {α β : Type} {R S : α → β → Prop} {xs : List α} {ys : List β}
    (himp : ∀ x ∈ xs, ∀ y, R x y → S x y) (h : List.Forall₂ R xs ys) : List.Forall₂ S xs ys := by
  induction h with
  | nil => exact .nil
  | cons hhead _ ih => exact .cons (himp _ List.mem_cons_self _ hhead) (ih fun x hx => himp x (List.mem_cons_of_mem _ hx))

theorem exists_of_forall₂ {α β : Type} {R : α → β → Prop} {xs : List α} {ys : List β} (h : List.Forall₂ R xs ys) {x : α}
    (hx : x ∈ xs) : ∃ y ∈ ys, R x y := by
  induction h with
  | nil => cases hx
  | cons hhead _ ih =>
    rcases List.mem_cons.1 hx with rfl | hx
    · exact ⟨_, List.mem_cons_self, hhead⟩
    · obtain ⟨y, hy, hR⟩ := ih hx
      exact ⟨y, List.mem_cons_of_mem _ hy, hR⟩

theorem exists_of_forall₂' {α β : Type} {R : α → β → Prop} {xs : List α} {ys : List β} (h : List.Forall₂ R xs ys) {y : β}
    (hy : y ∈ ys) : ∃ x ∈ xs, R x y := exists_of_forall₂ h.flip hy

/-- An entry whose vector was computed still tracks its candidate. -/
theorem Tracks.fold (h : Tracks calls index candidates) (hentry : entry ∈ index)
    {embedding : Emb} (hvector : vector calls entry.embedding entry.text = .ok embedding) :
    Tracks calls (putNode index ⟨entry.id, entry.text, some embedding⟩) candidates := by
  have hmem : entry.id ∈ index.map ExistingCanonicalNode.id := List.mem_map_of_mem hentry
  have hput : putNode index ⟨entry.id, entry.text, some embedding⟩ =
      index.map fun m => if m.id = entry.id then ⟨entry.id, entry.text, some embedding⟩ else m := if_pos hmem
  have hunique : ∀ m ∈ index, m.id = entry.id → m = entry := by
    intro m hm heq
    exact List.inj_on_of_nodup_map h.nodup hm hentry heq
  rw [hput]
  constructor
  · rw [List.forall₂_map_left_iff]
    refine forall₂_imp_mem (fun m hm c hmc => ?_) h.same
    split
    · rename_i heq
      obtain rfl := hunique m hm heq
      exact ⟨hmc.id, hmc.text, hvector.symm.trans hmc.vector⟩
    · exact hmc
  · have hids : (index.map fun m => if m.id = entry.id then ⟨entry.id, entry.text, some embedding⟩ else m).map
        ExistingCanonicalNode.id = index.map ExistingCanonicalNode.id := by
      rw [List.map_map]
      refine List.map_congr_left fun m _ => ?_
      simp only [Function.comp]
      split
      · rename_i heq
        exact heq.symm
      · rfl
    rw [hids]
    exact h.nodup

theorem Tracks.mint (h : Tracks calls index candidates) (hnew : entry.id ∉ index.map ExistingCanonicalNode.id)
    (hsame : SameEntry calls entry candidate) : Tracks calls (putNode index entry) (candidates ++ [candidate]) := by
  rw [putNode_new hnew]
  refine ⟨List.rel_append h.same (.cons hsame .nil), ?_⟩
  rw [List.map_append, List.map_singleton, ← List.concat_eq_append]
  exact h.nodup.concat hnew

/-! ## A scan -/

/-- The scores of the candidates for an incoming text, in their order. -/
def Scored (calls : DedupCalls Emb Score) (cached : Option Emb) (text : String)
    (candidates : List (ExistingCanonicalNode Emb)) (scored : List (String × Score)) : Prop :=
  List.Forall₂ (fun candidate p => candidate.id = p.1 ∧ candidateScore calls cached text candidate = .ok p.2)
    candidates scored

/-- A vector of a candidate that was computed. -/
def Computed (calls : DedupCalls Emb Score) (candidates : List (ExistingCanonicalNode Emb)) (c : String × Emb) : Prop :=
  ∃ candidate ∈ candidates, c.1 = candidate.id ∧ vector calls candidate.embedding candidate.text = .ok c.2

variable {cached : Option Emb} {text : String} {eligibleIds originalIds : List String} {node : BaselineNode Emb}
  {s s' : DedupState Emb Score} {result : Option (SemanticMatchResult Emb Score)} {kind : ReviewableKind}
  {thresholds : ReviewThresholds Score}

/-- The scores of the entries are the scores of the candidates. -/
theorem scored_of_same (hvector : vector calls cached text = .ok own) (hsame : List.Forall₂ (SameEntry calls) index candidates)
    (hscored : List.Forall₂ (fun entry p => entry.id = p.1 ∧
      ∃ other, vector calls entry.embedding entry.text = .ok other ∧ calls.cosineSimilarity own other = .ok p.2)
      index scored) : Scored calls cached text candidates scored := by
  induction hsame generalizing scored with
  | nil =>
    cases hscored
    exact .nil
  | cons hentry _ ih =>
    cases hscored with
    | cons hhead hrest =>
      obtain ⟨hid, other, hother, hscore⟩ := hhead
      refine .cons ⟨hentry.id.symm.trans hid, ?_⟩ (ih hrest)
      rw [hentry.vector] at hother
      simp only [candidateScore, hvector, hother, bind, Except.bind]
      exact hscore

/-- What a scan makes of the scores. -/
def bestOf (eligibleIds : List String) (own : Emb) (found : List (String × Score) × List (String × Emb)) :
    Option (SemanticMatchResult Emb Score) :=
  (maxBy Prod.snd found.1).map fun best =>
    { bestExistingId := best.1
      bestSimilarity := best.2
      bestEligible := maxBy Prod.snd (found.1.filter fun pair => pair.1 ∈ eligibleIds)
      incomingEmbedding := own
      newlyComputed := found.2 }

theorem findBest_eq (hne : index.isEmpty = false) :
    findBestSemanticMatch calls text index eligibleIds cached =
      (vector calls cached text >>= fun own => scoreEntries calls own index >>= fun found =>
        .ok (bestOf eligibleIds own found)) := by
  unfold findBestSemanticMatch
  rw [hne]
  cases cached <;> rfl

/-- What `find_best_semantic_match` answers: nothing for an empty index, else the best of the candidates. -/
theorem findBest_ok (h : findBestSemanticMatch calls text index eligibleIds cached = .ok result)
    (htracks : Tracks calls index candidates) :
    (candidates = [] ∧ result = none) ∨ ∃ r scored, result = some r ∧ Scored calls cached text candidates scored ∧
      maxBy Prod.snd scored = some (r.bestExistingId, r.bestSimilarity) ∧
      r.bestEligible = maxBy Prod.snd (scored.filter fun p => p.1 ∈ eligibleIds) ∧
      vector calls cached text = .ok r.incomingEmbedding ∧ ∀ c ∈ r.newlyComputed, Computed calls candidates c := by
  cases hne : index.isEmpty with
  | true =>
    obtain rfl := List.isEmpty_iff.1 hne
    cases h
    have hids := htracks.ids
    exact .inl ⟨List.map_eq_nil_iff.1 hids.symm, rfl⟩
  | false =>
    rw [findBest_eq hne] at h
    obtain ⟨own, hvector, h⟩ := bind_ok.1 h
    obtain ⟨found, hfound, h⟩ := bind_ok.1 h
    cases h
    obtain ⟨hscored, hcomputed⟩ := scoreEntries_ok hfound
    have hscores := scored_of_same hvector htracks.same hscored
    have hnonempty : found.1 ≠ [] := by
      rintro hnil
      rw [hnil] at hscored
      cases hscored
      cases hne
    obtain ⟨best, hbest⟩ := @maxBy_isSome _ _ _ _ Prod.snd found.1 hnonempty
    refine .inr ⟨_, found.1, by rw [bestOf, hbest]; rfl, hscores, hbest, rfl, hvector, fun c hc => ?_⟩
    obtain ⟨entry, hentry, hid, hvec⟩ := hcomputed c hc
    obtain ⟨candidate, hcandidate, hsame⟩ := exists_of_forall₂ htracks.same hentry
    exact ⟨candidate, hcandidate, hid.trans hsame.id, hsame.vector.symm.trans hvec⟩

/-- A computed vector is folded into the index. -/
theorem foldComputed_ok {c : String × Emb} (htracks : Tracks calls s.index candidates) (hc : Computed calls candidates c) :
    ∃ s', foldComputed originalIds s c = .ok s' ∧ Tracks calls s'.index candidates ∧
      s'.resolutions = s.resolutions ∧ s'.nearMisses = s.nearMisses := by
  obtain ⟨candidate, hcandidate, hid, hvector⟩ := hc
  obtain ⟨entry, hentry, hsame⟩ := exists_of_forall₂' htracks.same hcandidate
  have htext : entryText s.index c.1 = .ok entry.text := by
    rw [hid, ← hsame.id]
    exact entryText_of_nodup htracks.nodup hentry
  have hfold := htracks.fold hentry (hsame.vector.trans hvector)
  unfold foldComputed
  rw [htext]
  refine ⟨_, rfl, ?_, rfl, rfl⟩
  rw [hid, ← hsame.id]
  exact hfold

theorem foldComputeds_ok {cs : List (String × Emb)} (htracks : Tracks calls s.index candidates)
    (hcs : ∀ c ∈ cs, Computed calls candidates c) :
    ∃ s', cs.foldlM (foldComputed originalIds) s = .ok s' ∧ Tracks calls s'.index candidates ∧
      s'.resolutions = s.resolutions ∧ s'.nearMisses = s.nearMisses := by
  induction cs generalizing s with
  | nil => exact ⟨s, rfl, htracks, rfl, rfl⟩
  | cons c cs ih =>
    obtain ⟨s₁, hstep, htracks₁, hresolutions, hmisses⟩ := @foldComputed_ok _ _ _ _ _ originalIds s c htracks
      (hcs c List.mem_cons_self)
    obtain ⟨s₂, hrest, htracks₂, hresolutions₂, hmisses₂⟩ := ih htracks₁ fun d hd => hcs d (List.mem_cons_of_mem _ hd)
    refine ⟨s₂, ?_, htracks₂, hresolutions₂.trans hresolutions, hmisses₂.trans hmisses⟩
    rw [List.foldlM_cons, hstep]
    exact hrest

/-- The fold of a scan changes no decision and keeps the index tracking the candidates. -/
theorem foldResult_ok (htracks : Tracks calls s.index candidates)
    (hcomputed : ∀ r, result = some r → ∀ c ∈ r.newlyComputed, Computed calls candidates c) :
    ∃ s', foldResult originalIds node s result = .ok s' ∧ Tracks calls s'.index candidates ∧
      s'.resolutions = s.resolutions ∧ s'.nearMisses = s.nearMisses := by
  cases result with
  | none => exact ⟨s, rfl, htracks, rfl, rfl⟩
  | some r =>
    obtain ⟨s', hfold, htracks', hresolutions, hmisses⟩ :=
      @foldComputeds_ok _ _ _ _ _ originalIds s r.newlyComputed htracks (hcomputed r rfl)
    simp only [foldResult, foldSemanticMatchResult, hfold, bind, Except.bind, pure, Except.pure]
    refine ⟨_, rfl, ?_⟩
    split
    · exact ⟨htracks', hresolutions, hmisses⟩
    · exact ⟨htracks', hresolutions, hmisses⟩

/-! ## Decisions -/

/-- What a run decides of one node, with the scores it went by. -/
structure Decision (Emb Score : Type) where
  node : BaselineNode Emb
  text : String
  scored : List (String × Score)
  resolution : CanonicalResolution Emb Score
  nearMiss : Option (NearMissPair Score)

/-- The nodes that a run has minted. -/
def minted (past : List (Decision Emb Score)) : List (ExistingCanonicalNode Emb) :=
  (past.filter (·.resolution.matchKind = .new)).map fun d => ⟨d.node.id, d.text, d.node.embedding⟩

/-- A decision is sound: a node that is there resolves to itself; a merge names the best existing node, at or above the
merge threshold, and cites a mint of the same run that is strictly nearer; a mint cites its best candidate at or above
the review floor. -/
structure Decision.Sound (calls : DedupCalls Emb Score) (kind : ReviewableKind) (thresholds : ReviewThresholds Score)
    (existing mints : List (ExistingCanonicalNode Emb)) (d : Decision Emb Score) : Prop where
  text : incomingText d.node kind = .ok d.text
  incoming : d.resolution.incomingId = d.node.id
  scores : d.resolution.matchKind ≠ .exact →
    Scored calls d.node.embedding d.text (indexOf existing ++ mints) d.scored
  exact_iff : d.resolution.matchKind = .exact ↔ d.node.id ∈ (indexOf existing ++ mints).map ExistingCanonicalNode.id
  exact : d.resolution.matchKind = .exact → d.resolution.canonicalId = d.node.id ∧ d.nearMiss = none
  minted : d.resolution.matchKind = .new → d.resolution.canonicalId = d.node.id ∧
    (kind.rule = .mergeAbove → ∀ threshold, thresholds.merge = some threshold →
      ∀ p ∈ d.scored, p.1 ∈ existing.map ExistingCanonicalNode.id → p.2 < threshold) ∧
    (d.nearMiss.isSome = true ↔
      ∃ best, (∃ p ∈ d.scored, p.2 = best) ∧ (∀ p ∈ d.scored, p.2 ≤ best) ∧ clearsReviewFloor best thresholds = true)
  merged : d.resolution.matchKind = .semantic → kind.rule = .mergeAbove ∧
    d.resolution.canonicalId ∈ existing.map ExistingCanonicalNode.id ∧
    d.resolution.canonicalId ∉ mints.map ExistingCanonicalNode.id ∧
    ∃ threshold score, thresholds.merge = some threshold ∧ d.resolution.similarity = some score ∧
      (d.resolution.canonicalId, score) ∈ d.scored ∧
      (∀ p ∈ d.scored, p.1 ∈ existing.map ExistingCanonicalNode.id → p.2 ≤ score) ∧ threshold ≤ score ∧
      (d.nearMiss.isSome = true ↔
        ∃ p ∈ d.scored, p.1 ∈ mints.map ExistingCanonicalNode.id ∧ score < p.2 ∧ threshold ≤ p.2)
  cited : ∀ miss, d.nearMiss = some miss → miss.incomingId = d.node.id ∧ miss.incomingText = d.text ∧
    (miss.nearestExistingId, miss.similarity) ∈ d.scored ∧ ∀ p ∈ d.scored, p.2 ≤ miss.similarity

section Step

variable {existing mints : List (ExistingCanonicalNode Emb)} {r : SemanticMatchResult Emb Score}

/-- The existing nodes come first among the candidates, and no mint has the id of an existing node. -/
theorem Scored.split (h : Scored calls cached text (indexOf existing ++ mints) scored)
    (hnodup : ((indexOf existing ++ mints).map ExistingCanonicalNode.id).Nodup) :
    ∃ old new, scored = old ++ new ∧ (∀ p ∈ old, p.1 ∈ existing.map ExistingCanonicalNode.id) ∧
      ∀ p ∈ new, p.1 ∈ mints.map ExistingCanonicalNode.id ∧ p.1 ∉ existing.map ExistingCanonicalNode.id := by
  refine ⟨_, _, (List.take_append_drop (indexOf existing).length scored).symm, ?_, ?_⟩
  · intro p hp
    obtain ⟨candidate, hcandidate, hid, -⟩ := exists_of_forall₂ (List.forall₂_take_append _ _ _ (List.Forall₂.flip h)) hp
    rw [← (indexOf_ids existing).2, ← hid]
    exact List.mem_map_of_mem hcandidate
  · intro p hp
    obtain ⟨candidate, hcandidate, hid, -⟩ := exists_of_forall₂ (List.forall₂_drop_append _ _ _ (List.Forall₂.flip h)) hp
    have hmint : p.1 ∈ mints.map ExistingCanonicalNode.id := hid ▸ List.mem_map_of_mem hcandidate
    refine ⟨hmint, fun hold => ?_⟩
    rw [List.map_append, List.nodup_append] at hnodup
    exact hnodup.2.2 _ (((indexOf_ids existing).2 _).2 hold) _ hmint rfl

/-- The eligible best and the overall best differ only by a mint that is strictly nearer. -/
theorem eligible_best {old new : List (String × Score)} {target : String × Score} {threshold : Score}
    (hold : ∀ p ∈ old, p.1 ∈ existing.map ExistingCanonicalNode.id)
    (hnew : ∀ p ∈ new, p.1 ∈ mints.map ExistingCanonicalNode.id ∧ p.1 ∉ existing.map ExistingCanonicalNode.id)
    (hbest : maxBy Prod.snd (old ++ new) = some (r.bestExistingId, r.bestSimilarity))
    (htarget : maxBy Prod.snd old = some target) (hthreshold : threshold ≤ target.2) :
    (r.bestExistingId ≠ target.1 ∧ threshold ≤ r.bestSimilarity) ↔
      ∃ p ∈ old ++ new, p.1 ∈ mints.map ExistingCanonicalNode.id ∧ target.2 < p.2 ∧ threshold ≤ p.2 := by
  have htargetOld := hold target (maxBy_mem htarget)
  rw [maxBy_append, htarget] at hbest
  cases hmint : maxBy Prod.snd new with
  | none =>
    rw [hmint] at hbest
    obtain rfl := maxBy_eq_none hmint
    have heq : target = (r.bestExistingId, r.bestSimilarity) := Option.some.inj hbest
    constructor
    · rintro ⟨hne, -⟩
      exact absurd (congrArg Prod.fst heq).symm hne
    · rintro ⟨p, hp, -, hlt, -⟩
      rw [List.append_nil] at hp
      exact absurd (maxBy_le htarget p hp) (not_le.2 hlt)
  | some best =>
    rw [hmint] at hbest
    have hbestNew := hnew best (maxBy_mem hmint)
    have heq : (if target.2 < best.2 then best else target) = (r.bestExistingId, r.bestSimilarity) :=
      Option.some.inj hbest
    constructor
    · rintro ⟨hne, hle⟩
      split at heq
      · rename_i hlt
        refine ⟨best, List.mem_append_right _ (maxBy_mem hmint), hbestNew.1, hlt, ?_⟩
        rw [heq]
        exact hle
      · exact absurd (congrArg Prod.fst heq).symm hne
    · rintro ⟨p, hp, hmints, hlt, -⟩
      have hpNew : p ∈ new := by
        rcases List.mem_append.1 hp with hp | hp
        · exact absurd (maxBy_le htarget p hp) (not_le.2 hlt)
        · exact hp
      have hnearer : target.2 < best.2 := lt_of_lt_of_le hlt (maxBy_le hmint p hpNew)
      rw [if_pos hnearer] at heq
      have hid : best.1 = r.bestExistingId := congrArg Prod.fst heq
      have hsimilarity : best.2 = r.bestSimilarity := congrArg Prod.snd heq
      refine ⟨fun hsame => ?_, ?_⟩
      · rw [← hsame, ← hid] at htargetOld
        exact hbestNew.2 htargetOld
      · rw [← hsimilarity]
        exact hthreshold.trans hnearer.le

/-- The scan of a node that is not there yet, as its merge target sees it. -/
theorem mergeTarget_some {target : String × Score} (h : mergeTarget result thresholds.merge = some target) :
    ∃ r threshold, result = some r ∧ thresholds.merge = some threshold ∧ r.bestEligible = some target ∧
      threshold ≤ target.2 := by
  unfold mergeTarget at h
  split at h
  · rename_i best threshold hbest hthreshold
    obtain ⟨r, hr, heligible⟩ := Option.bind_eq_some_iff.1 hbest
    split at h
    · cases h
    · rename_i hle
      cases h
      exact ⟨r, threshold, hr, hthreshold, heligible, not_lt.1 hle⟩
  · cases h

theorem mergeTarget_none {threshold : Score} (h : mergeTarget result thresholds.merge = none) (hresult : result = some r)
    (hthreshold : thresholds.merge = some threshold) : ∀ target, r.bestEligible = some target → target.2 < threshold := by
  intro target htarget
  unfold mergeTarget at h
  rw [hresult, hthreshold, Option.bind_some, htarget] at h
  simp only at h
  split at h
  · assumption
  · cases h

/-- A candidate has its text in the index. -/
theorem entryText_found (htracks : Tracks calls index candidates) {id : String}
    (hid : id ∈ candidates.map ExistingCanonicalNode.id) : ∃ found, entryText index id = .ok found := by
  rw [← htracks.ids] at hid
  obtain ⟨entry, hentry, rfl⟩ := List.mem_map.1 hid
  exact ⟨entry.text, entryText_of_nodup htracks.nodup hentry⟩

theorem Scored.id_mem (h : Scored calls cached text candidates scored) {p : String × Score} (hp : p ∈ scored) :
    p.1 ∈ candidates.map ExistingCanonicalNode.id := by
  obtain ⟨candidate, hcandidate, hid, -⟩ := exists_of_forall₂' h hp
  exact hid ▸ List.mem_map_of_mem hcandidate

/-- What a scan of the candidates found. -/
structure Scan (calls : DedupCalls Emb Score) (kind : ReviewableKind) (existing mints : List (ExistingCanonicalNode Emb))
    (node : BaselineNode Emb) (text : String) (scored : List (String × Score)) (r : SemanticMatchResult Emb Score) :
    Prop where
  scores : Scored calls node.embedding text (indexOf existing ++ mints) scored
  best : maxBy Prod.snd scored = some (r.bestExistingId, r.bestSimilarity)
  eligible : r.bestEligible = maxBy Prod.snd (scored.filter fun p =>
    p.1 ∈ eligibleMergeTargets kind (existing.map ExistingCanonicalNode.id))
  vector : vector calls node.embedding text = .ok r.incomingEmbedding

/-- Below the threshold, every eligible candidate is. -/
theorem Scan.below (hscan : Scan calls kind existing mints node text scored r) (hrule : kind.rule = .mergeAbove)
    {threshold : Score} (hbelow : ∀ target, r.bestEligible = some target → target.2 < threshold) :
    ∀ p ∈ scored, p.1 ∈ existing.map ExistingCanonicalNode.id → p.2 < threshold := by
  intro p hp hid
  have hmem : p ∈ scored.filter fun p => p.1 ∈ eligibleMergeTargets kind (existing.map ExistingCanonicalNode.id) := by
    refine List.mem_filter.2 ⟨hp, ?_⟩
    unfold eligibleMergeTargets
    rw [if_neg (by rw [hrule]; decide)]
    exact decide_eq_true hid
  obtain ⟨target, htarget⟩ := @maxBy_isSome _ _ _ _ Prod.snd _ (List.ne_nil_of_mem hmem)
  exact lt_of_le_of_lt (maxBy_le htarget p hmem) (hbelow target (hscan.eligible.trans htarget))

/-- The decision of a mint. -/
def mintDecision (node : BaselineNode Emb) (text : String) (scored : List (String × Score)) (own : Option Emb)
    (nearMiss : Option (NearMissPair Score)) : Decision Emb Score :=
  ⟨node, text, scored, ⟨node.id, node.id, .new, own, none⟩, nearMiss⟩

theorem minted_mintDecision (own : Option Emb) (nearMiss : Option (NearMissPair Score)) :
    PolicySystem.minted [mintDecision node text scored own nearMiss] = [⟨node.id, text, node.embedding⟩] := rfl

/-- A node that mints where there is no candidate. -/
theorem mint_first (htracks : Tracks calls s.index (indexOf existing ++ mints))
    (htext : incomingText node kind = .ok text) (hnew : node.id ∉ s.index.map ExistingCanonicalNode.id)
    (hempty : indexOf existing ++ mints = []) :
    ∃ d s', mintNode thresholds node text none s = .ok s' ∧ d.node = node ∧ d.Sound calls kind thresholds existing mints ∧
      s'.resolutions = s.resolutions ++ [d.resolution] ∧ s'.nearMisses = s.nearMisses ++ d.nearMiss.toList ∧
      Tracks calls s'.index (indexOf existing ++ mints ++ PolicySystem.minted [d]) := by
  refine ⟨mintDecision node text [] node.embedding none, _, rfl, rfl, ?_, rfl, (List.append_nil _).symm,
    htracks.mint hnew ⟨rfl, rfl, rfl⟩⟩
  refine
    { text := htext
      incoming := rfl
      scores := fun _ => by rw [hempty]; exact .nil
      exact_iff := ⟨fun h => (by cases h), fun h => (by rw [hempty] at h; cases h)⟩
      exact := fun h => by cases h
      minted := fun _ => ⟨rfl, fun _ _ _ p hp => (by cases hp), fun h => (by cases h), ?_⟩
      merged := fun h => by cases h
      cited := fun _ h => by cases h }
  rintro ⟨best, ⟨p, hp, -⟩, -⟩
  cases hp

/-- A node that mints next to candidates. -/
theorem mint_sound (htracks : Tracks calls s.index (indexOf existing ++ mints))
    (htext : incomingText node kind = .ok text) (hnew : node.id ∉ s.index.map ExistingCanonicalNode.id)
    (hscan : Scan calls kind existing mints node text scored r)
    (htarget : mergeTarget (some r) thresholds.merge = none) :
    ∃ d s', mintNode thresholds node text (some r) s = .ok s' ∧ d.node = node ∧
      d.Sound calls kind thresholds existing mints ∧
      s'.resolutions = s.resolutions ++ [d.resolution] ∧ s'.nearMisses = s.nearMisses ++ d.nearMiss.toList ∧
      Tracks calls s'.index (indexOf existing ++ mints ++ PolicySystem.minted [d]) := by
  have hnotin : node.id ∉ (indexOf existing ++ mints).map ExistingCanonicalNode.id := by
    rw [← htracks.ids]
    exact hnew
  have hput : Tracks calls (putNode s.index ⟨node.id, text, some r.incomingEmbedding⟩)
      (indexOf existing ++ mints ++ [⟨node.id, text, node.embedding⟩]) :=
    htracks.mint hnew ⟨rfl, rfl, hscan.vector.symm⟩
  have hmem : (r.bestExistingId, r.bestSimilarity) ∈ scored := maxBy_mem hscan.best
  obtain ⟨found, hfound⟩ : ∃ found, entryText (putNode s.index ⟨node.id, text, some r.incomingEmbedding⟩)
      r.bestExistingId = .ok found := entryText_found hput (by rw [List.map_append]; exact List.mem_append_left _ (hscan.scores.id_mem hmem))
  -- whatever is cited, the mint is sound if it cites the best candidate at or above the floor
  have hsound : ∀ nearMiss : Option (NearMissPair Score),
      (nearMiss.isSome = true ↔ clearsReviewFloor r.bestSimilarity thresholds = true) →
      (∀ miss, nearMiss = some miss → miss = PolicySystem.nearMiss node text r.bestExistingId found r.bestSimilarity) →
      (mintDecision node text scored (some r.incomingEmbedding) nearMiss).Sound calls kind thresholds existing mints := by
    intro nearMiss hcites hmiss
    refine
      { text := htext
        incoming := rfl
        scores := fun _ => hscan.scores
        exact_iff := ⟨fun h => (by cases h), fun h => absurd h hnotin⟩
        exact := fun h => by cases h
        minted := fun _ => ⟨rfl, fun hrule threshold hthreshold =>
          hscan.below hrule (mergeTarget_none htarget rfl hthreshold), hcites.trans ⟨fun hclears => ?_, ?_⟩⟩
        merged := fun h => by cases h
        cited := fun miss h => ?_ }
    · exact ⟨_, ⟨_, hmem, rfl⟩, maxBy_le hscan.best, hclears⟩
    · rintro ⟨best, ⟨p, hp, rfl⟩, hgreatest, hclears⟩
      have heq : p.2 = r.bestSimilarity := le_antisymm (maxBy_le hscan.best p hp) (hgreatest _ hmem)
      rw [← heq]
      exact hclears
    · rw [hmiss miss h]
      exact ⟨rfl, rfl, hmem, maxBy_le hscan.best⟩
  by_cases hclears : clearsReviewFloor r.bestSimilarity thresholds = true
  · refine ⟨mintDecision node text scored (some r.incomingEmbedding)
      (some (nearMiss node text r.bestExistingId found r.bestSimilarity)),
      { s with
        resolutions := s.resolutions ++ [⟨node.id, node.id, .new, some r.incomingEmbedding, none⟩]
        index := putNode s.index ⟨node.id, text, some r.incomingEmbedding⟩
        nearMisses := s.nearMisses ++ [nearMiss node text r.bestExistingId found r.bestSimilarity] },
      ?_, rfl, hsound _ (by simp [hclears]) fun miss h => (Option.some.inj h).symm, rfl, rfl, hput⟩
    simp only [mintNode, hclears, if_true, hfound, bind, Except.bind, pure, Except.pure]
  · refine ⟨mintDecision node text scored (some r.incomingEmbedding) none,
      { s with
        resolutions := s.resolutions ++ [⟨node.id, node.id, .new, some r.incomingEmbedding, none⟩]
        index := putNode s.index ⟨node.id, text, some r.incomingEmbedding⟩ },
      ?_, rfl, hsound _ (by simp [hclears]) fun miss h => (by cases h), rfl, (List.append_nil _).symm, hput⟩
    simp only [mintNode, hclears, pure, Except.pure]
    rfl

/-- **A node that merges.** -/
theorem merge_sound (htracks : Tracks calls s.index (indexOf existing ++ mints))
    (htext : incomingText node kind = .ok text) (hnew : node.id ∉ s.index.map ExistingCanonicalNode.id)
    (hscan : Scan calls kind existing mints node text scored r) {target : String × Score}
    (htarget : mergeTarget (some r) thresholds.merge = some target) :
    ∃ (d : Decision Emb Score) (s' : DedupState Emb Score), mergeNode thresholds node text (some r) target s = .ok s' ∧ d.node = node ∧
      d.Sound calls kind thresholds existing mints ∧
      s'.resolutions = s.resolutions ++ [d.resolution] ∧ s'.nearMisses = s.nearMisses ++ d.nearMiss.toList ∧
      s'.index = s.index ∧ d.resolution.matchKind = .semantic := by
  have hnotin : node.id ∉ (indexOf existing ++ mints).map ExistingCanonicalNode.id := by
    rw [← htracks.ids]
    exact hnew
  obtain ⟨_, threshold, hr, hmerge, heligible, hle⟩ := mergeTarget_some htarget
  obtain rfl := Option.some.inj hr
  have hfilter : maxBy Prod.snd (scored.filter fun p =>
      p.1 ∈ eligibleMergeTargets kind (existing.map ExistingCanonicalNode.id)) = some target :=
    hscan.eligible.symm.trans heligible
  have hrule : kind.rule = .mergeAbove := by
    cases hkind : kind.rule with
    | mergeAbove => rfl
    | reviewOnly =>
      unfold eligibleMergeTargets at hfilter
      rw [if_pos hkind] at hfilter
      simp [maxBy] at hfilter
  obtain ⟨old, new, hsplit, hold, hnewer⟩ := hscan.scores.split (htracks.ids ▸ htracks.nodup)
  -- the eligible candidates are the existing nodes
  have holdFilter : scored.filter (fun p =>
      p.1 ∈ eligibleMergeTargets kind (existing.map ExistingCanonicalNode.id)) = old := by
    unfold eligibleMergeTargets
    rw [if_neg (by rw [hrule]; decide), hsplit, List.filter_append, List.filter_eq_self.2, List.filter_eq_nil_iff.2,
      List.append_nil]
    · intro p hp
      simpa using (hnewer p hp).2
    · intro p hp
      simpa using hold p hp
  rw [holdFilter] at hfilter
  have hcite := eligible_best hold hnewer (hsplit ▸ hscan.best) hfilter hle
  rw [← hsplit] at hcite
  have hbest : (r.bestExistingId, r.bestSimilarity) ∈ scored := maxBy_mem hscan.best
  obtain ⟨found, hfound⟩ := entryText_found htracks (hscan.scores.id_mem hbest)
  have htargetMem : target ∈ scored := by
    rw [hsplit]
    exact List.mem_append_left _ (maxBy_mem hfilter)
  have hsound : ∀ nearMiss : Option (NearMissPair Score),
      (nearMiss.isSome = true ↔ r.bestExistingId ≠ target.1 ∧ threshold ≤ r.bestSimilarity) →
      (∀ miss, nearMiss = some miss → miss = PolicySystem.nearMiss node text r.bestExistingId found r.bestSimilarity) →
      (⟨node, text, scored, ⟨node.id, target.1, .semantic, none, some target.2⟩, nearMiss⟩ : Decision Emb Score).Sound
        calls kind thresholds existing mints := by
    intro nearMiss hcites hmiss
    refine
      { text := htext
        incoming := rfl
        scores := fun _ => hscan.scores
        exact_iff := ⟨fun h => (by cases h), fun h => absurd h hnotin⟩
        exact := fun h => by cases h
        minted := fun h => by cases h
        merged := fun _ => ⟨hrule, hold target (maxBy_mem hfilter), fun hmint => ?_, threshold, target.2, hmerge, rfl,
          htargetMem, fun p hp hid => ?_, hle, hcites.trans hcite⟩
        cited := fun miss h => ?_ }
    · have hnodup := htracks.nodup
      rw [htracks.ids, List.map_append, List.nodup_append] at hnodup
      exact hnodup.2.2 _ (((indexOf_ids existing).2 _).2 (hold target (maxBy_mem hfilter))) _ hmint rfl
    · rw [hsplit] at hp
      rcases List.mem_append.1 hp with hp | hp
      · exact maxBy_le hfilter p hp
      · exact absurd hid (hnewer p hp).2
    · rw [hmiss miss h]
      exact ⟨rfl, rfl, hbest, maxBy_le hscan.best⟩
  by_cases hmiss : r.bestExistingId ≠ target.1 ∧ threshold ≤ r.bestSimilarity
  · refine ⟨_, { s with
        resolutions := s.resolutions ++ [⟨node.id, target.1, .semantic, none, some target.2⟩]
        nearMisses := s.nearMisses ++ [nearMiss node text r.bestExistingId found r.bestSimilarity] },
      ?_, rfl, hsound (some (nearMiss node text r.bestExistingId found r.bestSimilarity)) (by simp [hmiss])
        fun miss h => (Option.some.inj h).symm, rfl, rfl, rfl, rfl⟩
    simp only [mergeNode, hmerge, recordExcludedMint, if_pos hmiss, hfound, bind, Except.bind, pure, Except.pure]
  · refine ⟨_, { s with resolutions := s.resolutions ++ [⟨node.id, target.1, .semantic, none, some target.2⟩] },
      ?_, rfl, hsound none (by simpa using hmiss) fun miss h => (by cases h), rfl, (List.append_nil _).symm, rfl, rfl⟩
    simp only [mergeNode, hmerge, recordExcludedMint, if_neg hmiss]

/-! ## The loop -/

/-- **One round**, once the node has its text and the scan answers. -/
theorem dedupeNode_sound (htracks : Tracks calls s.index (indexOf existing ++ mints))
    (htext : incomingText node kind = .ok text)
    (hfind : findBestSemanticMatch calls text s.index
      (eligibleMergeTargets kind (existing.map ExistingCanonicalNode.id)) node.embedding = .ok result ∨
      node.id ∈ s.index.map ExistingCanonicalNode.id) :
    ∃ d s', dedupeNode calls kind thresholds (existing.map ExistingCanonicalNode.id) s node = .ok s' ∧ d.node = node ∧
      d.Sound calls kind thresholds existing mints ∧
      s'.resolutions = s.resolutions ++ [d.resolution] ∧ s'.nearMisses = s.nearMisses ++ d.nearMiss.toList ∧
      Tracks calls s'.index (indexOf existing ++ mints ++ PolicySystem.minted [d]) := by
  unfold dedupeNode
  simp only [htext, bind, Except.bind]
  by_cases hmem : node.id ∈ s.index.map ExistingCanonicalNode.id
  · rw [if_pos (by simpa [resolveExactMatch] using hmem)]
    refine ⟨⟨node, text, [], exactResolution node, none⟩, _, rfl, rfl, ?_, rfl, (List.append_nil _).symm, ?_⟩
    · refine
        { text := htext
          incoming := rfl
          scores := fun h => absurd rfl h
          exact_iff := ⟨fun _ => ?_, fun _ => rfl⟩
          exact := fun _ => ⟨rfl, rfl⟩
          minted := fun h => by cases h
          merged := fun h => by cases h
          cited := fun _ h => by cases h }
      rw [← htracks.ids]
      exact hmem
    · exact (List.append_nil (indexOf existing ++ mints)).symm ▸ htracks
  · replace hfind := hfind.resolve_right hmem
    rw [if_neg (by simpa [resolveExactMatch] using hmem)]
    simp only [hfind]
    rcases findBest_ok hfind htracks with ⟨hempty, rfl⟩ | ⟨r, scored, rfl, hscored, hbest, heligible, hvector, hcomputed⟩
    · exact mint_first htracks htext hmem hempty
    · have hscan : Scan calls kind existing mints node text scored r := ⟨hscored, hbest, heligible, hvector⟩
      obtain ⟨s₁, hfold, htracks₁, hresolutions, hmisses⟩ :=
        @foldResult_ok _ _ _ _ _ (existing.map ExistingCanonicalNode.id) node s (some r) htracks
          (fun r' h c hc => hcomputed c (Option.some.inj h ▸ hc))
      have hmem₁ : node.id ∉ s₁.index.map ExistingCanonicalNode.id := by
        rw [htracks₁.ids, ← htracks.ids]
        exact hmem
      simp only [hfold]
      cases htarget : mergeTarget (some r) thresholds.merge with
      | none =>
        obtain ⟨d, s', hmint, hnode, hsound, hres, hmiss, htracks'⟩ := mint_sound htracks₁ htext hmem₁ hscan htarget
        exact ⟨d, s', hmint, hnode, hsound, hresolutions ▸ hres, hmisses ▸ hmiss, htracks'⟩
      | some target =>
        obtain ⟨d, s', hmerge, hnode, hsound, hres, hmiss, hindex, hkind⟩ :=
          merge_sound htracks₁ htext hmem₁ hscan htarget
        refine ⟨d, s', hmerge, hnode, hsound, hresolutions ▸ hres, hmisses ▸ hmiss, ?_⟩
        have hnone : PolicySystem.minted [d] = [] := by simp [PolicySystem.minted, hkind]
        rw [hnone, List.append_nil, hindex]
        exact htracks₁

/-- Decisions that are sound, each after those before it. -/
def SoundRun (calls : DedupCalls Emb Score) (kind : ReviewableKind) (thresholds : ReviewThresholds Score)
    (existing : List (ExistingCanonicalNode Emb)) (decisions : List (Decision Emb Score)) : Prop :=
  Interleaved.Throughout (fun past d => d.Sound calls kind thresholds existing (PolicySystem.minted past)) decisions

theorem minted_append (past more : List (Decision Emb Score)) :
    PolicySystem.minted (past ++ more) = PolicySystem.minted past ++ PolicySystem.minted more := by
  simp [PolicySystem.minted]

/-- The state of the loop after some decisions. -/
structure Reached (calls : DedupCalls Emb Score) (kind : ReviewableKind) (thresholds : ReviewThresholds Score)
    (existing : List (ExistingCanonicalNode Emb)) (decisions : List (Decision Emb Score)) (s : DedupState Emb Score) :
    Prop where
  tracks : Tracks calls s.index (indexOf existing ++ PolicySystem.minted decisions)
  sound : SoundRun calls kind thresholds existing decisions
  resolutions : s.resolutions = decisions.map Decision.resolution
  nearMisses : s.nearMisses = decisions.filterMap Decision.nearMiss

theorem reached_start : Reached calls kind thresholds existing ([] : List (Decision Emb Score)) { index := indexOf existing } where
  tracks := by
    rw [show PolicySystem.minted ([] : List (Decision Emb Score)) = [] from rfl, List.append_nil]
    refine ⟨?_, (indexOf_ids existing).1⟩
    exact List.forall₂_same.2 fun _ _ => ⟨rfl, rfl, rfl⟩
  sound past d future h := by simp at h
  resolutions := rfl
  nearMisses := rfl

theorem Reached.next {past : List (Decision Emb Score)} {d : Decision Emb Score}
    (h : Reached calls kind thresholds existing past s)
    (hsound : d.Sound calls kind thresholds existing (PolicySystem.minted past))
    (hresolutions : s'.resolutions = s.resolutions ++ [d.resolution])
    (hmisses : s'.nearMisses = s.nearMisses ++ d.nearMiss.toList)
    (htracks : Tracks calls s'.index (indexOf existing ++ PolicySystem.minted past ++ PolicySystem.minted [d])) :
    Reached calls kind thresholds existing (past ++ [d]) s' where
  tracks := by
    rw [minted_append, ← List.append_assoc]
    exact htracks
  sound := h.sound.snoc hsound
  resolutions := by rw [hresolutions, h.resolutions, List.map_append, List.map_singleton]
  nearMisses := by
    rw [hmisses, h.nearMisses, List.filterMap_append]
    cases hmiss : d.nearMiss <;> simp [hmiss]

/-- **The loop decides soundly.** -/
theorem loop_sound {nodes : List (BaselineNode Emb)} {past : List (Decision Emb Score)}
    (h : Reached calls kind thresholds existing past s)
    (hrun : nodes.foldlM (dedupeNode calls kind thresholds (existing.map ExistingCanonicalNode.id)) s = .ok s') :
    ∃ more, more.map Decision.node = nodes ∧ Reached calls kind thresholds existing (past ++ more) s' := by
  induction nodes generalizing past s with
  | nil =>
    cases hrun
    exact ⟨[], rfl, by rwa [List.append_nil]⟩
  | cons node nodes ih =>
    rw [List.foldlM_cons] at hrun
    obtain ⟨s₁, hstep, hrest⟩ := bind_ok.1 hrun
    have hround : ∃ text result, incomingText node kind = .ok text ∧
        (findBestSemanticMatch calls text s.index
          (eligibleMergeTargets kind (existing.map ExistingCanonicalNode.id)) node.embedding = .ok result ∨
          node.id ∈ s.index.map ExistingCanonicalNode.id) := by
      have hcopy := hstep
      unfold dedupeNode at hcopy
      obtain ⟨text, htext, hcopy⟩ := bind_ok.1 hcopy
      split at hcopy
      · rename_i hexact
        exact ⟨text, none, htext, .inr (by simpa [resolveExactMatch] using hexact)⟩
      · obtain ⟨result, hfind, -⟩ := bind_ok.1 hcopy
        exact ⟨text, result, htext, .inl hfind⟩
    obtain ⟨text, result, htext, hfind⟩ := hround
    obtain ⟨d, s₂, hstep', hnode, hsound, hres, hmiss, htracks⟩ :=
      @dedupeNode_sound _ _ _ _ _ _ _ _ _ thresholds _ _ h.tracks htext hfind
    rw [hstep] at hstep'
    cases hstep'
    obtain ⟨more, hmore, hreached⟩ := ih (h.next hsound hres hmiss htracks) hrest
    refine ⟨d :: more, by rw [List.map_cons, hnode, hmore], ?_⟩
    rwa [List.append_assoc, List.singleton_append] at hreached

end Step

/-! ## Total calls -/

/-- Calls that never raise. -/
structure DedupCalls.Total (calls : DedupCalls Emb Score) : Prop where
  similarity : ∀ a b, ∃ score, calls.cosineSimilarity a b = .ok score
  embedding : ∀ text, ∃ embedding, calls.routeEmbedding text = .ok embedding

theorem DedupCalls.Total.vector (h : calls.Total) (cached : Option Emb) (text : String) :
    ∃ embedding, PolicySystem.vector calls cached text = .ok embedding := by
  cases cached with
  | some embedding => exact ⟨embedding, rfl⟩
  | none => exact h.embedding text

theorem DedupCalls.Total.scoreEntries (h : calls.Total) (own : Emb) (index : List (ExistingCanonicalNode Emb)) :
    ∃ found, PolicySystem.scoreEntries calls own index = .ok found := by
  induction index with
  | nil => exact ⟨_, rfl⟩
  | cons entry index ih =>
    obtain ⟨found, hfound⟩ := ih
    have hcandidate : ∃ candidate, candidateEmbedding calls entry = .ok candidate := by
      unfold candidateEmbedding
      split
      · exact ⟨_, rfl⟩
      · obtain ⟨embedding, hembedding⟩ := h.embedding entry.text
        exact ⟨_, by rw [hembedding]; rfl⟩
    obtain ⟨candidate, hcandidate⟩ := hcandidate
    obtain ⟨score, hscore⟩ := h.similarity own candidate.1
    refine ⟨((entry.id, score) :: found.1, candidate.2 ++ found.2), ?_⟩
    simp only [PolicySystem.scoreEntries, hcandidate, hscore, hfound, bind, Except.bind]
    rfl

theorem DedupCalls.Total.findBest (h : calls.Total) (text : String) (index : List (ExistingCanonicalNode Emb))
    (eligibleIds : List String) (cached : Option Emb) :
    ∃ result, findBestSemanticMatch calls text index eligibleIds cached = .ok result := by
  cases hne : index.isEmpty with
  | true =>
    obtain rfl := List.isEmpty_iff.1 hne
    exact ⟨none, rfl⟩
  | false =>
    obtain ⟨own, hown⟩ := h.vector cached text
    obtain ⟨found, hfound⟩ := h.scoreEntries own index
    refine ⟨bestOf eligibleIds own found, ?_⟩
    rw [findBest_eq hne, hown]
    simp only [bind, Except.bind, hfound]

theorem loop_total (h : calls.Total) {existing : List (ExistingCanonicalNode Emb)} {nodes : List (BaselineNode Emb)}
    {past : List (Decision Emb Score)} (hreached : Reached calls kind thresholds existing past s)
    (htexts : ∀ node ∈ nodes, ∃ text, incomingText node kind = .ok text) :
    ∃ s', nodes.foldlM (dedupeNode calls kind thresholds (existing.map ExistingCanonicalNode.id)) s = .ok s' := by
  induction nodes generalizing past s with
  | nil => exact ⟨s, rfl⟩
  | cons node nodes ih =>
    obtain ⟨text, htext⟩ := htexts node List.mem_cons_self
    obtain ⟨result, hfind⟩ := h.findBest text s.index
      (eligibleMergeTargets kind (existing.map ExistingCanonicalNode.id)) node.embedding
    obtain ⟨d, s₁, hstep, -, hsound, hres, hmiss, htracks⟩ :=
      @dedupeNode_sound _ _ _ _ _ _ _ _ _ thresholds _ _ hreached.tracks htext (.inl hfind)
    obtain ⟨s₂, hrest⟩ := ih (hreached.next hsound hres hmiss htracks) fun n hn => htexts n (List.mem_cons_of_mem _ hn)
    refine ⟨s₂, ?_⟩
    rw [List.foldlM_cons, hstep]
    exact hrest

/-! ## The run -/

end Sound

end PolicySystem
