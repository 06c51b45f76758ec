import PolicySystem.Cleanup.GraphReader

/-!
# Canonical-node identity resolution

The live and the offline dedup of Company Merge (`company_merge/dedup.py`, `reviewable_kinds.py`). The similarity
is any function of two embeddings, and a score is anything that can be compared.

* `dedupe_eq_offline`: with every embedding cached and equal on both sides, the two return the same result.
-/

namespace PolicySystem

/-! ## Kinds and thresholds -/

inductive ReviewScope where
  | global
  | perInstrument
  deriving DecidableEq

inductive ReviewRule where
  | mergeAbove
  | reviewOnly
  deriving DecidableEq

/-- `ReviewableKind`. -/
structure ReviewableKind where
  label : String
  textProperty : String
  scope : ReviewScope
  rule : ReviewRule
  deriving DecidableEq

/-- `CAPABILITY`. -/
def capabilityKind : ReviewableKind := ⟨"Capability", "name", .global, .mergeAbove⟩

/-- `ROLE`. -/
def roleKind : ReviewableKind := ⟨"Role", "name", .perInstrument, .reviewOnly⟩

/-- `ReviewThresholds`. -/
structure ReviewThresholds (Score : Type) where
  merge : Option Score := none
  review : Option Score := none

/-- What a dedup run raises. -/
inductive DedupError where
  /-- "no reviewable kind is registered for ..." -/
  | unknownKind (label : String)
  /-- "...: rule ... requires a merge threshold" -/
  | mergeThresholdMissing (label : String)
  /-- "...: rule ... takes no merge threshold" -/
  | mergeThresholdGiven (label : String)
  /-- "...: rule ... requires a review threshold" -/
  | reviewThresholdMissing (label : String)
  /-- "...: scope ... requires an instrument id" -/
  | instrumentMissing (label : String)
  /-- `KeyError` -/
  | missingKey (key : String)
  /-- raised by `cosine_similarity` -/
  | similarity (message : String)
  /-- `LlmProviderError` -/
  | provider
  deriving DecidableEq

/-- `require_registered`. -/
def requireRegistered (registry : List ReviewableKind) (kind : ReviewableKind) : Except DedupError Unit :=
  if registry.find? (fun spec => spec.label = kind.label) = some kind then .ok () else .error (.unknownKind kind.label)

/-- `require_thresholds`. -/
def requireThresholds {Score : Type} (kind : ReviewableKind) (thresholds : ReviewThresholds Score) :
    Except DedupError Unit :=
  match kind.rule with
  | .mergeAbove => if thresholds.merge.isNone then .error (.mergeThresholdMissing kind.label) else .ok ()
  | .reviewOnly =>
    if thresholds.merge.isSome then .error (.mergeThresholdGiven kind.label)
    else if thresholds.review.isNone then .error (.reviewThresholdMissing kind.label)
    else .ok ()

/-- `_validate_run`. -/
def validateRun {Score : Type} (registry : List ReviewableKind) (kind : ReviewableKind)
    (thresholds : ReviewThresholds Score) (instrumentId : Option String) : Except DedupError Unit := do
  requireRegistered registry kind
  requireThresholds kind thresholds
  if kind.scope = .perInstrument ∧ instrumentId = none then .error (.instrumentMissing kind.label) else .ok ()

/-! ## Nodes and results -/

/-- `BaselineNode`. -/
structure BaselineNode (Emb : Type) where
  id : String
  properties : PropertyMap
  embedding : Option Emb

/-- `ExistingCanonicalNode`. -/
structure ExistingCanonicalNode (Emb : Type) where
  id : String
  text : String
  embedding : Option Emb

inductive MatchKind where
  | exact
  | semantic
  | new
  deriving DecidableEq

/-- `CanonicalResolution`. -/
structure CanonicalResolution (Emb Score : Type) where
  incomingId : String
  canonicalId : String
  matchKind : MatchKind
  embedding : Option Emb
  similarity : Option Score := none

/-- `NearMissPair`. -/
structure NearMissPair (Score : Type) where
  incomingId : String
  incomingText : String
  nearestExistingId : String
  nearestExistingText : String
  similarity : Score

/-- `DedupResult`; the backfills by id, in the order they were recorded. -/
structure DedupResult (Emb Score : Type) where
  resolutions : List (CanonicalResolution Emb Score)
  nearMisses : List (NearMissPair Score)
  embeddingBackfills : List (String × Emb)
  incomingEmbeddingBackfills : List (String × Emb)

/-- `index[node.id] = node`: an entry keeps its place. -/
def putNode {Emb : Type} (index : List (ExistingCanonicalNode Emb)) (node : ExistingCanonicalNode Emb) :
    List (ExistingCanonicalNode Emb) :=
  if node.id ∈ index.map ExistingCanonicalNode.id then index.map fun m => if m.id = node.id then node else m
  else index ++ [node]

/-- `{n.id: n for n in existing_index}`. -/
def indexOf {Emb : Type} (nodes : List (ExistingCanonicalNode Emb)) : List (ExistingCanonicalNode Emb) :=
  nodes.foldl putNode []

/-- `backfills[id] = embedding`. -/
def putEmbedding {Emb : Type} (backfills : List (String × Emb)) (id : String) (embedding : Emb) : List (String × Emb) :=
  if id ∈ backfills.map Prod.fst then backfills.map fun b => if b.1 = id then (id, embedding) else b
  else backfills ++ [(id, embedding)]

/-- `_incoming_text`. -/
def incomingText {Emb : Type} (node : BaselineNode Emb) (kind : ReviewableKind) : Except DedupError String :=
  match stringColumn node.properties[kind.textProperty]? with
  | some text => .ok text
  | none => .error (.missingKey kind.textProperty)

/-- `resolve_exact_match`. -/
def resolveExactMatch (incomingId : String) (existingIds : List String) : Bool := incomingId ∈ existingIds

/-! ## Scores -/

section Scores

variable {α β Score : Type} [LT Score] [DecidableLT Score]

/-- `max(items, key=...)`: the first of the greatest. -/
def maxBy (key : α → Score) : List α → Option α
  | [] => none
  | x :: xs => some (xs.foldl (fun best y => if key best < key y then y else best) x)

theorem maxBy_map (f : α → β) (key : β → Score) (items : List α) :
    maxBy key (items.map f) = (maxBy (key ∘ f) items).map f := by
  have hfold : ∀ (xs : List α) (best : α),
      (xs.map f).foldl (fun best y => if key best < key y then y else best) (f best) =
        f (xs.foldl (fun best y => if key (f best) < key (f y) then y else best) best) := by
    intro xs
    induction xs with
    | nil => exact fun _ => rfl
    | cons x xs ih =>
      intro best
      rw [List.map_cons, List.foldl_cons, List.foldl_cons, ← ih]
      split <;> rfl
  cases items with
  | nil => rfl
  | cons x xs => exact congrArg some (hfold xs x)

theorem maxBy_mem {key : α → Score} {items : List α} {x : α} (h : maxBy key items = some x) : x ∈ items := by
  have hfold : ∀ (xs : List α) (best : α),
      xs.foldl (fun best y => if key best < key y then y else best) best ∈ best :: xs := by
    intro xs
    induction xs with
    | nil => exact fun best => List.mem_singleton_self best
    | cons y ys ih =>
      intro best
      rw [List.foldl_cons]
      rcases List.mem_cons.1 (ih (if key best < key y then y else best)) with heq | hmem
      · rw [heq]
        split <;> simp
      · exact List.mem_cons_of_mem _ (List.mem_cons_of_mem _ hmem)
  cases items with
  | nil => cases h
  | cons y ys =>
    cases h
    exact hfold ys y

theorem maxBy_isSome {key : α → Score} {items : List α} (h : items ≠ []) : ∃ x, maxBy key items = some x := by
  cases items with
  | nil => exact absurd rfl h
  | cons y ys => exact ⟨_, rfl⟩

end Scores

/-! ## The live path -/

/-- `SemanticMatchResult`; the eligible best is there with its score or not at all. -/
structure SemanticMatchResult (Emb Score : Type) where
  bestExistingId : String
  bestSimilarity : Score
  bestEligible : Option (String × Score)
  incomingEmbedding : Emb
  newlyComputed : List (String × Emb)

/-- What a run calls: `cosine_similarity` and `route_embedding`. -/
structure DedupCalls (Emb Score : Type) where
  cosineSimilarity : Emb → Emb → Except DedupError Score
  routeEmbedding : String → Except DedupError Emb

section Dedup

variable {Emb Score : Type} [LT Score] [DecidableLT Score] [LE Score] [DecidableLE Score]

/-- `_eligible_merge_targets`. -/
def eligibleMergeTargets (kind : ReviewableKind) (originalExistingIds : List String) : List String :=
  if kind.rule = .reviewOnly then [] else originalExistingIds

/-- `_clears_review_floor`. -/
def clearsReviewFloor (similarity : Score) (thresholds : ReviewThresholds Score) : Bool :=
  match thresholds.review with
  | none => true
  | some review => review ≤ similarity

/-- The embedding of an entry, and the entry's id with it if it had to be computed. -/
def candidateEmbedding (calls : DedupCalls Emb Score) (entry : ExistingCanonicalNode Emb) :
    Except DedupError (Emb × List (String × Emb)) :=
  match entry.embedding with
  | some embedding => .ok (embedding, [])
  | none => (calls.routeEmbedding entry.text).map fun embedding => (embedding, [(entry.id, embedding)])

/-- The scan of `find_best_semantic_match`: every entry's score, and the embeddings that had to be computed. -/
def scoreEntries (calls : DedupCalls Emb Score) (incoming : Emb) :
    List (ExistingCanonicalNode Emb) → Except DedupError (List (String × Score) × List (String × Emb))
  | [] => .ok ([], [])
  | entry :: entries => do
    let (candidate, computed) ← candidateEmbedding calls entry
    let score ← calls.cosineSimilarity incoming candidate
    let (scored, rest) ← scoreEntries calls incoming entries
    return ((entry.id, score) :: scored, computed ++ rest)

/-- `find_best_semantic_match`. -/
def findBestSemanticMatch (calls : DedupCalls Emb Score) (text : String) (index : List (ExistingCanonicalNode Emb))
    (eligibleIds : List String) (incomingEmbedding : Option Emb) :
    Except DedupError (Option (SemanticMatchResult Emb Score)) :=
  if index.isEmpty then .ok none
  else do
    let incoming ← match incomingEmbedding with
      | some embedding => Except.ok embedding
      | none => calls.routeEmbedding text
    let (scored, computed) ← scoreEntries calls incoming index
    return (maxBy Prod.snd scored).map fun best =>
      { bestExistingId := best.1
        bestSimilarity := best.2
        bestEligible := maxBy Prod.snd (scored.filter fun pair => pair.1 ∈ eligibleIds)
        incomingEmbedding := incoming
        newlyComputed := computed }

/-- The running state of `dedupe_canonical_nodes`. -/
structure DedupState (Emb Score : Type) where
  index : List (ExistingCanonicalNode Emb)
  embeddingBackfills : List (String × Emb) := []
  incomingEmbeddingBackfills : List (String × Emb) := []
  resolutions : List (CanonicalResolution Emb Score) := []
  nearMisses : List (NearMissPair Score) := []

/-- `working_index[id].text`. -/
def entryText (index : List (ExistingCanonicalNode Emb)) (id : String) : Except DedupError String :=
  match index.find? fun entry => entry.id = id with
  | some entry => .ok entry.text
  | none => .error (.missingKey id)

/-- One computed embedding of `_fold_semantic_match_result`. -/
def foldComputed (originalExistingIds : List String) (s : DedupState Emb Score) (computed : String × Emb) :
    Except DedupError (DedupState Emb Score) := do
  let text ← entryText s.index computed.1
  return { s with
    index := putNode s.index ⟨computed.1, text, some computed.2⟩
    embeddingBackfills := if computed.1 ∈ originalExistingIds then
      putEmbedding s.embeddingBackfills computed.1 computed.2 else s.embeddingBackfills }

/-- `_fold_semantic_match_result`. -/
def foldSemanticMatchResult (originalExistingIds : List String) (node : BaselineNode Emb)
    (result : SemanticMatchResult Emb Score) (s : DedupState Emb Score) : Except DedupError (DedupState Emb Score) := do
  let s ← result.newlyComputed.foldlM (foldComputed originalExistingIds) s
  return if node.embedding.isNone then
    { s with incomingEmbeddingBackfills := putEmbedding s.incomingEmbeddingBackfills node.id result.incomingEmbedding }
  else s

/-- The fold, where a scan ran. -/
def foldResult (originalExistingIds : List String) (node : BaselineNode Emb) (s : DedupState Emb Score) :
    Option (SemanticMatchResult Emb Score) → Except DedupError (DedupState Emb Score)
  | some result => foldSemanticMatchResult originalExistingIds node result s
  | none => .ok s

/-- `_merge_target_id`, with the score the resolution records. -/
def mergeTarget (result : Option (SemanticMatchResult Emb Score)) (threshold : Option Score) : Option (String × Score) :=
  match result.bind SemanticMatchResult.bestEligible, threshold with
  | some best, some threshold => if best.2 < threshold then none else some best
  | _, _ => none

/-- The near miss of an incoming node. -/
def nearMiss (node : BaselineNode Emb) (text nearestId nearestText : String) (similarity : Score) : NearMissPair Score :=
  ⟨node.id, text, nearestId, nearestText, similarity⟩

/-- A node that mints its own canonical node. -/
def mintNode (thresholds : ReviewThresholds Score) (node : BaselineNode Emb) (text : String)
    (result : Option (SemanticMatchResult Emb Score)) (s : DedupState Emb Score) :
    Except DedupError (DedupState Emb Score) := do
  let ownEmbedding := match result with
    | some result => some result.incomingEmbedding
    | none => node.embedding
  let s := { s with
    resolutions := s.resolutions ++ [⟨node.id, node.id, .new, ownEmbedding, none⟩]
    index := putNode s.index ⟨node.id, text, ownEmbedding⟩ }
  match result with
  | none => return s
  | some result =>
    if clearsReviewFloor result.bestSimilarity thresholds then
      let nearestText ← entryText s.index result.bestExistingId
      return { s with
        nearMisses := s.nearMisses ++ [nearMiss node text result.bestExistingId nearestText result.bestSimilarity] }
    else return s

/-- `_record_excluded_same_run_mint_near_miss`. -/
def recordExcludedMint (node : BaselineNode Emb) (text : String) (result : SemanticMatchResult Emb Score)
    (eligibleId : String) (threshold : Score) (s : DedupState Emb Score) : Except DedupError (DedupState Emb Score) :=
  if result.bestExistingId ≠ eligibleId ∧ threshold ≤ result.bestSimilarity then do
    let nearestText ← entryText s.index result.bestExistingId
    return { s with
      nearMisses := s.nearMisses ++ [nearMiss node text result.bestExistingId nearestText result.bestSimilarity] }
  else .ok s

/-- A node that resolves onto an eligible one. -/
def mergeNode (thresholds : ReviewThresholds Score) (node : BaselineNode Emb) (text : String)
    (result : Option (SemanticMatchResult Emb Score)) (target : String × Score) (s : DedupState Emb Score) :
    Except DedupError (DedupState Emb Score) :=
  let s := { s with resolutions := s.resolutions ++ [⟨node.id, target.1, .semantic, none, some target.2⟩] }
  match result, thresholds.merge with
  | some result, some threshold => recordExcludedMint node text result target.1 threshold s
  | _, _ => .ok s

/-- The resolution of a node that exists already. -/
def exactResolution (node : BaselineNode Emb) : CanonicalResolution Emb Score := ⟨node.id, node.id, .exact, none, none⟩

/-- One round of the loop of `dedupe_canonical_nodes`. -/
def dedupeNode (calls : DedupCalls Emb Score) (kind : ReviewableKind) (thresholds : ReviewThresholds Score)
    (originalExistingIds : List String) (s : DedupState Emb Score) (node : BaselineNode Emb) :
    Except DedupError (DedupState Emb Score) := do
  let text ← incomingText node kind
  if resolveExactMatch node.id (s.index.map ExistingCanonicalNode.id) then
    return { s with resolutions := s.resolutions ++ [exactResolution node] }
  else
    let result ← findBestSemanticMatch calls text s.index (eligibleMergeTargets kind originalExistingIds) node.embedding
    let s ← foldResult originalExistingIds node s result
    match mergeTarget result thresholds.merge with
    | none => mintNode thresholds node text result s
    | some target => mergeNode thresholds node text result target s

/-- `dedupe_canonical_nodes`; the graph is what its one query answers. -/
def dedupeCanonicalNodes (registry : List ReviewableKind) (calls : DedupCalls Emb Score)
    (graph : ReviewableKind → Option String → List (ExistingCanonicalNode Emb)) (incomingNodes : List (BaselineNode Emb))
    (kind : ReviewableKind) (thresholds : ReviewThresholds Score) (instrumentId : Option String) :
    Except DedupError (DedupResult Emb Score) := do
  validateRun registry kind thresholds instrumentId
  let existing := graph kind instrumentId
  let s ← incomingNodes.foldlM (dedupeNode calls kind thresholds (existing.map ExistingCanonicalNode.id))
    { index := indexOf existing }
  return ⟨s.resolutions, s.nearMisses, s.embeddingBackfills, s.incomingEmbeddingBackfills⟩

/-! ## The offline path -/

/-- `_OfflineMatchResult`. -/
structure OfflineMatchResult (Emb Score : Type) where
  bestEligible : Option (ExistingCanonicalNode Emb × Score)
  bestOverall : Option (ExistingCanonicalNode Emb × Score)

/-- The candidates that carry an embedding. -/
def scorable (index : List (ExistingCanonicalNode Emb)) : List (ExistingCanonicalNode Emb × Emb) :=
  index.filterMap fun candidate => candidate.embedding.map fun embedding => (candidate, embedding)

/-- `_best_offline_match`. -/
def bestOfflineMatch (calls : DedupCalls Emb Score) (ownEmbedding : Option Emb) (index : List (ExistingCanonicalNode Emb))
    (eligibleIds : List String) : Except DedupError (OfflineMatchResult Emb Score) :=
  match ownEmbedding with
  | none => .ok ⟨none, none⟩
  | some own => do
    let scored ← (scorable index).mapM fun pair => do
      let score ← calls.cosineSimilarity own pair.2
      return (pair.1, score)
    return ⟨maxBy Prod.snd (scored.filter fun pair => pair.1.id ∈ eligibleIds), maxBy Prod.snd scored⟩

/-- The running state of `resolve_capability_convergence_offline`. -/
structure OfflineState (Emb Score : Type) where
  index : List (ExistingCanonicalNode Emb)
  resolutions : List (CanonicalResolution Emb Score) := []
  nearMisses : List (NearMissPair Score) := []
  skipped : ℕ := 0

/-- The eligible best that clears the merge threshold. -/
def offlineTarget (found : OfflineMatchResult Emb Score) (threshold : Option Score) :
    Option (ExistingCanonicalNode Emb × Score) :=
  match found.bestEligible, threshold with
  | some best, some threshold => if best.2 < threshold then none else some best
  | _, _ => none

/-- A node minted offline. -/
def mintOffline (thresholds : ReviewThresholds Score) (node : BaselineNode Emb) (text : String) (ownEmbedding : Option Emb)
    (found : OfflineMatchResult Emb Score) (s : OfflineState Emb Score) : OfflineState Emb Score :=
  { s with
    resolutions := s.resolutions ++ [⟨node.id, node.id, .new, ownEmbedding, none⟩]
    nearMisses := match found.bestOverall with
      | some best => if clearsReviewFloor best.2 thresholds then
          s.nearMisses ++ [nearMiss node text best.1.id best.1.text best.2] else s.nearMisses
      | none => s.nearMisses
    index := putNode s.index ⟨node.id, text, ownEmbedding⟩ }

/-- A node merged offline, with `_record_excluded_same_run_mint_near_miss_offline`. -/
def mergeOffline (threshold : Option Score) (node : BaselineNode Emb) (text : String) (found : OfflineMatchResult Emb Score)
    (target : ExistingCanonicalNode Emb × Score) (s : OfflineState Emb Score) : OfflineState Emb Score :=
  { s with
    resolutions := s.resolutions ++ [⟨node.id, target.1.id, .semantic, none, some target.2⟩]
    nearMisses := match found.bestOverall, threshold with
      | some best, some threshold => if best.1.id ≠ target.1.id ∧ threshold ≤ best.2 then
          s.nearMisses ++ [nearMiss node text best.1.id best.1.text best.2] else s.nearMisses
      | _, _ => s.nearMisses }

/-- One round of the loop of `resolve_capability_convergence_offline`. -/
def resolveOffline (calls : DedupCalls Emb Score) (kind : ReviewableKind) (thresholds : ReviewThresholds Score)
    (incomingEmbeddings : String → Option Emb) (originalExistingIds : List String) (s : OfflineState Emb Score)
    (node : BaselineNode Emb) : Except DedupError (OfflineState Emb Score) := do
  let text ← incomingText node kind
  if resolveExactMatch node.id (s.index.map ExistingCanonicalNode.id) then
    return { s with resolutions := s.resolutions ++ [exactResolution node] }
  else
    let ownEmbedding := incomingEmbeddings node.id
    let s := { s with skipped := s.skipped + s.index.countP fun candidate => candidate.embedding.isNone }
    let found ← bestOfflineMatch calls ownEmbedding s.index (eligibleMergeTargets kind originalExistingIds)
    return match offlineTarget found thresholds.merge with
      | none => mintOffline thresholds node text ownEmbedding found s
      | some target => mergeOffline thresholds.merge node text found target s

/-- `resolve_capability_convergence_offline`. -/
def resolveCapabilityConvergenceOffline (registry : List ReviewableKind) (calls : DedupCalls Emb Score)
    (graph : ReviewableKind → Option String → List (ExistingCanonicalNode Emb)) (incomingNodes : List (BaselineNode Emb))
    (incomingEmbeddings : String → Option Emb) (kind : ReviewableKind) (thresholds : ReviewThresholds Score)
    (instrumentId : Option String) : Except DedupError (DedupResult Emb Score) := do
  validateRun registry kind thresholds instrumentId
  let existing := graph kind instrumentId
  let s ← incomingNodes.foldlM
    (resolveOffline calls kind thresholds incomingEmbeddings (existing.map ExistingCanonicalNode.id))
    { index := indexOf existing }
  return ⟨s.resolutions, s.nearMisses, [], []⟩

/-! ## The working index -/

/-- Every entry carries its embedding, and no id is there twice. -/
structure CachedIndex (index : List (ExistingCanonicalNode Emb)) : Prop where
  embedded : ∀ entry ∈ index, ∃ embedding, entry.embedding = some embedding
  nodup : (index.map ExistingCanonicalNode.id).Nodup

theorem putNode_new {index : List (ExistingCanonicalNode Emb)} {node : ExistingCanonicalNode Emb}
    (h : node.id ∉ index.map ExistingCanonicalNode.id) : putNode index node = index ++ [node] := if_neg h

theorem putNode_ids (index : List (ExistingCanonicalNode Emb)) (node : ExistingCanonicalNode Emb) :
    (putNode index node).map ExistingCanonicalNode.id =
      if node.id ∈ index.map ExistingCanonicalNode.id then index.map ExistingCanonicalNode.id
      else index.map ExistingCanonicalNode.id ++ [node.id] := by
  unfold putNode
  split
  · rw [List.map_map]
    refine List.map_congr_left fun m _ => ?_
    simp only [Function.comp_apply]
    split
    · exact (‹m.id = node.id›).symm
    · rfl
  · rw [List.map_append, List.map_singleton]

theorem putNode_nodup {index : List (ExistingCanonicalNode Emb)} (h : (index.map ExistingCanonicalNode.id).Nodup)
    (node : ExistingCanonicalNode Emb) : ((putNode index node).map ExistingCanonicalNode.id).Nodup := by
  rw [putNode_ids]
  split
  · exact h
  · rename_i hnew
    rw [List.nodup_append]
    refine ⟨h, List.nodup_singleton _, ?_⟩
    rintro id hid _ hsingle rfl
    exact hnew (List.mem_singleton.1 hsingle ▸ hid)

/-- The index has each existing id once. -/
theorem indexOf_ids (nodes : List (ExistingCanonicalNode Emb)) :
    ((indexOf nodes).map ExistingCanonicalNode.id).Nodup ∧
      ∀ id, id ∈ (indexOf nodes).map ExistingCanonicalNode.id ↔ id ∈ nodes.map ExistingCanonicalNode.id := by
  induction nodes using List.reverseRecOn with
  | nil => exact ⟨List.nodup_nil, fun id => Iff.rfl⟩
  | append_singleton nodes node ih =>
    have hput : indexOf (nodes ++ [node]) = putNode (indexOf nodes) node := by simp [indexOf, List.foldl_append]
    rw [hput]
    refine ⟨putNode_nodup ih.1 node, fun id => ?_⟩
    rw [putNode_ids, List.map_append, List.map_singleton, List.mem_append, List.mem_singleton, ← ih.2]
    split
    · rename_i hmem
      constructor
      · exact .inl
      · rintro (hid | rfl)
        · exact hid
        · exact hmem
    · rw [List.mem_append, List.mem_singleton]

theorem CachedIndex.put {index : List (ExistingCanonicalNode Emb)} (h : CachedIndex index)
    {node : ExistingCanonicalNode Emb} {embedding : Emb} (hnode : node.embedding = some embedding) :
    CachedIndex (putNode index node) := by
  refine ⟨fun entry hentry => ?_, ?_⟩
  · have hcases : entry = node ∨ entry ∈ index := by
      unfold putNode at hentry
      split at hentry
      · obtain ⟨m, hm, rfl⟩ := List.mem_map.1 hentry
        split
        · exact .inl rfl
        · exact .inr hm
      · exact (List.mem_append.1 hentry).symm.imp_left List.mem_singleton.1
    rcases hcases with rfl | hold
    · exact ⟨embedding, hnode⟩
    · exact h.embedded entry hold
  · exact putNode_nodup h.nodup node

theorem cachedIndex_indexOf {nodes : List (ExistingCanonicalNode Emb)}
    (h : ∀ node ∈ nodes, ∃ embedding, node.embedding = some embedding) : CachedIndex (indexOf nodes) := by
  have hfold : ∀ (nodes index : List (ExistingCanonicalNode Emb)),
      (∀ node ∈ nodes, ∃ embedding, node.embedding = some embedding) → CachedIndex index →
      CachedIndex (nodes.foldl putNode index) := by
    intro nodes
    induction nodes with
    | nil => exact fun _ _ hindex => hindex
    | cons node nodes ih =>
      intro index hnodes hindex
      obtain ⟨embedding, hnode⟩ := hnodes node List.mem_cons_self
      exact ih _ (fun n hn => hnodes n (List.mem_cons_of_mem _ hn)) (hindex.put hnode)
  exact hfold nodes [] h ⟨fun entry hentry => absurd hentry List.not_mem_nil, List.nodup_nil⟩

theorem entryText_of_nodup {index : List (ExistingCanonicalNode Emb)}
    (hnodup : (index.map ExistingCanonicalNode.id).Nodup) {entry : ExistingCanonicalNode Emb} (hentry : entry ∈ index) :
    entryText index entry.id = .ok entry.text := by
  have hfind : index.find? (fun e => e.id = entry.id) = some entry := by
    have hsome : (index.find? fun e => e.id = entry.id).isSome = true :=
      List.find?_isSome.2 ⟨entry, hentry, decide_eq_true rfl⟩
    obtain ⟨found, hfound⟩ := Option.isSome_iff_exists.1 hsome
    have hid : found.id = entry.id := by simpa using List.find?_some hfound
    rw [hfound, List.inj_on_of_nodup_map hnodup (List.mem_of_find?_eq_some hfound) hentry hid]
  rw [entryText, hfind]

theorem entryText_of_mem {index : List (ExistingCanonicalNode Emb)} (h : CachedIndex index)
    {entry : ExistingCanonicalNode Emb} (hentry : entry ∈ index) : entryText index entry.id = .ok entry.text :=
  entryText_of_nodup h.nodup hentry

/-! ## The two scans agree -/

/-- The offline result as the live scan returns it. -/
def liveResult (embedding : Emb) (found : OfflineMatchResult Emb Score) : Option (SemanticMatchResult Emb Score) :=
  found.bestOverall.map fun best =>
    { bestExistingId := best.1.id
      bestSimilarity := best.2
      bestEligible := found.bestEligible.map fun pair => (pair.1.id, pair.2)
      incomingEmbedding := embedding
      newlyComputed := [] }

/-- The offline scores of an index. -/
def offlineScores (calls : DedupCalls Emb Score) (own : Emb) (index : List (ExistingCanonicalNode Emb)) :
    Except DedupError (List (ExistingCanonicalNode Emb × Score)) :=
  (scorable index).mapM fun pair => do
    let score ← calls.cosineSimilarity own pair.2
    return (pair.1, score)

omit [LT Score] [DecidableLT Score] [LE Score] [DecidableLE Score] in
theorem scoreEntries_cached (calls : DedupCalls Emb Score) (own : Emb) {index : List (ExistingCanonicalNode Emb)}
    (h : ∀ entry ∈ index, ∃ embedding, entry.embedding = some embedding) :
    scoreEntries calls own index =
      (offlineScores calls own index).map fun scored => (scored.map fun pair => (pair.1.id, pair.2), []) := by
  induction index with
  | nil => rfl
  | cons entry entries ih =>
    obtain ⟨embedding, hentry⟩ := h entry List.mem_cons_self
    have hscorable : scorable (entry :: entries) = (entry, embedding) :: scorable entries := by
      simp [scorable, hentry]
    rw [scoreEntries, offlineScores, hscorable, List.mapM_cons, candidateEmbedding, hentry,
      ih fun e he => h e (List.mem_cons_of_mem _ he), ← offlineScores]
    simp only [bind, Except.bind, pure, Except.pure]
    cases calls.cosineSimilarity own embedding with
    | error e => rfl
    | ok score =>
      cases offlineScores calls own entries with
      | error e => rfl
      | ok scored => rfl

omit [LE Score] [DecidableLE Score] in
theorem findBest_cached (calls : DedupCalls Emb Score) (text : String) {index : List (ExistingCanonicalNode Emb)}
    (h : ∀ entry ∈ index, ∃ embedding, entry.embedding = some embedding) (eligibleIds : List String) (own : Emb) :
    findBestSemanticMatch calls text index eligibleIds (some own) =
      (bestOfflineMatch calls (some own) index eligibleIds).map (liveResult own) := by
  by_cases hempty : index.isEmpty = true
  · obtain rfl := List.isEmpty_iff.1 hempty
    rfl
  · rw [findBestSemanticMatch, if_neg hempty, bestOfflineMatch, ← offlineScores]
    simp only [bind, Except.bind, pure, Except.pure]
    rw [scoreEntries_cached calls own h]
    cases offlineScores calls own index with
    | error e => rfl
    | ok scored =>
      have hfilter : (scored.map fun pair => (pair.1.id, pair.2)).filter (fun pair => pair.1 ∈ eligibleIds) =
          (scored.filter fun pair => pair.1.id ∈ eligibleIds).map fun pair => (pair.1.id, pair.2) := by
        rw [List.filter_map]
        rfl
      have hsnd : (Prod.snd ∘ fun pair : ExistingCanonicalNode Emb × Score => (pair.1.id, pair.2)) = Prod.snd := rfl
      simp only [Except.map, liveResult, hfilter, maxBy_map, hsnd, Option.map_map]
      rfl

omit [LE Score] [DecidableLE Score] in
/-- What the offline scan found is in the index, and something was eligible only if something was found. -/
theorem bestOfflineMatch_ok {calls : DedupCalls Emb Score} {own : Emb} {index : List (ExistingCanonicalNode Emb)}
    {eligibleIds : List String} {found : OfflineMatchResult Emb Score}
    (h : bestOfflineMatch calls (some own) index eligibleIds = .ok found) :
    (∀ best, found.bestOverall = some best → best.1 ∈ index) ∧
      ∀ best, found.bestEligible = some best → ∃ overall, found.bestOverall = some overall := by
  rw [bestOfflineMatch, ← offlineScores] at h
  obtain ⟨scored, hscored, hfound⟩ := bind_ok.1 h
  cases hfound
  have hids : ∀ pair ∈ scored, pair.1 ∈ index := by
    have hmap : ∀ (pairs : List (ExistingCanonicalNode Emb × Emb)) (scored : List (ExistingCanonicalNode Emb × Score)),
        (pairs.mapM fun pair => do
          let score ← calls.cosineSimilarity own pair.2
          return (pair.1, score)) = .ok scored → scored.map Prod.fst = pairs.map Prod.fst := by
      intro pairs
      induction pairs with
      | nil =>
        intro scored h
        cases h
        rfl
      | cons pair pairs ih =>
        intro scored h
        rw [List.mapM_cons] at h
        obtain ⟨first, hfirst, hrest⟩ := bind_ok.1 h
        obtain ⟨rest, hmap, hlist⟩ := bind_ok.1 hrest
        obtain ⟨score, -, hpair⟩ := bind_ok.1 hfirst
        cases hlist
        cases hpair
        rw [List.map_cons, List.map_cons, ih rest hmap]
    intro pair hpair
    have hfst : pair.1 ∈ (scorable index).map Prod.fst := by
      rw [← hmap _ _ hscored]
      exact List.mem_map_of_mem hpair
    obtain ⟨candidate, hcandidate, heq⟩ := List.mem_map.1 hfst
    obtain ⟨entry, hentry, hsome⟩ := List.mem_filterMap.1 hcandidate
    obtain ⟨embedding, -, rfl⟩ := Option.map_eq_some_iff.1 hsome
    rw [← heq]
    exact hentry
  refine ⟨fun best hbest => hids best (maxBy_mem hbest), fun best hbest => maxBy_isSome fun hnil => ?_⟩
  have hmem := (List.mem_filter.1 (maxBy_mem hbest)).1
  rw [hnil] at hmem
  exact absurd hmem List.not_mem_nil

omit [LE Score] [DecidableLE Score] in
theorem mergeTarget_liveResult {embedding : Emb} {found : OfflineMatchResult Emb Score}
    (h : ∀ best, found.bestEligible = some best → ∃ overall, found.bestOverall = some overall)
    (threshold : Option Score) :
    mergeTarget (liveResult embedding found) threshold =
      (offlineTarget found threshold).map fun pair => (pair.1.id, pair.2) := by
  cases heligible : found.bestEligible with
  | none =>
    cases hoverall : found.bestOverall <;>
      simp [mergeTarget, offlineTarget, liveResult, hoverall, heligible]
  | some best =>
    obtain ⟨overall, hoverall⟩ := h best heligible
    cases threshold with
    | none => simp [mergeTarget, offlineTarget, liveResult, hoverall, heligible]
    | some threshold =>
      simp only [mergeTarget, offlineTarget, liveResult, hoverall, heligible, Option.map_some, Option.bind_some]
      split <;> rfl

/-! ## The two loops agree -/

/-- The offline state as the live loop holds it: nothing was computed. -/
def OfflineState.live (s : OfflineState Emb Score) : DedupState Emb Score :=
  { index := s.index, resolutions := s.resolutions, nearMisses := s.nearMisses }

section Step

variable {calls : DedupCalls Emb Score} {kind : ReviewableKind} {thresholds : ReviewThresholds Score}
  {incomingEmbeddings : String → Option Emb} {originalExistingIds : List String} {s : OfflineState Emb Score}
  {node : BaselineNode Emb} {own : Emb} {text : String} {found : OfflineMatchResult Emb Score}

omit [LT Score] [DecidableLT Score] in
theorem mint_agrees (hindex : CachedIndex s.index) (hnew : node.id ∉ s.index.map ExistingCanonicalNode.id)
    (hown : node.embedding = some own) (hfound : ∀ best, found.bestOverall = some best → best.1 ∈ s.index) :
    mintNode thresholds node text (liveResult own found) s.live = .ok (mintOffline thresholds node text (some own) found s).live := by
  cases hoverall : found.bestOverall with
  | none => simp [mintNode, mintOffline, liveResult, hoverall, OfflineState.live, hown, pure, Except.pure]
  | some best =>
    have hput : CachedIndex (putNode s.index ⟨node.id, text, some own⟩) := hindex.put rfl
    have hmem : best.1 ∈ putNode s.index ⟨node.id, text, some own⟩ := by
      rw [putNode_new hnew]
      exact List.mem_append_left _ (hfound best hoverall)
    have htext := entryText_of_mem hput hmem
    simp only [mintNode, mintOffline, liveResult, hoverall, OfflineState.live, Option.map_some]
    by_cases hclears : clearsReviewFloor best.2 thresholds = true
    · simp only [hclears, if_true, htext, bind, Except.bind, pure, Except.pure]
    · simp only [hclears, pure, Except.pure]
      rfl

omit [LT Score] [DecidableLT Score] in
theorem merge_agrees (hindex : CachedIndex s.index) (hfound : ∀ best, found.bestOverall = some best → best.1 ∈ s.index)
    (target : ExistingCanonicalNode Emb × Score) :
    mergeNode thresholds node text (liveResult own found) (target.1.id, target.2) s.live =
      .ok (mergeOffline thresholds.merge node text found target s).live := by
  cases hoverall : found.bestOverall with
  | none => cases thresholds.merge <;> simp [mergeNode, mergeOffline, liveResult, hoverall, OfflineState.live]
  | some best =>
    cases hmerge : thresholds.merge with
    | none => simp [mergeNode, mergeOffline, liveResult, hoverall, hmerge, OfflineState.live]
    | some threshold =>
      have htext := entryText_of_mem hindex (hfound best hoverall)
      simp only [mergeNode, mergeOffline, liveResult, hoverall, hmerge, OfflineState.live, Option.map_some,
        recordExcludedMint]
      split
      · simp only [htext, bind, Except.bind, pure, Except.pure]
      · rfl

/-- **One round.** -/
theorem dedupeNode_eq_offline (hindex : CachedIndex s.index) (hown : node.embedding = some own)
    (hsame : incomingEmbeddings node.id = some own) :
    dedupeNode calls kind thresholds originalExistingIds s.live node =
      (resolveOffline calls kind thresholds incomingEmbeddings originalExistingIds s node).map OfflineState.live := by
  unfold dedupeNode resolveOffline
  cases htext : incomingText node kind with
  | error e => rfl
  | ok text =>
    by_cases hexact : resolveExactMatch node.id (s.index.map ExistingCanonicalNode.id) = true
    · simp [hexact, OfflineState.live, bind, Except.bind, pure, Except.pure, Except.map]
    · have hnew : node.id ∉ s.index.map ExistingCanonicalNode.id := by simpa [resolveExactMatch] using hexact
      have hindex' : s.live.index = s.index := rfl
      simp only [bind, Except.bind, pure, Except.pure, hindex', hexact, hown, hsame,
        findBest_cached calls text hindex.embedded]
      cases hfound : bestOfflineMatch calls (some own) s.index (eligibleMergeTargets kind originalExistingIds) with
      | error e => rfl
      | ok found =>
        obtain ⟨hmem, heligible⟩ := bestOfflineMatch_ok hfound
        -- no embedding was computed, so there is nothing to fold
        have hfold : foldResult originalExistingIds node s.live (liveResult own found) = .ok s.live := by
          cases hoverall : found.bestOverall with
          | none => simp [liveResult, hoverall, foldResult]
          | some best =>
            simp [liveResult, hoverall, foldResult, foldSemanticMatchResult, hown, pure, Except.pure, bind, Except.bind]
        simp only [Except.map, hfold, mergeTarget_liveResult heligible]
        let counted : OfflineState Emb Score :=
          { s with skipped := s.skipped + s.index.countP fun candidate => candidate.embedding.isNone }
        have hlive : s.live = counted.live := rfl
        cases htarget : offlineTarget found thresholds.merge with
        | none =>
          have hmint : mintNode thresholds node text (liveResult own found) counted.live = _ :=
            mint_agrees (s := counted) hindex hnew hown hmem
          simpa [hlive] using hmint
        | some target =>
          have hmerge : mergeNode thresholds node text (liveResult own found) (target.1.id, target.2) counted.live = _ :=
            merge_agrees (s := counted) hindex hmem target
          simpa [hlive] using hmerge

theorem CachedIndex.resolveOffline (hindex : CachedIndex s.index) (hsame : incomingEmbeddings node.id = some own)
    {s' : OfflineState Emb Score}
    (h : PolicySystem.resolveOffline calls kind thresholds incomingEmbeddings originalExistingIds s node = .ok s') :
    CachedIndex s'.index := by
  unfold PolicySystem.resolveOffline at h
  obtain ⟨text, -, h⟩ := bind_ok.1 h
  split at h
  · cases h
    exact hindex
  · obtain ⟨found, -, h⟩ := bind_ok.1 h
    cases h
    split
    · rw [hsame]
      exact hindex.put rfl
    · exact hindex

end Step

/-- **Online and offline agree.** With every cached embedding there, the live path and the offline path return the same
result, or raise the same error. -/
theorem dedupe_eq_offline (registry : List ReviewableKind) (calls : DedupCalls Emb Score)
    (graph : ReviewableKind → Option String → List (ExistingCanonicalNode Emb)) (incomingNodes : List (BaselineNode Emb))
    (incomingEmbeddings : String → Option Emb) (kind : ReviewableKind) (thresholds : ReviewThresholds Score)
    (instrumentId : Option String)
    (hgraph : ∀ node ∈ graph kind instrumentId, ∃ embedding, node.embedding = some embedding)
    (hincoming : ∀ node ∈ incomingNodes, ∃ embedding, node.embedding = some embedding ∧
      incomingEmbeddings node.id = some embedding) :
    dedupeCanonicalNodes registry calls graph incomingNodes kind thresholds instrumentId =
      resolveCapabilityConvergenceOffline registry calls graph incomingNodes incomingEmbeddings kind thresholds
        instrumentId := by
  have hloop : ∀ (nodes : List (BaselineNode Emb)) (s : OfflineState Emb Score), CachedIndex s.index →
      (∀ node ∈ nodes, ∃ embedding, node.embedding = some embedding ∧ incomingEmbeddings node.id = some embedding) →
      nodes.foldlM (dedupeNode calls kind thresholds ((graph kind instrumentId).map ExistingCanonicalNode.id)) s.live =
        (nodes.foldlM (resolveOffline calls kind thresholds incomingEmbeddings
          ((graph kind instrumentId).map ExistingCanonicalNode.id)) s).map OfflineState.live := by
    intro nodes
    induction nodes with
    | nil => exact fun _ _ _ => rfl
    | cons node nodes ih =>
      intro s hindex hnodes
      obtain ⟨own, hown, hsame⟩ := hnodes node List.mem_cons_self
      rw [List.foldlM_cons, List.foldlM_cons, dedupeNode_eq_offline hindex hown hsame]
      cases hstep : resolveOffline calls kind thresholds incomingEmbeddings
          ((graph kind instrumentId).map ExistingCanonicalNode.id) s node with
      | error e => rfl
      | ok s' => exact ih s' (hindex.resolveOffline hsame hstep) fun n hn => hnodes n (List.mem_cons_of_mem _ hn)
  have hrun := hloop incomingNodes { index := indexOf (graph kind instrumentId) } (cachedIndex_indexOf hgraph) hincoming
  have hstart : @OfflineState.live _ Score { index := indexOf (graph kind instrumentId) } =
      { index := indexOf (graph kind instrumentId) } := rfl
  rw [hstart] at hrun
  unfold dedupeCanonicalNodes resolveCapabilityConvergenceOffline
  cases validateRun registry kind thresholds instrumentId with
  | error e => rfl
  | ok _ =>
    simp only [bind, Except.bind, hrun]
    cases incomingNodes.foldlM (resolveOffline calls kind thresholds incomingEmbeddings
      ((graph kind instrumentId).map ExistingCanonicalNode.id)) { index := indexOf (graph kind instrumentId) } with
    | error e => rfl
    | ok s => rfl

end Dedup

/-- A name. -/
def named (name : String) : PropertyMap := (∅ : PropertyMap).insert "name" (.scalar (.str name))

/-- Two ties for one existing Capability, a mint, and a node next to that mint; the score is the nearness on a line. -/
theorem dedupe_eq_offline_ties :
    dedupeCanonicalNodes [capabilityKind, roleKind] ⟨fun a b => .ok (100 - |a - b|), fun _ => .error .provider⟩
        (fun _ _ => [⟨"c1", "Access", some 0⟩, ⟨"c2", "Entry", some 10⟩])
        [⟨"n1", named "Between", some 5⟩, ⟨"n2", named "Far", some 60⟩, ⟨"n3", named "Next", some (61 : ℤ)⟩]
        capabilityKind ⟨some (90 : ℤ), some 80⟩ none =
      resolveCapabilityConvergenceOffline [capabilityKind, roleKind]
        ⟨fun a b => .ok (100 - |a - b|), fun _ => .error .provider⟩
        (fun _ _ => [⟨"c1", "Access", some 0⟩, ⟨"c2", "Entry", some 10⟩])
        [⟨"n1", named "Between", some 5⟩, ⟨"n2", named "Far", some 60⟩, ⟨"n3", named "Next", some 61⟩]
        (fun id => if id = "n1" then some 5 else if id = "n2" then some 60 else some 61)
        capabilityKind ⟨some 90, some 80⟩ none := by
  refine dedupe_eq_offline _ _ _ _ _ _ _ _ ?_ ?_
  · intro node hnode
    simp only [List.mem_cons, List.not_mem_nil, or_false] at hnode
    rcases hnode with rfl | rfl <;> exact ⟨_, rfl⟩
  · intro node hnode
    simp only [List.mem_cons, List.not_mem_nil, or_false] at hnode
    rcases hnode with rfl | rfl | rfl <;> exact ⟨_, rfl, rfl⟩

/-- The tie goes to the first entry, and the pair minted in one run is cited, not merged. -/
example : ((resolveCapabilityConvergenceOffline [capabilityKind, roleKind]
      ⟨fun a b => .ok (100 - |a - b|), fun _ => .error .provider⟩
      (fun _ _ => [⟨"c1", "Access", some 0⟩, ⟨"c2", "Entry", some 10⟩])
      [⟨"n1", named "Between", some 5⟩, ⟨"n2", named "Far", some 60⟩, ⟨"n3", named "Next", some 61⟩]
      (fun id => if id = "n1" then some 5 else if id = "n2" then some 60 else some (61 : ℤ))
      capabilityKind ⟨some (90 : ℤ), some 80⟩ none).map fun result =>
        (result.resolutions.map CanonicalResolution.canonicalId, result.nearMisses.map NearMissPair.nearestExistingId)) =
    .ok (["c1", "n2", "n3"], ["n2"]) := by decide +kernel


end PolicySystem
