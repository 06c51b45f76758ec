import PolicySystem.Audit.Query

/-!
# What depends on a Role merge

`find_dependent_merge` of `graph_cleanup/role_dependency_locator.py`, over the trail that `AuditStore.query` pages through.

* `mem_rowsSince`: the rows of an action since the merge, across pages;
* `Stands`: a later merge took effect and was not reversed, judged by its own rows;
* `find_dependent_merge_iff`: **the search is right exactly when a standing dependent, if there is one, shares its approval
  with no row that failed and no merge that was reversed.** The items of a near-miss batch share one approval.
-/

namespace PolicySystem.Cleanup

open AuditQuery Text
open Keyset (Shows)

/-- The audit trail; ids are its primary key. -/
structure AuditTrail where
  rows : List AuditEventRow
  primaryKey : (rows.map AuditEventRow.id).Nodup

/-- What a dependency search reads of the located merge. -/
structure LocatedRoleMerge where
  eventId : BitVec 128
  occurredAt : Timestamp

/-- What it reads of `RoleMergeDetails`. -/
structure RoleMergeDetails where
  survivorId : String
  movedObligationIds : Option (List String)

structure DependentMerge where
  eventId : BitVec 128
  approvalId : String
  action : String
  deriving DecidableEq

/-- `_MERGE_ACTIONS`. -/
def mergeActions : List String := ["obligation.merge", "role.merge"]

/-- `_UNMERGE_ACTIONS`. -/
def unmergeActions : List String := ["obligation.unmerge", "role.unmerge"]

/-! ## The search -/

/-- `_rows_since`: every row of an action since the merge, across pages; `none` where the fuel does not suffice. -/
def rowsSince (trail : AuditTrail) (action : String) (merge : LocatedRoleMerge) (fuel : ℕ) :
    Option (Except QueryError (List AuditEventRow)) :=
  (followCursors (fun _ => trail.rows) { action := some action, occurredFrom := some merge.occurredAt } 100 fuel 0
    none).map fun pages => pages.map List.flatten

/-- `_approval`. -/
def approval (event : AuditEventRow) : String := (event.details.lookup "approval_id").getD ""

/-- `str(event.details.get("reverses_approval_id"))`. -/
def reversesApproval (event : AuditEventRow) : String := (event.details.lookup "reverses_approval_id").getD "None"

/-- `_depends`. -/
def depends (event : AuditEventRow) (details : RoleMergeDetails) : Bool :=
  if event.action = "role.merge" then event.details.lookup "absorbed_id" = some details.survivorId
  else (details.movedObligationIds.getD []).any fun id =>
    event.details.lookup "survivor_id" = some id ∨ event.details.lookup "absorbed_id" = some id

/-- What the search collects of the rows: the approvals of failed rows, the applied unmerges with what they reverse, and
the other applied merges. -/
structure Tally where
  failed : List String
  reversals : List (String × String)
  merges : List AuditEventRow

/-- One turn of the search's loop. -/
def Tally.add (merge : LocatedRoleMerge) (tally : Tally) (event : AuditEventRow) : Tally :=
  if event.outcome = .failed then { tally with failed := tally.failed ++ [approval event] }
  else if event.outcome ≠ .applied then tally
  else if event.action ∈ unmergeActions then
    { tally with reversals := tally.reversals ++ [(approval event, reversesApproval event)] }
  else if event.id ≠ merge.eventId then { tally with merges := tally.merges ++ [event] }
  else tally

/-- The approvals that an unmerge reversed which did not fail. -/
def Tally.reversedApprovals (tally : Tally) : List String :=
  (tally.reversals.filter fun reversal => reversal.1 ∉ tally.failed).map Prod.snd

/-- The merges that stand, by their approvals, and depend on the merge. -/
def Tally.standing (tally : Tally) (details : RoleMergeDetails) : List AuditEventRow :=
  tally.merges.filter fun event =>
    approval event ∉ tally.failed ∧ approval event ∉ tally.reversedApprovals ∧ depends event details

/-- `max(..., key=lambda e: (e.occurred_at, e.id))`, the first of several; ids of one format compare as numbers. -/
def newest : List AuditEventRow → Option AuditEventRow
  | [] => none
  | event :: events => some (events.foldl (fun best e => if best.position < e.position then e else best) event)

/-- The rows of the four actions, one action after the other. -/
def cleanupRows (trail : AuditTrail) (merge : LocatedRoleMerge) (fuel : ℕ) :
    List String → Option (Except QueryError (List AuditEventRow))
  | [] => some (.ok [])
  | action :: actions =>
    match rowsSince trail action merge fuel with
    | none => none
    | some (.error error) => some (.error error)
    | some (.ok rows) => (cleanupRows trail merge fuel actions).map fun rest => rest.map (rows ++ ·)

/-- `find_dependent_merge`. -/
def findDependentMerge (trail : AuditTrail) (merge : LocatedRoleMerge) (details : RoleMergeDetails) (fuel : ℕ) :
    Option (Except QueryError (Option DependentMerge)) :=
  (cleanupRows trail merge fuel (mergeActions ++ unmergeActions)).map fun result => result.map fun rows =>
    let tally := rows.foldl (Tally.add merge) ⟨[], [], []⟩
    (newest (tally.standing details)).map fun event => ⟨event.id, approval event, event.action⟩

/-! ## What stands -/

/-- The rows of a cleanup action since the merge. -/
def Since (trail : AuditTrail) (merge : LocatedRoleMerge) (event : AuditEventRow) : Prop :=
  event ∈ trail.rows ∧ event.action ∈ mergeActions ++ unmergeActions ∧
    merge.occurredAt.micros ≤ event.occurredAt.micros

/-- A row of a merge that another row says has failed: the row of the same action, resource and approval. -/
def Failed (trail : AuditTrail) (merge : LocatedRoleMerge) (event : AuditEventRow) : Prop :=
  ∃ failure, Since trail merge failure ∧ failure.outcome = .failed ∧ failure.action = event.action ∧
    failure.resourceId = event.resourceId ∧ approval failure = approval event

/-- An unmerge took effect. Its approval is for it alone. -/
def Unmerged (trail : AuditTrail) (merge : LocatedRoleMerge) (unmerge : AuditEventRow) : Prop :=
  Since trail merge unmerge ∧ unmerge.outcome = .applied ∧ unmerge.action ∈ unmergeActions ∧
    ¬∃ failure, Since trail merge failure ∧ failure.outcome = .failed ∧ approval failure = approval unmerge

/-- A merge was reversed: an unmerge that took effect restored what it absorbed, and names its approval. -/
def Reversed (trail : AuditTrail) (merge : LocatedRoleMerge) (event : AuditEventRow) : Prop :=
  ∃ unmerge, Unmerged trail merge unmerge ∧ unmerge.resourceId = event.resourceId ∧
    reversesApproval unmerge = approval event

/-- A later merge was applied, did not fail and was not reversed. -/
structure Stands (trail : AuditTrail) (merge : LocatedRoleMerge) (event : AuditEventRow) : Prop where
  since : Since trail merge event
  other : event.id ≠ merge.eventId
  merged : event.action ∈ mergeActions
  applied : event.outcome = .applied
  kept : ¬Failed trail merge event
  unreversed : ¬Reversed trail merge event

/-- Nothing under an approval failed, and no merge under it was reversed. -/
structure Unshared (trail : AuditTrail) (merge : LocatedRoleMerge) (approvalId : String) : Prop where
  unfailed : ¬∃ failure, Since trail merge failure ∧ failure.outcome = .failed ∧ approval failure = approvalId
  unreversed : ¬∃ unmerge, Unmerged trail merge unmerge ∧ reversesApproval unmerge = approvalId

/-! ## The rows since the merge -/

theorem followCursors_mono {trail : ℕ → List AuditEventRow} {filters : AuditQueryFilters} {pageSize fuel fuel' n : ℕ}
    {cursor : Option String} {result : Except QueryError (List (List AuditEventRow))} (hle : fuel ≤ fuel')
    (h : followCursors trail filters pageSize fuel n cursor = some result) :
    followCursors trail filters pageSize fuel' n cursor = some result := by
  induction fuel generalizing fuel' n cursor result with
  | zero => cases h
  | succ fuel ih =>
    obtain ⟨fuel', rfl⟩ : ∃ k, fuel' = k + 1 := ⟨fuel' - 1, by omega⟩
    unfold followCursors at h ⊢
    split
    · rename_i heq
      rw [heq] at h
      exact h
    · rename_i heq
      rw [heq] at h
      exact h
    · rename_i heq
      rw [heq] at h
      obtain ⟨rest, hrest, rfl⟩ := Option.map_eq_some_iff.1 h
      rw [ih (by omega) hrest]
      rfl

/-- **The rows of an action since the merge**, across pages. -/
theorem mem_rowsSince (trail : AuditTrail) (action : String) (merge : LocatedRoleMerge) :
    ∃ enough rows, (∀ fuel ≥ enough, rowsSince trail action merge fuel = some (.ok rows)) ∧ ∀ event, event ∈ rows ↔
      event ∈ trail.rows ∧ event.action = action ∧ merge.occurredAt.micros ≤ event.occurredAt.micros := by
  have htrail : InsertOnly fun _ : ℕ => trail.rows := ⟨fun _ => trail.primaryKey, fun _ _ h => h⟩
  obtain ⟨enough, pages, hfollow, hshows⟩ := @followCursors_pages _ htrail
    { action := some action, occurredFrom := some merge.occurredAt } (by simp) 100 (by decide)
  refine ⟨enough, pages.flatten, fun fuel hfuel => ?_, fun event => ?_⟩
  · unfold rowsSince
    rw [followCursors_mono hfuel hfollow]
    rfl
  · constructor
    · intro hevent
      obtain ⟨_, hadmitted⟩ := hshows.sound event hevent
      obtain ⟨hmem, hadmits⟩ := mem_admitted.1 hadmitted
      exact ⟨hmem, hadmits.action action rfl, hadmits.occurredFrom merge.occurredAt rfl⟩
    · rintro ⟨hmem, haction, hfrom⟩
      refine hshows.complete event (mem_admitted.2 ⟨hmem, ?_⟩) fun b hb => by cases hb
      constructor <;> simp [haction, hfrom]

theorem mem_cleanupRows (trail : AuditTrail) (merge : LocatedRoleMerge) (actions : List String) :
    ∃ enough rows, (∀ fuel ≥ enough, cleanupRows trail merge fuel actions = some (.ok rows)) ∧ ∀ event, event ∈ rows ↔
      event ∈ trail.rows ∧ event.action ∈ actions ∧ merge.occurredAt.micros ≤ event.occurredAt.micros := by
  induction actions with
  | nil => exact ⟨0, [], fun fuel _ => rfl, by simp⟩
  | cons action actions ih =>
    obtain ⟨enough, rows, hrows, hmem⟩ := mem_rowsSince trail action merge
    obtain ⟨enough', rest, hrest, hmem'⟩ := ih
    refine ⟨max enough enough', rows ++ rest, fun fuel hfuel => ?_, fun event => ?_⟩
    · unfold cleanupRows
      rw [hrows fuel (by omega), hrest fuel (by omega)]
      rfl
    · rw [List.mem_append, hmem, hmem', List.mem_cons]
      tauto

/-! ## The tally -/

/-- What a tally holds of the rows it was made of. -/
theorem mem_tally (merge : LocatedRoleMerge) (rows : List AuditEventRow) :
    (∀ id, id ∈ (rows.foldl (Tally.add merge) ⟨[], [], []⟩).failed ↔
      ∃ event ∈ rows, event.outcome = .failed ∧ approval event = id) ∧
    (∀ reversal, reversal ∈ (rows.foldl (Tally.add merge) ⟨[], [], []⟩).reversals ↔
      ∃ event ∈ rows, event.outcome = .applied ∧ event.action ∈ unmergeActions ∧
        (approval event, reversesApproval event) = reversal) ∧
    ∀ event, event ∈ (rows.foldl (Tally.add merge) ⟨[], [], []⟩).merges ↔
      event ∈ rows ∧ event.outcome = .applied ∧ event.action ∉ unmergeActions ∧ event.id ≠ merge.eventId := by
  induction rows using List.reverseRecOn with
  | nil => simp
  | append_singleton rows event ih =>
    obtain ⟨hfailed, hreversals, hmerges⟩ := ih
    rw [List.foldl_append, List.foldl_cons, List.foldl_nil]
    generalize rows.foldl (Tally.add merge) ⟨[], [], []⟩ = tally at hfailed hreversals hmerges ⊢
    unfold Tally.add
    refine ⟨fun id => ?_, fun reversal => ?_, fun event' => ?_⟩
    · grind
    · grind
    · grind


theorem newest_mem {events : List AuditEventRow} {event : AuditEventRow} (h : newest events = some event) :
    event ∈ events := by
  have hfold : ∀ (rest : List AuditEventRow) (best : AuditEventRow),
      rest.foldl (fun best e => if best.position < e.position then e else best) best ∈ best :: rest := by
    intro rest
    induction rest with
    | nil => exact fun best => List.mem_cons_self
    | cons e rest ih =>
      intro best
      rw [List.foldl_cons]
      rcases List.mem_cons.1 (ih (if best.position < e.position then e else best)) with hbest | hrest
      · rw [hbest]
        split <;> simp
      · exact List.mem_cons_of_mem _ (List.mem_cons_of_mem _ hrest)
  cases events with
  | nil => cases h
  | cons first rest =>
    rw [← Option.some.inj h]
    exact hfold rest first

theorem newest_eq_none {events : List AuditEventRow} : newest events = none ↔ events = [] := by
  cases events with
  | nil => exact ⟨fun _ => rfl, fun _ => rfl⟩
  | cons event events => simp [newest]

/-- The merges that stand by their approvals are those whose approval nothing else shares that failed or was reversed. -/
theorem mem_standing {trail : AuditTrail} {merge : LocatedRoleMerge} (details : RoleMergeDetails)
    {rows : List AuditEventRow} (hrows : ∀ event, event ∈ rows ↔ event ∈ trail.rows ∧
      event.action ∈ mergeActions ++ unmergeActions ∧ merge.occurredAt.micros ≤ event.occurredAt.micros)
    (event : AuditEventRow) :
    event ∈ (rows.foldl (Tally.add merge) ⟨[], [], []⟩).standing details ↔
      Stands trail merge event ∧ Unshared trail merge (approval event) ∧ depends event details = true := by
  obtain ⟨hfailed, hreversals, hmerges⟩ := mem_tally merge rows
  generalize rows.foldl (Tally.add merge) ⟨[], [], []⟩ = tally at hfailed hreversals hmerges ⊢
  have hfailed' : ∀ id, id ∈ tally.failed ↔
      ∃ failure, Since trail merge failure ∧ failure.outcome = .failed ∧ approval failure = id := by
    intro id
    rw [hfailed]
    exact exists_congr fun failure => and_congr_left' (hrows failure)
  have hreversed : ∀ id, id ∈ tally.reversedApprovals ↔
      ∃ unmerge, Unmerged trail merge unmerge ∧ reversesApproval unmerge = id := by
    intro id
    unfold Tally.reversedApprovals
    simp only [List.mem_map, List.mem_filter, hreversals, decide_eq_true_eq]
    constructor
    · rintro ⟨_, ⟨⟨unmerge, hmem, happlied, haction, rfl⟩, hnot⟩, rfl⟩
      exact ⟨unmerge, ⟨(hrows unmerge).1 hmem, happlied, haction, fun h => hnot ((hfailed' _).2 h)⟩, rfl⟩
    · rintro ⟨unmerge, ⟨hsince, happlied, haction, hnot⟩, rfl⟩
      exact ⟨_, ⟨⟨unmerge, (hrows unmerge).2 hsince, happlied, haction, rfl⟩, fun h => hnot ((hfailed' _).1 h)⟩, rfl⟩
  unfold Tally.standing
  rw [List.mem_filter, hmerges, hrows, decide_eq_true_eq, hfailed', hreversed]
  constructor
  · rintro ⟨⟨hsince, happlied, hnot, hother⟩, hunfailed, hunreversed, hdepends⟩
    refine ⟨⟨hsince, hother, ?_, happlied, ?_, ?_⟩, ⟨hunfailed, hunreversed⟩, hdepends⟩
    · exact (List.mem_append.1 hsince.2.1).resolve_right hnot
    · rintro ⟨failure, hfailure, houtcome, -, -, happroval⟩
      exact hunfailed ⟨failure, hfailure, houtcome, happroval⟩
    · rintro ⟨unmerge, hunmerge, -, hreverses⟩
      exact hunreversed ⟨unmerge, hunmerge, hreverses⟩
  · rintro ⟨hstands, hunshared, hdepends⟩
    have hnot : event.action ∉ unmergeActions := by
      have hmerged := hstands.merged
      unfold mergeActions at hmerged
      rcases List.mem_cons.1 hmerged with h | h
      · rw [h]
        decide
      · rw [List.mem_singleton.1 h]
        decide
    exact ⟨⟨hstands.since, hstands.applied, hnot, hstands.other⟩, hunshared.unfailed, hunshared.unreversed, hdepends⟩

/-- What the search answers. -/
theorem findDependentMerge_spec (trail : AuditTrail) (merge : LocatedRoleMerge) (details : RoleMergeDetails) :
    ∃ enough result, (∀ fuel ≥ enough, findDependentMerge trail merge details fuel = some (.ok result)) ∧
      (result = none ↔ ¬∃ event, Stands trail merge event ∧ Unshared trail merge (approval event) ∧
        depends event details = true) ∧
      ∀ dependent, result = some dependent → ∃ event, Stands trail merge event ∧ depends event details = true ∧
        dependent = ⟨event.id, approval event, event.action⟩ := by
  obtain ⟨enough, rows, hfollow, hrows⟩ := mem_cleanupRows trail merge (mergeActions ++ unmergeActions)
  have hstanding := mem_standing details hrows
  refine ⟨enough, _, fun fuel hfuel => by unfold findDependentMerge; rw [hfollow fuel hfuel]; rfl, ?_, ?_⟩
  · rw [Option.map_eq_none_iff, newest_eq_none, List.eq_nil_iff_forall_not_mem, not_exists]
    exact forall_congr' fun event => not_congr (hstanding event)
  · intro dependent h
    obtain ⟨event, hnewest, rfl⟩ := Option.map_eq_some_iff.1 h
    obtain ⟨hstands, -, hdepends⟩ := (hstanding event).1 (newest_mem hnewest)
    exact ⟨event, hstands, hdepends, rfl⟩

/-- **The search for a dependent merge is right**, it returns a standing dependent if and only if there is one, exactly when
some standing dependent, if there is one, shares its approval with no row that failed and no merge that was reversed. -/
theorem find_dependent_merge_iff (trail : AuditTrail) (merge : LocatedRoleMerge) (details : RoleMergeDetails) :
    ∃ enough result, (∀ fuel ≥ enough, findDependentMerge trail merge details fuel = some (.ok result)) ∧
      (((result.isSome = true ↔ ∃ event, Stands trail merge event ∧ depends event details = true) ∧
          ∀ dependent, result = some dependent → ∃ event, Stands trail merge event ∧ depends event details = true ∧
            dependent = ⟨event.id, approval event, event.action⟩) ↔
        ((∃ event, Stands trail merge event ∧ depends event details = true) →
          ∃ event, Stands trail merge event ∧ depends event details = true ∧
            Unshared trail merge (approval event))) := by
  obtain ⟨enough, result, hfollow, hnone, hsome⟩ := findDependentMerge_spec trail merge details
  refine ⟨enough, result, hfollow, ?_⟩
  constructor
  · rintro ⟨hiff, -⟩ hdependent
    have hresult : result ≠ none := by
      intro h
      have := hiff.2 hdependent
      rw [h] at this
      cases this
    obtain ⟨event, hstands, hunshared, hdepends⟩ := not_not.1 (mt hnone.2 hresult)
    exact ⟨event, hstands, hdepends, hunshared⟩
  · refine fun hcondition => ⟨⟨fun h => ?_, fun h => ?_⟩, hsome⟩
    · obtain ⟨dependent, hdependent⟩ := Option.isSome_iff_exists.1 h
      obtain ⟨event, hstands, hdepends, -⟩ := hsome dependent hdependent
      exact ⟨event, hstands, hdepends⟩
    · obtain ⟨event, hstands, hdepends, hunshared⟩ := hcondition h
      refine Option.isSome_iff_ne_none.2 fun hresult => ?_
      exact hnone.1 hresult ⟨event, hstands, hunshared, hdepends⟩

/-! ## A batch -/

def atMinute (minute : Fin 60) : Timestamp :=
  ⟨⟨2026, 3, 1, 12, minute, 0, 0, ⟨false, 0, 0, 0, 0⟩⟩, by revert minute; decide⟩

/-- A row of a Role merge; its id numbers its minute. -/
def roleMergeRow (minute : Fin 60) (outcome : Outcome) (survivor absorbed approvalId : String) : AuditEventRow where
  id := BitVec.ofNat 128 minute
  occurredAt := atMinute minute
  actorSubject := "officer"
  actorIssuer := "idp"
  action := "role.merge"
  resourceType := "role"
  resourceId := absorbed
  outcome := outcome
  details := [("survivor_id", survivor), ("absorbed_id", absorbed), ("approval_id", approvalId)]

/-- Role A was merged into S. Then a batch merged S into T, and failed to merge B into C. -/
def batchTrail : AuditTrail where
  rows := [roleMergeRow 1 .applied "S" "A" "p1", roleMergeRow 2 .applied "T" "S" "p2", roleMergeRow 3 .failed "C" "B" "p2"]
  primaryKey := by decide

def batchMerge : LocatedRoleMerge := ⟨1, atMinute 1⟩

/-- **The standing merge of a batch is missed** where another item of the batch failed. -/
theorem batch_dependent_missed :
    ∃ enough, (∀ fuel ≥ enough, findDependentMerge batchTrail batchMerge ⟨"S", some []⟩ fuel = some (.ok none)) ∧
      ∃ event, Stands batchTrail batchMerge event ∧ depends event ⟨"S", some []⟩ = true := by
  have hfailure : Since batchTrail batchMerge (roleMergeRow 3 .failed "C" "B" "p2") :=
    ⟨by decide, by decide, by decide +kernel⟩
  obtain ⟨enough, result, hfollow, hnone, -⟩ := findDependentMerge_spec batchTrail batchMerge ⟨"S", some []⟩
  have hresult : result = none := by
    refine hnone.2 ?_
    rintro ⟨event, hstands, hunshared, -⟩
    have hmem := hstands.since.1
    simp only [batchTrail, List.mem_cons, List.not_mem_nil, or_false] at hmem
    rcases hmem with rfl | rfl | rfl
    · exact hstands.other rfl
    · exact hunshared.unfailed ⟨_, hfailure, rfl, rfl⟩
    · cases hstands.applied
  refine ⟨enough, fun fuel hfuel => hresult ▸ hfollow fuel hfuel, roleMergeRow 2 .applied "T" "S" "p2", ?_, by decide⟩
  refine ⟨⟨by decide, by decide, by decide +kernel⟩, by decide, by decide, rfl, ?_, ?_⟩
  · rintro ⟨failure, hsince, houtcome, -, hresource, -⟩
    have hmem := hsince.1
    simp only [batchTrail, List.mem_cons, List.not_mem_nil, or_false] at hmem
    rcases hmem with rfl | rfl | rfl
    · cases houtcome
    · cases houtcome
    · revert hresource
      decide
  · rintro ⟨unmerge, hunmerge, -, -⟩
    have hmem := hunmerge.1.1
    have haction := hunmerge.2.2.1
    simp only [batchTrail, List.mem_cons, List.not_mem_nil, or_false] at hmem
    rcases hmem with rfl | rfl | rfl
    all_goals
      revert haction
      decide

end PolicySystem.Cleanup
