import PolicySystem.Gateway.Swap

/-!
# The graph write gateway

`graph_gateway/gateway.py`: every way a group reaches the log and the graph, and every way what is logged is
applied later. One call is one program; calls run one after the other, and a staged submission holds its
graph's lock across the calls between its staging and its end.

* `submitGroup`, `submitGroupInTransaction`, `submitMultiGraphGroup`: stage, log, apply;
* `catchUp`, `recover`, `reconcile`: apply what the log holds beyond the marker;
* `GatewayCall`, `runCalls`: a run of the gateway, deaths and restarts included.
-/

namespace PolicySystem

open Faults Proc

/-! ## What is submitted -/

/-- `MutationGroup`; a precondition is an expected last position. -/
structure MutationGroup where
  graph : String
  primitives : List Primitive
  preconditions : List ℕ
  checkpointRequested : Bool
  nonempty : primitives ≠ []

/-- `GraphLeg`: a replacing leg holds upserts only. -/
structure GraphLeg extends MutationGroup where
  replace : Bool
  upserts : replace = true → UpsertOnly primitives

/-- `MultiGraphGroup`, its legs in graph order as the gateway handles them. -/
structure MultiGraphGroup where
  legs : List GraphLeg
  swap : Bool
  two : 2 ≤ legs.length
  ascending : legs.Pairwise fun a b => a.graph < b.graph

inductive OutcomeStatus where
  | applied
  | committedApplyPending
  | unchanged
  deriving DecidableEq

/-- `GroupOutcome`. -/
structure GroupOutcome where
  graph : String
  firstPosition : Option ℕ
  lastPosition : Option ℕ
  status : OutcomeStatus
  checkpoint : Option Bool
  checkpointPosition : Option ℕ
  deriving DecidableEq

/-- `CatchUpResult`. -/
structure CatchUpResult where
  graph : String
  appliedPosition : ℕ
  lastPosition : ℕ
  caughtUp : Bool
  deriving DecidableEq

/-! ## The process's own state -/

def World.holds (w : World) (g : String) : Bool :=
  w.process.submissions.any fun s => s.isOpen && s.appended.graph = g

/-- Take locks: a lock that an open staged submission holds is waited for, and nothing happens meanwhile. -/
def lockAll (graphs : List String) : Gw Unit := do
  let w ← get
  if graphs.any w.holds then raise .waiting

/-- Number the calls of the gateway. -/
def nextCall : Gw ℕ := do
  let w ← get
  modify fun w => { w with calls := w.calls + 1 }
  return w.calls

/-- `GraphReconciler.register`. -/
def register (g : String) : Gw Unit :=
  modify fun w => { w with process := { w.process with reconciling := insert g w.process.reconciling } }

def block (g : String) : Gw Unit :=
  modify fun w => { w with process := { w.process with blocked := insert g w.process.blocked } }

def unblock (g : String) : Gw Unit :=
  modify fun w => { w with process := { w.process with blocked := w.process.blocked.erase g } }

/-- `_block_unit`. -/
def blockUnit (graphs : List String) : Gw Unit :=
  modify fun w => { w with process := { w.process with
    blocked := w.process.blocked ∪ graphs.toFinset
    blockedUnits := graphs.map (·, graphs) ++ w.process.blockedUnits.filter fun u => u.1 ∉ graphs } }

/-- `_unblock_unit`. -/
def unblockUnit (graphs : List String) : Gw Unit :=
  modify fun w => { w with process := { w.process with
    blocked := w.process.blocked \ graphs.toFinset
    blockedUnits := w.process.blockedUnits.filter fun u => u.1 ∉ graphs } }

variable (gw : GraphWriteGateway)

/-! ## Applying what is logged -/

/-- One pass of `_apply_pending`: what is logged beyond the marker, the marker following run by run. -/
def applyPass (g : String) (before : Option ℕ) : Gw Unit := do
  let applied ← readAppliedPosition g
  let rows ← readEntries g applied none
  let pending := match before with
    | none => rows
    | some first => rows.filter fun row => row.position < first
  applyEntries gw (queryLive g) pending (advanceAppliedPosition g)

/-- `_apply_pending`. -/
def applyPending (g : String) (before : Option ℕ) : Gw Unit := do
  (guardCall gw g (applyPass gw g before)).handle fun
    | .graphApply h => do
      block g
      raise (.graphApply h)
    | e => raise e
  unblock g

/-- `_refuse_pending_swap`. -/
def refusePendingSwap (g : String) : Gw Unit := do
  let pending ← guardCall gw g do
    let applied ← readAppliedPosition g
    readPendingSwapGroup g applied
  if pending.isSome then
    register g
    raise .graphUnavailable

/-- `_catch_up_before_write`. -/
def catchUpBeforeWrite (g : String) : Gw Unit := do
  let lagging ← guardCall gw g do
    let applied ← readAppliedPosition g
    let last ← readLastPosition g
    return decide (applied ≠ last)
  if lagging then
    refusePendingSwap gw g
    (applyPending gw g none).handle fun e => do
      if e = .graphUnavailable then register g
      raise e

/-! ## Staging -/

/-- The labels and relationship types a primitive names. -/
def Primitive.isAllowed (allow : AllowList) : Primitive → Bool
  | .upsertNode n _ _ | .mergeProperty n _ | .removeProperty n _ | .deleteNode n => n.label ∈ allow.nodeLabels
  | .upsertEdge e _ | .deleteEdge e | .stampEdgeIdentity e =>
    e.source.label ∈ allow.nodeLabels ∧ e.target.label ∈ allow.nodeLabels ∧ e.type ∈ allow.relationshipTypes

/-- `validate_group`. -/
def validateGroup (primitives : List Primitive) : Gw Unit :=
  if primitives.all (Primitive.isAllowed gw.allow) then pure () else raise (.rejected .unlistedName)

/-- `require_preconditions`. -/
def requirePreconditions (group : MutationGroup) : Gw Unit :=
  group.preconditions.forM fun expected => do
    let actual ← guardCall gw group.graph (readLastPosition group.graph)
    if actual ≠ expected then raise (.rejected (.staleGraphState group.graph expected actual))

/-- `_expanded`. -/
def expanded (group : MutationGroup) (replace : Bool) : Gw (List Primitive) := do
  let primitives ← guardCall gw group.graph <| graphRead fun w =>
    expandLeg gw.allow gw.scan (w.content group.graph) group.primitives replace
  if primitives.length ≠ group.primitives.length then validateGroup gw primitives
  return primitives

/-- `_stage`: refuse the group before anything is logged, or answer its effective primitives. -/
def stage (group : MutationGroup) (replace : Option Bool) : Gw (List Primitive) := do
  let w ← get
  if group.graph ∈ w.process.blocked then raise (.applyBlocked group.graph)
  catchUpBeforeWrite gw group.graph
  validateGroup gw group.primitives
  requirePreconditions gw group
  let primitives ← match replace with
    | none => pure group.primitives
    | some replace => expanded gw group replace
  let selected ← guardCall gw group.graph <| graphRead fun w =>
    selectEffectivePrimitives gw.scan (w.content group.graph) primitives
  match selected with
  | .ok effective => return effective
  | .error missing => raise (.rejected (.missingTarget missing.index))

/-! ## What became of a group -/

/-- `_unchanged`. -/
def unchanged (group : MutationGroup) : GroupOutcome :=
  ⟨group.graph, none, none, .unchanged, if group.checkpointRequested then some false else none, none⟩

/-- `_leg_outcome`, and the outcome of `_apply_committed`. -/
def committedOutcome (appended : AppendedGroup) (status : OutcomeStatus) (requested recorded : Bool) : GroupOutcome :=
  ⟨appended.graph, some appended.firstPosition, some appended.lastPosition, status,
    if requested then some recorded else none, if recorded then some appended.lastPosition else none⟩

/-- `_record_checkpoint`: a failure fails the checkpoint only. -/
def recordCheckpoint (appended : AppendedGroup) : Gw Bool :=
  (do
    let digest ← graphRead fun w => gw.canonicalDigest (w.content appended.graph)
    recordDigestCheckpoint appended.graph appended.lastPosition digest
    return true : Gw Bool).handle fun
    | .connection | .redis | .logPersistence | .logUnavailable => pure false
    | e => raise e

/-- `_apply_committed`: a committed group that cannot be applied now is pending, not an error. -/
def applyCommitted (appended : AppendedGroup) (requested : Bool) : Gw GroupOutcome := do
  let status ← (do
    applyPending gw appended.graph none
    return OutcomeStatus.applied : Gw OutcomeStatus).handle fun e =>
      if e = .graphUnavailable ∨ e = .logUnavailable then do
        register appended.graph
        return .committedApplyPending
      else raise e
  let recorded ← if requested ∧ status = .applied then recordCheckpoint gw appended else pure false
  return committedOutcome appended status requested recorded

/-! ## One graph -/

/-- `submit_group`. -/
def submitGroup (group : MutationGroup) : Gw GroupOutcome := do
  lockAll [group.graph]
  let call ← nextCall
  let effective ← stage gw group none
  if effective.isEmpty then return unchanged group
  let appended ← guardCall gw group.graph (appendGroupStandalone ⟨group.graph, effective, call⟩)
  applyCommitted gw appended group.checkpointRequested

/-- `submit_group_in_transaction`: the lock stays with the open submission. -/
def submitGroupInTransaction (group : MutationGroup) : Gw Unit := do
  lockAll [group.graph]
  let call ← nextCall
  let effective ← stage gw group none
  if effective.isEmpty then return
  let appended ← appendGroup ⟨group.graph, effective, call⟩
  modify fun w => { w with process := { w.process with
    submissions := w.process.submissions ++ [⟨call, appended, true, group.checkpointRequested⟩] } }

/-- The end of the transaction a group was staged on. -/
def World.endTransaction (w : World) (submission : ℕ) (committed : Bool) : World :=
  match w.transactions.find? fun t => t.draft.submission = submission with
  | none => w
  | some t =>
    let w' := { w with transactions := w.transactions.filter fun t => t.draft.submission ≠ submission }
    if committed then (w'.append t.draft none).2 else w'

/-- The caller commits: a failed commit has rolled back, or its outcome is unknown. -/
def commitTransaction (submission : ℕ) : Gw Unit := Proc.call fun fate w =>
  match fate with
  | .done => (.returned (), w.endTransaction submission true)
  | .lost => (.raised .logPersistence, w.endTransaction submission true)
  | .dies => (.died, w)
  | _ => (.raised .logPersistence, w.endTransaction submission false)

/-- The caller rolls back. -/
def rollbackTransaction (submission : ℕ) : Gw Unit :=
  modify fun w => w.endTransaction submission false

/-- `StagedSubmission.abort`: release the lock. -/
def abort (submission : ℕ) : Gw Unit :=
  modify fun w => { w with process := { w.process with submissions := w.process.submissions.map fun s =>
    if s.submission = submission then { s with isOpen := false } else s } }

/-- `StagedSubmission.complete`, which closes the submission also when it raises. -/
def complete (submission : ℕ) : Gw GroupOutcome := do
  let w ← get
  match w.process.submissions.find? fun s => s.submission = submission && s.isOpen with
  | none => raise .submissionClosed
  | some s =>
    Proc.andFinally (do
      let last ← readLastPosition s.appended.graph
      if last < s.appended.lastPosition then raise .notCommitted
      applyCommitted gw s.appended s.checkpointRequested) (abort submission)

/-! ## Applying a unit -/

/-- `_Unit`: a lone graph, or the pending legs of a swap set. -/
structure ApplyUnit where
  graphs : List String
  swapSet : Option ℕ
  legs : List AppendedGroup

/-- The legs of a swap set that are not applied yet. -/
def pendingLegs : List AppendedGroup → Gw (List AppendedGroup)
  | [] => pure []
  | leg :: legs => do
    let applied ← readAppliedPosition leg.graph
    let rest ← pendingLegs legs
    return if applied < leg.lastPosition then leg :: rest else rest

/-- `_resolve_unit`. -/
def resolveUnit (g : String) : Gw ApplyUnit :=
  guardCall gw g do
    let applied ← readAppliedPosition g
    match ← readPendingSwapGroup g applied with
    | none => return ⟨[g], none, []⟩
    | some first => do
      let rows ← readSwapSet (first.swapSet.getD 0)
      let legs ← pendingLegs rows
      return ⟨legs.map AppendedGroup.graph, first.swapSet, legs⟩

/-- `_swap_and_advance`. -/
def swapAndAdvance (swapSet : ℕ) (legs : List AppendedGroup) : Gw Unit := do
  swapApply gw swapSet legs
  legs.forM fun leg => guardCall gw leg.graph (advanceAppliedPosition leg.graph leg.lastPosition)

/-- `_swap_unit`: whether the set is applied; else it stays committed, apply pending. -/
def swapUnit (swapSet : ℕ) (legs : List AppendedGroup) : Gw Bool := do
  let graphs := legs.map AppendedGroup.graph
  (do
    swapAndAdvance gw swapSet legs
    unblockUnit graphs
    return true : Gw Bool).handle fun
    | .swapConflict => do
      blockUnit graphs
      return false
    | .graphApply g => do
      blockUnit graphs
      raise (.graphApply g)
    | .graphUnavailable | .logUnavailable => do
      graphs.forM register
      return false
    | e => raise e

/-- `_apply_unit`: a lone graph in place, a swap set by swap after what lies ahead of each leg's swap group. -/
def applyUnit (u : ApplyUnit) : Gw Bool :=
  match u.swapSet with
  | none => do
    applyPending gw (u.graphs.headD "") none
    return true
  | some swapSet => do
    u.legs.forM fun leg => applyPending gw leg.graph (some leg.firstPosition)
    swapUnit gw swapSet u.legs

/-- `_standing`. -/
def standing (g : String) : Gw CatchUpResult := do
  let applied ← readAppliedPosition g
  let last ← readLastPosition g
  return ⟨g, applied, last, applied = last⟩

/-- `_catch_up_unit`. -/
def catchUpUnit (g : String) (u : ApplyUnit) : Gw CatchUpResult := do
  let _ ← (applyUnit gw u).handle fun e =>
    if e = .graphUnavailable then do
      u.graphs.forM register
      return false
    else raise e
  standing g

/-- `_with_unit` around `_catch_up_unit`: the unit is resolved, its locks are taken, it is resolved again. -/
def withUnit (g : String) : ℕ → Gw CatchUpResult
  | 0 => do
    register g
    raise .graphUnavailable
  | attempts + 1 => do
    let u ← resolveUnit gw g
    lockAll u.graphs
    let current ← resolveUnit gw g
    if current.graphs ⊆ u.graphs then catchUpUnit gw g current else withUnit g attempts

/-- `catch_up`, with `_UNIT_ATTEMPTS`. -/
def catchUp (g : String) : Gw CatchUpResult := withUnit gw g 3

/-- `recover`: a graph that cannot be applied does not stop the others. -/
def recover : Gw Unit := do
  let graphs ← readGraphsWithPendingEntries
  graphs.forM fun g => (do
    let _ ← catchUp gw g
    return () : Gw Unit).handle fun
      | .graphApply _ | .applyBlocked _ | .logUnavailable => pure ()
      | e => raise e

def forget (g : String) : Gw Unit :=
  modify fun w => { w with process := { w.process with reconciling := w.process.reconciling.erase g } }

/-- One pass of `GraphReconciler`: a graph leaves the pending set when it is caught up or refused. -/
def reconcile : Gw Unit := do
  let w ← get
  (w.process.reconciling.sort (· ≤ ·)).forM fun g => (do
    let result ← catchUp gw g
    if result.caughtUp then forget g : Gw Unit).handle fun
      | .graphApply _ | .applyBlocked _ => forget g
      | _ => pure ()

/-! ## Several graphs -/

/-- The legs with their effective primitives. -/
def stageLegs : List GraphLeg → Gw (List (GraphLeg × List Primitive))
  | [] => pure []
  | leg :: legs => do
    let effective ← stage gw leg.toMutationGroup (some leg.replace)
    let rest ← stageLegs legs
    return (leg, effective) :: rest

/-- One leg of a set applied in place; after a refusal the later committed legs wait for `catch_up`. -/
def applyLegInPlace (appended : List AppendedGroup) (leg : GraphLeg) (legs : List GraphLeg) : Gw GroupOutcome :=
  match appended.find? fun a => a.graph = leg.graph with
  | none => pure (unchanged leg.toMutationGroup)
  | some a => (applyCommitted gw a leg.checkpointRequested).handle fun
    | .graphApply g => do
      (legs.filter fun rest => appended.any fun a => a.graph = rest.graph).forM fun rest => register rest.graph
      raise (.graphApply g)
    | e => raise e

/-- `_apply_legs_in_place`. -/
def applyLegsInPlace (appended : List AppendedGroup) : List GraphLeg → Gw (List GroupOutcome)
  | [] => pure []
  | leg :: legs => do
    let outcome ← applyLegInPlace gw appended leg legs
    let outcomes ← applyLegsInPlace appended legs
    return outcome :: outcomes

/-- A leg of a swapped set, with the checkpoint it asks for. -/
def recordLeg (appended : List AppendedGroup) (status : Bool) (leg : GraphLeg) : Gw GroupOutcome :=
  match appended.find? fun a => a.graph = leg.graph with
  | none => pure (unchanged leg.toMutationGroup)
  | some a => do
    let recorded ← if leg.checkpointRequested ∧ status then recordCheckpoint gw a else pure false
    return committedOutcome a (if status then .applied else .committedApplyPending) leg.checkpointRequested recorded

def recordLegs (appended : List AppendedGroup) (status : Bool) : List GraphLeg → Gw (List GroupOutcome)
  | [] => pure []
  | leg :: legs => do
    let outcome ← recordLeg gw appended status leg
    let outcomes ← recordLegs appended status legs
    return outcome :: outcomes

/-- `_apply_legs_by_swap`. -/
def applyLegsBySwap (swapSet : ℕ) (appended : List AppendedGroup) (legs : List GraphLeg) :
    Gw (List GroupOutcome) := do
  let status ← swapUnit gw swapSet appended
  recordLegs gw appended status legs

/-- `submit_multi_graph_group`. -/
def submitMultiGraphGroup (group : MultiGraphGroup) : Gw (List GroupOutcome) := do
  lockAll (group.legs.map fun leg => leg.graph)
  let call ← nextCall
  let staged ← stageLegs gw group.legs
  let changing := staged.filter fun leg => !leg.2.isEmpty
  if changing.isEmpty then return group.legs.map fun leg => unchanged leg.toMutationGroup
  let drafts := changing.map fun leg => (⟨leg.1.graph, leg.2, call⟩ : GroupDraft)
  let swapSet := if group.swap then some call else none
  let appended ← guardCall gw ((drafts.map GroupDraft.graph).headD "") (appendGroupsStandalone drafts swapSet)
  match swapSet with
  | none => applyLegsInPlace gw appended group.legs
  | some swapSet => applyLegsBySwap gw swapSet appended group.legs

/-! ## Runs -/

/-- A call of the gateway, or a move of a caller that staged a group on its own transaction. -/
inductive GatewayCall where
  | submitGroup (group : MutationGroup)
  | submitGroupInTransaction (group : MutationGroup)
  | commit (submission : ℕ)
  | rollback (submission : ℕ)
  | complete (submission : ℕ)
  | abort (submission : ℕ)
  | submitMultiGraphGroup (group : MultiGraphGroup)
  | catchUp (graph : String)
  | recover
  | reconcile
  | restart

/-- The program of a call, its answer dropped. -/
def GatewayCall.program : GatewayCall → Gw Unit
  | submitGroup group => do let _ ← PolicySystem.submitGroup gw group
  | submitGroupInTransaction group => PolicySystem.submitGroupInTransaction gw group
  | commit submission => commitTransaction submission
  | rollback submission => rollbackTransaction submission
  | complete submission => do let _ ← PolicySystem.complete gw submission
  | abort submission => PolicySystem.abort submission
  | submitMultiGraphGroup group => do let _ ← PolicySystem.submitMultiGraphGroup gw group
  | catchUp graph => do let _ ← PolicySystem.catchUp gw graph
  | recover => PolicySystem.recover gw
  | reconcile => PolicySystem.reconcile gw
  | restart => modify World.crash

/-- **A run of the gateway**: calls one after the other, each under its own schedule of fates. -/
def runCalls (w : World) (calls : List (GatewayCall × List Fate)) : World :=
  Proc.runAll World.crash w (calls.map fun c => (c.1.program gw, c.2))

end PolicySystem
