import PolicySystem.Faults.Proc
import PolicySystem.Gateway.Applier

/-!
# The graph log and the graph store

What the gateway works on (`graph_gateway/store.py`, `connection.py`, `key_port.py`): the log tables in
Postgres, the graph keys in FalkorDB and the state of the process, with every external call a program whose
fate the schedule decides.

* `World`, and `World.crash`: what a death leaves;
* `logRead`, `logWrite`, `graphRead`, `graphWrite`: the four kinds of call, and how each may fail;
* `World.append`: a group takes the next positions of its graph.
-/

namespace PolicySystem

open Faults

/-! ## The tables -/

/-- A row of `graph_log.entries`; `primitive` is what `decode_entry` makes of it, if it decodes. -/
structure LogRow where
  position : ℕ
  primitive : Option Primitive
  deriving DecidableEq

/-- A row of `graph_log.groups`. `submission` names the call that appended it, and a swap set by its call. -/
structure GroupRow where
  graph : String
  firstPosition : ℕ
  lastPosition : ℕ
  submission : ℕ
  swapSet : Option ℕ
  deriving DecidableEq

/-- `DigestCheckpoint`. -/
structure DigestCheckpoint where
  graph : String
  position : ℕ
  canonicalDigest : String
  deriving DecidableEq

/-- `ReplayState`: the sentinel node of a replay, bookkeeping and not graph content. `verified = -1` is
`NOT_VERIFIED`. -/
structure ReplayState where
  position : ℕ
  failed : Bool
  kind : String
  verified : ℤ
  deriving DecidableEq

/-- What one graph key holds. -/
structure StoredGraph where
  content : Graph := ∅
  replayState : Option ReplayState := none
  deriving DecidableEq

/-- `GraphLogGroupDraft`, with the call that drafted it. -/
structure GroupDraft where
  graph : String
  primitives : List Primitive
  submission : ℕ
  deriving DecidableEq

/-- `AppendedGroup`, and the `SwapGroupRef` of a swap set's leg. -/
structure AppendedGroup where
  graph : String
  firstPosition : ℕ
  lastPosition : ℕ
  swapSet : Option ℕ
  deriving DecidableEq

/-- A group appended on a caller's transaction that has not ended. -/
structure OpenTransaction where
  draft : GroupDraft
  deriving DecidableEq

/-- `StagedSubmission`: it holds its graph's lock while it is open. -/
structure StagedSubmission where
  submission : ℕ
  appended : AppendedGroup
  isOpen : Bool
  checkpointRequested : Bool
  deriving DecidableEq

/-- The state of the gateway process. -/
structure Process where
  blocked : Finset String := ∅
  blockedUnits : List (String × List String) := []
  reconciling : Finset String := ∅
  submissions : List StagedSubmission := []
  deriving DecidableEq

/-- **The world of the gateway.** -/
structure World where
  entries : String → List LogRow
  groups : List GroupRow
  applied : String → ℕ
  checkpoints : List DigestCheckpoint
  transactions : List OpenTransaction
  live : String → Option StoredGraph
  staged : String → ℕ → Option StoredGraph
  process : Process
  calls : ℕ

/-- What a death leaves: the process's state is gone and its transactions are rolled back. -/
def World.crash (w : World) : World := { w with process := {}, transactions := [] }

/-- A world with nothing logged, over the graph keys that exist. -/
def World.initial (live : String → Option StoredGraph) : World where
  entries _ := []
  groups := []
  applied _ := 0
  checkpoints := []
  transactions := []
  live := live
  staged _ _ := none
  process := {}
  calls := 0

/-- What a live graph shows; a key that does not exist shows an empty graph. -/
def World.content (w : World) (g : String) : Graph := ((w.live g).getD {}).content

/-- `SELECT coalesce(max(position), 0)`. -/
def lastPositionOf (rows : List LogRow) : ℕ := (rows.map LogRow.position).foldr max 0

def World.lastPosition (w : World) (g : String) : ℕ := lastPositionOf (w.entries g)

/-! ## Calls -/

/-- How an external call ends. `lost`: it took effect and its reply was lost. `conflict`: a watched key changed. -/
inductive Fate where
  | done
  | unreachable
  | lost
  | refused
  | conflict
  | dies
  deriving DecidableEq

/-- Why a group is refused before anything is logged (`GraphWriteRejectedError`). -/
inductive Rejection where
  | unlistedName
  | missingTarget (index : ℕ)
  | staleGraphState (graph : String) (expected actual : ℕ)
  deriving DecidableEq

/-- The exceptions of the gateway, the log and the graph store. -/
inductive Err where
  | connection
  | redis
  | logUnavailable
  | logPersistence
  | graphUnavailable
  | graphApply (graph : String)
  | applyBlocked (graph : String)
  | rejected (why : Rejection)
  | swapConflict
  | entryDecode (position : ℕ)
  | notCommitted
  | submissionClosed
  | waiting
  deriving DecidableEq

/-- A program of the gateway. -/
abbrev Gw (α : Type) : Type := Proc World Fate Err α

/-- A read of the log tables, on its own connection. -/
def logRead {α : Type} (read : World → α) : Gw α := Proc.call fun fate w =>
  match fate with
  | .done => (.returned (read w), w)
  | .dies => (.died, w)
  | _ => (.raised .logUnavailable, w)

/-- A transaction on the log tables: `none` where the database refuses it. A connection that cannot be opened
is `GraphLogUnavailableError`; past that a failure is `GraphLogPersistenceError`, the commit's outcome unknown. -/
def logWrite {α : Type} (write : World → Option (α × World)) : Gw α := Proc.call fun fate w =>
  match fate, write w with
  | .dies, _ => (.died, w)
  | .unreachable, _ => (.raised .logUnavailable, w)
  | .done, some (a, w') => (.returned a, w')
  | .lost, some (_, w') => (.raised .logPersistence, w')
  | _, _ => (.raised .logPersistence, w)

/-- A read query against the graph store. -/
def graphRead {α : Type} (read : World → α) : Gw α := Proc.call fun fate w =>
  match fate with
  | .done => (.returned (read w), w)
  | .dies => (.died, w)
  | .unreachable | .lost => (.raised .connection, w)
  | .refused | .conflict => (.raised .redis, w)

/-- A write against the graph store, which is atomic: `none` where the store refuses it. -/
def graphWrite (write : World → Option World) : Gw Unit := Proc.call fun fate w =>
  match fate, write w with
  | .dies, _ => (.died, w)
  | .unreachable, _ => (.raised .connection, w)
  | .done, some w' => (.returned (), w')
  | .lost, some w' => (.raised .connection, w')
  | .lost, none => (.raised .connection, w)
  | _, _ => (.raised .redis, w)

/-! ## Reads of the log -/

/-- `read_entries`. -/
def readEntries (g : String) (after : ℕ) (limit : Option ℕ) : Gw (List LogRow) :=
  logRead fun w =>
    let rows := (w.entries g).filter fun row => after < row.position
    match limit with
    | none => rows
    | some n => rows.take n

/-- `last_position`. -/
def readLastPosition (g : String) : Gw ℕ := logRead fun w => w.lastPosition g

/-- `read_applied_position`. -/
def readAppliedPosition (g : String) : Gw ℕ := logRead fun w => w.applied g

/-- The distinct graphs of the log, in name order. -/
def World.loggedGraphs (w : World) : List String := ((w.groups.map GroupRow.graph).dedup).mergeSort (· ≤ ·)

/-- `graphs_with_pending_entries`. -/
def readGraphsWithPendingEntries : Gw (List String) :=
  logRead fun w => w.loggedGraphs.filter fun g => w.applied g < w.lastPosition g

def GroupRow.appended (row : GroupRow) : AppendedGroup :=
  ⟨row.graph, row.firstPosition, row.lastPosition, row.swapSet⟩

/-- The first swap group of a graph beyond a position. -/
def World.pendingSwapGroup (w : World) (g : String) (applied : ℕ) : Option GroupRow :=
  ((w.groups.filter fun row => row.graph = g ∧ row.swapSet.isSome ∧ applied < row.lastPosition).mergeSort
    fun a b => a.firstPosition ≤ b.firstPosition).head?

/-- `read_pending_swap_group`. -/
def readPendingSwapGroup (g : String) (applied : ℕ) : Gw (Option AppendedGroup) :=
  logRead fun w => (w.pendingSwapGroup g applied).map GroupRow.appended

/-- The legs of a swap set, in graph order. -/
def World.swapSetRows (w : World) (swapSet : ℕ) : List GroupRow :=
  (w.groups.filter fun row => row.swapSet = some swapSet).mergeSort fun a b => a.graph ≤ b.graph

/-- `read_swap_set`. -/
def readSwapSet (swapSet : ℕ) : Gw (List AppendedGroup) :=
  logRead fun w => (w.swapSetRows swapSet).map GroupRow.appended

/-! ## Writes of the log -/

/-- `_insert_group`: the group takes the graph's next contiguous positions. -/
def World.append (w : World) (draft : GroupDraft) (swapSet : Option ℕ) : AppendedGroup × World :=
  let last := w.lastPosition draft.graph
  let rows := draft.primitives.mapIdx fun i p => ⟨last + 1 + i, some p⟩
  let row : GroupRow := ⟨draft.graph, last + 1, last + draft.primitives.length, draft.submission, swapSet⟩
  (row.appended,
    { w with
      entries := Function.update w.entries draft.graph (w.entries draft.graph ++ rows)
      groups := w.groups ++ [row] })

/-- An open transaction holds the advisory lock of its graph. -/
def World.isAppending (w : World) (g : String) : Bool := w.transactions.any fun t => t.draft.graph = g

/-- `append_group`: on the caller's transaction, which decides later whether the rows become visible. -/
def appendGroup (draft : GroupDraft) : Gw AppendedGroup :=
  logWrite fun w =>
    if w.isAppending draft.graph then none
    else some ((w.append draft none).1, { w with transactions := w.transactions ++ [⟨draft⟩] })

/-- `append_group_standalone`. -/
def appendGroupStandalone (draft : GroupDraft) : Gw AppendedGroup :=
  logWrite fun w => if w.isAppending draft.graph then none else some (w.append draft none)

/-- Groups one after the other in one transaction. -/
def World.appendAll (w : World) (drafts : List GroupDraft) (swapSet : Option ℕ) : List AppendedGroup × World :=
  drafts.foldl (fun (done, w) draft => (done ++ [(w.append draft swapSet).1], (w.append draft swapSet).2)) ([], w)

theorem World.appendAll_eq_foldl (w : World) (drafts : List GroupDraft) (swapSet : Option ℕ) :
    w.appendAll drafts swapSet =
      drafts.foldl (fun p draft => (p.1 ++ [(p.2.append draft swapSet).1], (p.2.append draft swapSet).2)) ([], w) := rfl

/-- `append_groups_standalone`, with a fresh swap set where the set is to be swapped. -/
def appendGroupsStandalone (drafts : List GroupDraft) (swapSet : Option ℕ) : Gw (List AppendedGroup) :=
  logWrite fun w =>
    if drafts.any fun draft => w.isAppending draft.graph then none else some (w.appendAll drafts swapSet)

/-- `advance_applied_position`: forward only, and never past the last logged position. -/
def advanceAppliedPosition (g : String) (position : ℕ) : Gw Unit :=
  logWrite fun w =>
    if w.lastPosition g < position then none
    else some ((), { w with applied := Function.update w.applied g (max (w.applied g) position) })

/-- `record_digest_checkpoint`: a checkpoint is never replaced. -/
def recordDigestCheckpoint (g : String) (position : ℕ) (digest : String) : Gw Unit :=
  logWrite fun w =>
    if w.checkpoints.any fun c => c.graph = g ∧ c.position = position then none
    else some ((), { w with checkpoints := w.checkpoints ++ [⟨g, position, digest⟩] })

/-- `read_highest_checkpoint_at_or_below`. -/
def readHighestCheckpointAtOrBelow (g : String) (position : ℕ) : Gw (Option DigestCheckpoint) :=
  logRead fun w => ((w.checkpoints.filter fun c => c.graph = g ∧ c.position ≤ position).mergeSort
    fun a b => b.position ≤ a.position).head?

/-! ## The graph store -/

def World.setLive (w : World) (g : String) (stored : StoredGraph) : World :=
  { w with live := Function.update w.live g (some stored) }

def World.setStaged (w : World) (g : String) (swapSet : ℕ) (stored : Option StoredGraph) : World :=
  { w with staged := Function.update w.staged g (Function.update (w.staged g) swapSet stored) }

/-- A graph after a write query. -/
def StoredGraph.query (stored : StoredGraph) (query : Query) : StoredGraph :=
  { stored with content := query.run stored.content }

/-- A write query against a live graph, which it creates where it is missing. -/
def queryLive (g : String) (query : Query) : Gw Unit :=
  graphWrite fun w => some (w.setLive g (((w.live g).getD {}).query query))

/-- A write query against a staged copy. -/
def queryStaged (g : String) (swapSet : ℕ) (query : Query) : Gw Unit :=
  graphWrite fun w => some (w.setStaged g swapSet (some (((w.staged g swapSet).getD {}).query query)))

/-- `IdIndexes.ensure`: the id indexes of the labels a write names; they hold no content. -/
def ensureIndexes (decoded : List Positioned) : Gw Unit :=
  if decoded.isEmpty then pure () else graphRead fun _ => ()

/-- `GraphKeyPort.copy`: it fails where the staged key exists; a live graph that was never created copies as an
empty graph, by a query that creates the staged key where it is missing. -/
def copyToStaged (g : String) (swapSet : ℕ) : Gw Unit :=
  graphWrite fun w =>
    match w.live g, w.staged g swapSet with
    | some stored, none => some (w.setStaged g swapSet (some stored))
    | some _, some _ => none
    | none, stored => some (w.setStaged g swapSet (some (stored.getD {})))

/-- `GraphKeyPort.discard`: the staged keys that exist are deleted. -/
def discardStaged (graphs : List String) (swapSet : ℕ) : Gw Unit :=
  graphWrite fun w => some (graphs.foldl (fun w g => w.setStaged g swapSet none) w)

/-- `GraphKeyPort.watching`. -/
def watchLive : Gw Unit := graphRead fun _ => ()

/-- Rename the staged key of a graph over its live key; without one nothing is renamed. -/
def World.rename (w : World) (swapSet : ℕ) (g : String) : World :=
  match w.staged g swapSet with
  | none => w
  | some stored => (w.setLive g stored).setStaged g swapSet none

/-- `KeySwapper.swap_in`: one `MULTI`/`EXEC` of renames. A watched key that changed leaves all as it was; a
staged key that is missing fails its own rename only. -/
def swapIn (graphs : List String) (swapSet : ℕ) : Gw Unit := Proc.call fun fate w =>
  let renamed := graphs.foldl (fun w g => w.rename swapSet g) w
  match fate with
  | .done =>
    if graphs.all fun g => (w.staged g swapSet).isSome then (.returned (), renamed) else (.raised .redis, renamed)
  | .lost => (.raised .connection, renamed)
  | .unreachable => (.raised .connection, w)
  | .refused => (.raised .redis, w)
  | .conflict => (.raised .swapConflict, w)
  | .dies => (.died, w)

end PolicySystem
