import PolicySystem.Gateway.GraphWriteGateway

/-!
# The replayer

A graph is rebuilt from its log, page by page, and compared with a checkpoint (`graph_gateway/replay.py`,
`replay_state.py`). What the process remembers of a replay, its gate, is another module's.

* `replay`: the log is applied to the highest checkpoint, the graph is compared, the rest follows; the record in the
  graph says how far it came;
* `classify`, `startupGraph`: what a start of the service does about one graph.
-/

namespace PolicySystem

open Faults Proc

/-! ## What a replay raises -/

/-- The exceptions of a replay. -/
inductive ReplayErr where
  /-- `GraphDigestMismatchError`. -/
  | digestMismatch (graph : String) (position : ℕ) (expected actual : String)
  /-- `GraphLogGapError`. -/
  | logGap (graph : String) (position : ℕ)
  /-- `GraphLogCorruptEntryError`. -/
  | logCorruptEntry (graph : String) (position : ℕ)
  /-- `GraphReplayUnverifiableError`. -/
  | unverifiable (graph : String) (position : ℕ)
  /-- `GraphReplayGatedError`, with `failed=True`. -/
  | gated (graph : String) (position : ℕ)
  /-- `GraphReplayStoppedError`. -/
  | stopped (graph : String) (position : ℕ)
  /-- What the log or the graph store raised. -/
  | outage (e : Err)
  deriving DecidableEq

/-- The class name and the position of a `GraphReplayError`; the other exceptions are none. -/
def ReplayErr.graphReplayError : ReplayErr → Option (String × ℕ)
  | digestMismatch _ position _ _ => some ("GraphDigestMismatchError", position)
  | logGap _ position => some ("GraphLogGapError", position)
  | logCorruptEntry _ position => some ("GraphLogCorruptEntryError", position)
  | unverifiable _ position => some ("GraphReplayUnverifiableError", position)
  | gated .. | stopped .. | outage _ => none

/-- A program of the replayer. -/
abbrev Rp (α : Type) : Type := Proc World Fate ReplayErr α

/-- Calls to the log and the graph store are not retried. -/
def onStores {α : Type} (p : Gw α) : Rp α := translate .outage p

/-! ## The record in the graph -/

/-- What is stored under a graph key; a key that does not exist reads as an empty graph. -/
def World.stored (w : World) (g : String) : StoredGraph := (w.live g).getD {}

/-- `NOT_VERIFIED`. -/
def notVerified : ℤ := -1

/-- `read_replay_state`. -/
def readReplayState (g : String) : Gw (Option ReplayState) := graphRead fun w => (w.stored g).replayState

/-- `write_replay_state`. -/
def writeReplayState (g : String) (state : ReplayState) : Gw Unit :=
  graphWrite fun w => some (w.setLive g { w.stored g with replayState := some state })

/-- `delete_replay_state`. -/
def deleteReplayState (g : String) : Gw Unit :=
  graphWrite fun w => some (w.setLive g { w.stored g with replayState := none })

/-- `_recorded_verified`. -/
def recordedVerified (g : String) : Gw ℤ := do
  let recorded ← readReplayState g
  return (recorded.map ReplayState.verified).getD notVerified

/-! ## Progress -/

/-- `_Progress`. -/
structure Progress where
  applied : ℕ
  verified : ℤ
  resumedFrom : ℕ
  deriving DecidableEq

def Progress.movedTo (progress : Progress) (applied : ℕ) : Progress := { progress with applied := applied }

def Progress.verifiedAt (progress : Progress) (position : ℕ) : Progress := { progress with verified := position }

/-- `_Progress.record`, in progress. -/
def Progress.record (progress : Progress) : ReplayState := ⟨progress.applied, false, "", progress.verified⟩

/-- `ReplayReport`. -/
structure ReplayReport where
  graph : String
  head : ℕ
  verifiedPosition : Option ℕ
  unverifiedEntries : ℕ
  pages : ℕ
  resumedFrom : ℕ
  deriving DecidableEq

/-! ## Pages -/

/-- The loop of `_decode_page`: entries that are contiguous from `next` and decode, and what ended them early. -/
def decodeFrom (g : String) (next : ℕ) : List LogRow → List Positioned × Option ReplayErr
  | [] => ([], none)
  | row :: rows =>
    if row.position ≠ next then ([], some (.logGap g next))
    else
      match row.primitive with
      | none => ([], some (.logCorruptEntry g row.position))
      | some p => ((row.position, p) :: (decodeFrom g (next + 1) rows).1, (decodeFrom g (next + 1) rows).2)

/-- `_decode_page`. -/
def decodePage (g : String) (entries : List LogRow) (first expected : ℕ) : List Positioned × Option ReplayErr :=
  match decodeFrom g first entries with
  | (decoded, some failure) => (decoded, some failure)
  | (decoded, none) =>
    if entries.length < expected then (decoded, some (.logGap g (first + entries.length))) else (decoded, none)

/-- `GraphReplayer`: its settings. -/
structure GraphReplayer where
  batchSize : ℕ
  pageSize : ℕ
  batchSize_pos : 1 ≤ batchSize
  pageSize_pos : 1 ≤ pageSize

variable (canonicalDigest : Graph → String) (replayer : GraphReplayer) (g : String)

/-- `should_stop`, asked before every page: it may answer yes at any time. -/
def shouldStop : Rp Bool := Proc.call fun fate w =>
  match fate with
  | .dies => (.died, w)
  | .done => (.returned false, w)
  | _ => (.returned true, w)

/-- `_page_limit`. -/
def pageLimit (nextPosition head verifyAt : ℕ) : ℕ :=
  let limit := min replayer.pageSize (head - nextPosition + 1)
  if nextPosition ≤ verifyAt then min limit (verifyAt - nextPosition + 1) else limit

/-- `_apply_page`. -/
def applyPage (entries : List LogRow) (first expected : ℕ) : Rp ℕ := do
  let page := decodePage g entries first expected
  if page.1.isEmpty then pure ()
  else onStores do
    ensureIndexes page.1
    applyDecoded (queryLive g) (fun _ => pure ()) replayer.batchSize page.1
  match page.2 with
  | some failure => raise failure
  | none => return first + page.1.length

/-- `_advance`. -/
def advance (entries : List LogRow) (progress : Progress) (expected : ℕ) : Rp Progress := do
  let next ← applyPage replayer g entries (progress.applied + 1) expected
  onStores (writeReplayState g (progress.movedTo (next - 1)).record)
  return progress.movedTo (next - 1)

/-- `_verify`. -/
def verify (checkpoint : DigestCheckpoint) : Rp Unit := do
  let actual ← onStores (graphRead fun w => canonicalDigest (w.stored g).content)
  if actual ≠ checkpoint.canonicalDigest then
    raise (.digestMismatch checkpoint.graph checkpoint.position checkpoint.canonicalDigest actual)

/-- Compare the graph with the checkpoint it stands on, and put that on record. -/
def verifyAndRecord (checkpoint : DigestCheckpoint) (progress : Progress) : Rp Progress := do
  verify canonicalDigest g checkpoint
  onStores (writeReplayState g (progress.verifiedAt checkpoint.position).record)
  return progress.verifiedAt checkpoint.position

/-- `_start_or_resume`. -/
def startOrResume (checkpoint : Option DigestCheckpoint) : Rp Progress := do
  match ← onStores (readReplayState g) with
  | none => do
    let fresh : Progress := ⟨0, notVerified, 0⟩
    onStores (writeReplayState g fresh.record)
    return fresh
  | some recorded => do
    if recorded.failed then raise (.gated g recorded.position)
    let progress : Progress := ⟨recorded.position, recorded.verified, recorded.position + 1⟩
    match checkpoint with
    | none => return progress
    | some checkpoint =>
      if progress.applied < checkpoint.position then return progress
      else if progress.verified = checkpoint.position then return progress
      else if checkpoint.position < progress.applied then raise (.unverifiable checkpoint.graph checkpoint.position)
      else verifyAndRecord canonicalDigest g checkpoint progress

/-- The loop of `_replay_recorded`. Every pass adds at least one entry, so `head - applied` passes are enough. -/
def replayPages (head : ℕ) (checkpoint : Option DigestCheckpoint) : ℕ → Progress → ℕ → Rp (Progress × ℕ)
  | 0, progress, pages => pure (progress, pages)
  | more + 1, progress, pages => do
    if head ≤ progress.applied then return (progress, pages)
    if ← shouldStop then raise (.stopped g progress.applied)
    let limit := pageLimit replayer (progress.applied + 1) head ((checkpoint.map DigestCheckpoint.position).getD 0)
    let entries ← onStores (readEntries g progress.applied (some limit))
    let moved ← advance replayer g entries progress limit
    let progress ← match checkpoint with
      | none => pure moved
      | some checkpoint =>
        if moved.applied = checkpoint.position ∧ (checkpoint.position : ℤ) ≠ moved.verified then
          verifyAndRecord canonicalDigest g checkpoint moved
        else pure moved
    replayPages head checkpoint more progress (pages + 1)

/-- `_replay_recorded`. -/
def replayRecorded (head : ℕ) : Rp ReplayReport := do
  let checkpoint ← onStores (readHighestCheckpointAtOrBelow g head)
  let verifyAt := (checkpoint.map DigestCheckpoint.position).getD 0
  let progress ← startOrResume canonicalDigest g checkpoint
  let (done, pages) ← replayPages canonicalDigest replayer g head checkpoint (head - progress.applied) progress 0
  onStores (advanceAppliedPosition g head)
  onStores (deleteReplayState g)
  return ⟨g, head, if verifyAt = 0 then none else some verifyAt, head - verifyAt, pages, done.resumedFrom⟩

/-- `GraphReplayer.replay`: a replay that fails is recorded as failed. -/
def replay : Rp ReplayReport := do
  let head ← onStores (readLastPosition g)
  if head = 0 then return ⟨g, 0, none, 0, 0, 0⟩
  (replayRecorded canonicalDigest replayer g head).handle fun e =>
    match e.graphReplayError with
    | none => raise e
    | some (kind, position) => do
      let verified ← onStores (recordedVerified g)
      onStores (writeReplayState g ⟨position, true, kind, verified⟩)
      raise e

/-! ## Starts of the service -/

/-- `StartupAction`. -/
inductive StartupStep where
  | resume
  | replay
  | catchUp
  | untouched
  deriving DecidableEq

/-- `_nets_to_empty`, with the digest of the empty graph. -/
def netsToEmpty (head applied : ℕ) : Gw Bool := do
  if applied ≠ head then return false
  let checkpoint ← logRead fun w => w.checkpoints.find? fun c => c.graph = g ∧ c.position = head
  return (checkpoint.map DigestCheckpoint.canonicalDigest) = some (canonicalDigest ∅)

/-- `GraphReplayer.classify`. -/
def classify : Gw StartupStep := do
  let recorded ← readReplayState g
  if recorded.isSome then return .resume
  let head ← readLastPosition g
  let applied ← readAppliedPosition g
  let holdsNode ← graphRead fun w => !(w.stored g).content.nodes.isEmpty
  if holdsNode then return if applied < head then .catchUp else .untouched
  return if ← netsToEmpty canonicalDigest g head applied then .untouched else .replay

/-- The lists of a `StartupReplayReport`. -/
inductive StartupOutcome where
  | replayed
  | resumed
  | caughtUp
  | untouched
  | gated
  deriving DecidableEq

/-- `_startup_catch_up`. -/
def startupCatchUp (gw : GraphWriteGateway) : Rp StartupOutcome :=
  (do
    let result ← onStores (catchUp gw g)
    return if result.caughtUp then .caughtUp else .gated : Rp StartupOutcome).handle fun
    | .outage (.graphApply _) | .outage (.applyBlocked _) | .outage .logUnavailable => pure .gated
    | e => raise e

/-- `classify` and `_startup_graph`: a graph that is gated does not stop the others. -/
def startupGraph (gw : GraphWriteGateway) : Rp StartupOutcome := do
  match ← onStores (classify gw.canonicalDigest g) with
  | .untouched => return .untouched
  | .catchUp => startupCatchUp g gw
  | step => (do
      let _ ← replay gw.canonicalDigest replayer g
      return if step = .resume then .resumed else .replayed : Rp StartupOutcome).handle fun
      | .gated .. => pure .gated
      | e => if e.graphReplayError.isSome then pure .gated else raise e

end PolicySystem
