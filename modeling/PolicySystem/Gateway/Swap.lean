import PolicySystem.Gateway.Store
import PolicySystem.Gateway.Replace

/-!
# Retries and swap sets

`graph_gateway/retry.py`, the entry points of `applier.py` and `swap.py`.

* `guardCall`: a step with retries, its errors sanitized;
* `applyEntries`: decode log entries and apply them;
* `swapApply`: build a swap set on staged copies and rename them over the live graphs together.
-/

namespace PolicySystem

open Faults Proc

/-- `GatewaySettings`, with what `__post_init__` demands. -/
structure GatewaySettings where
  batchSize : ℕ
  maxAttempts : ℕ
  batchSize_pos : 1 ≤ batchSize
  maxAttempts_pos : 1 ≤ maxAttempts

/-- The gateway: its settings, what it may name, the order scans answer in and the digest of a graph. -/
structure GraphWriteGateway where
  settings : GatewaySettings
  allow : AllowList
  scan : ScanOrder
  canonicalDigest : Graph → String

/-- `TRANSIENT_ERRORS`. -/
def isTransient : Err → Bool
  | .connection | .logUnavailable => true
  | _ => false

variable (gw : GraphWriteGateway)

/-- `GraphCallGuard.call`. -/
def guardCall {α : Type} (g : String) (operation : Gw α) : Gw α :=
  (retry isTransient operation (gw.settings.maxAttempts - 1)).handle fun
    | .connection => raise .graphUnavailable
    | .redis => raise (.graphApply g)
    | e => raise e

/-- Each row decoded, or the first that does not decode. -/
def decodeEntries : List LogRow → Gw (List Positioned)
  | [] => pure []
  | row :: rows =>
    match row.primitive with
    | none => raise (.entryDecode row.position)
    | some p => do
      let decoded ← decodeEntries rows
      return (row.position, p) :: decoded

/-- `apply_entries`, against the graph that `query` writes to. -/
def applyEntries (query : Query → Gw Unit) (rows : List LogRow) (onRunApplied : ℕ → Gw Unit) : Gw Unit := do
  let decoded ← decodeEntries rows
  ensureIndexes decoded
  applyDecoded query onRunApplied gw.settings.batchSize decoded

/-! ## Swap sets -/

/-- `SwapApplier._pending_entries`. -/
def pendingEntries (g : String) : Gw (List LogRow) :=
  guardCall gw g do
    let applied ← readAppliedPosition g
    readEntries g applied none

/-- `SwapApplier._stage_leg`. -/
def stageLeg (g : String) (swapSet : ℕ) (rows : List LogRow) : Gw Unit := do
  guardCall gw g (copyToStaged g swapSet)
  guardCall gw g (applyEntries gw (queryStaged g swapSet) rows fun _ => pure ())

/-- `SwapApplier._discard`: an unreachable graph store leaves the keys to the next try. -/
def discard (graphs : List String) (swapSet : ℕ) : Gw Unit :=
  (discardStaged graphs swapSet).handle fun
    | .connection | .redis => pure ()
    | e => raise e

/-- `SwapApplier._flip`: the rename is never retried. -/
def flip (graphs : List String) (swapSet : ℕ) : Gw Unit :=
  (swapIn graphs swapSet).handle fun
    | .connection => raise .graphUnavailable
    | .redis => raise (.graphApply (graphs.headD ""))
    | e => raise e

/-- `SwapApplier._attempt`. -/
def swapAttempt (swapSet : ℕ) (legs : List (AppendedGroup × List LogRow)) : Gw Unit := do
  let graphs := legs.map fun leg => leg.1.graph
  discard graphs swapSet
  watchLive
  legs.forM fun leg => stageLeg gw leg.1.graph swapSet leg.2
  flip graphs swapSet

/-- The tries of `SwapApplier.apply`: a refused rename starts over from fresh copies. -/
def swapTries (swapSet : ℕ) (legs : List (AppendedGroup × List LogRow)) : ℕ → Gw Unit
  | 0 => raise .swapConflict
  | more + 1 => (swapAttempt gw swapSet legs).handle fun e => do
    discard (legs.map fun leg => leg.1.graph) swapSet
    if e = .swapConflict ∧ more ≠ 0 then swapTries swapSet legs more else raise e

/-- The pending entries of each leg, leg by leg. -/
def pendingOfLegs : List AppendedGroup → Gw (List (AppendedGroup × List LogRow))
  | [] => pure []
  | leg :: legs => do
    let rows ← pendingEntries gw leg.graph
    let rest ← pendingOfLegs legs
    return (leg, rows) :: rest

/-- `SwapApplier.apply`. -/
def swapApply (swapSet : ℕ) (legs : List AppendedGroup) : Gw Unit := do
  let pending ← pendingOfLegs gw legs
  swapTries gw swapSet pending gw.settings.maxAttempts

end PolicySystem
