import PolicySystem.Dict.LastWins

/-!
# Slots of background runs

`ingestion_runs/dispatch.py`: the process holds a slot for each run in flight, under one lock.

* `reserveRunSlot`, `releaseRunSlot`, `isRunInFlight`: the registry;
* `InFlight.Admitted`: at most the configured number of slots, one for a run and one for a short name;
* `reserveRunSlot_admitted`, `releaseRunSlot_admitted`: both operations keep it.
-/

namespace PolicySystem.IngestionRuns

/-- `_InFlightRun` under its run id. -/
structure Slot where
  runId : String
  shortName : String
  deriving DecidableEq

/-- `_in_flight`. -/
abbrev InFlight := List Slot

/-- Why `reserve_run_slot` refuses. -/
inductive ReserveError where
  | alreadyInProgress (shortName : String)
  | capacityExceeded (maxInFlightRuns : ℕ)
  deriving DecidableEq

/-- `reserve_run_slot`. -/
def reserveRunSlot (inFlight : InFlight) (runId shortName : String) (maxInFlightRuns : ℕ) :
    Except ReserveError InFlight :=
  if inFlight.any fun run => run.shortName == shortName then .error (.alreadyInProgress shortName)
  else if inFlight.length ≥ maxInFlightRuns then .error (.capacityExceeded maxInFlightRuns)
  else .ok (LastWins.put Slot.runId ⟨runId, shortName⟩ inFlight)

/-- `release_run_slot`. -/
def releaseRunSlot (inFlight : InFlight) (runId : String) : InFlight := inFlight.filter fun run => run.runId ≠ runId

/-- `is_run_in_flight`. -/
def isRunInFlight (inFlight : InFlight) (runId : String) : Bool := inFlight.any fun run => run.runId = runId

theorem isRunInFlight_iff {inFlight : InFlight} {runId : String} :
    isRunInFlight inFlight runId = true ↔ ∃ run ∈ inFlight, run.runId = runId := by
  simp [isRunInFlight]

/-- **What the registry promises.** -/
structure InFlight.Admitted (maxInFlightRuns : ℕ) (inFlight : InFlight) : Prop where
  runs : (inFlight.map Slot.runId).Nodup
  shortNames : (inFlight.map Slot.shortName).Nodup
  capacity : inFlight.length ≤ maxInFlightRuns

variable {inFlight after : InFlight} {runId shortName r : String} {maxInFlightRuns : ℕ}

theorem admitted_nil : InFlight.Admitted maxInFlightRuns [] := ⟨List.nodup_nil, List.nodup_nil, Nat.zero_le _⟩

/-- A slot for a run that holds none comes last. -/
theorem put_fresh (hfresh : isRunInFlight inFlight runId = false) :
    LastWins.put Slot.runId ⟨runId, shortName⟩ inFlight = inFlight ++ [⟨runId, shortName⟩] := by
  induction inFlight with
  | nil => rfl
  | cons run inFlight ih =>
    obtain ⟨hrun, hrest⟩ : run.runId ≠ runId ∧ isRunInFlight inFlight runId = false := by
      simpa [isRunInFlight] using hfresh
    rw [LastWins.put, if_neg hrun, ih hrest]
    rfl

/-- What a reservation that is not refused finds, for a run that holds no slot. -/
theorem reserveRunSlot_ok (hfresh : isRunInFlight inFlight runId = false)
    (h : reserveRunSlot inFlight runId shortName maxInFlightRuns = .ok after) :
    (∀ run ∈ inFlight, run.shortName ≠ shortName) ∧ inFlight.length < maxInFlightRuns ∧
      after = inFlight ++ [⟨runId, shortName⟩] := by
  rw [reserveRunSlot] at h
  split at h
  · cases h
  · rename_i hname
    split at h
    · cases h
    · rename_i hroom
      refine ⟨fun run hrun heq => hname ?_, by omega, ?_⟩
      · exact List.any_eq_true.2 ⟨run, hrun, by simp [heq]⟩
      · rw [put_fresh hfresh] at h
        exact (Except.ok.inj h).symm

/-- **A reservation keeps the registry's promise.** -/
theorem reserveRunSlot_admitted (hadmitted : inFlight.Admitted maxInFlightRuns)
    (hfresh : isRunInFlight inFlight runId = false)
    (h : reserveRunSlot inFlight runId shortName maxInFlightRuns = .ok after) : after.Admitted maxInFlightRuns := by
  obtain ⟨hname, hroom, rfl⟩ := reserveRunSlot_ok hfresh h
  refine ⟨?_, ?_, ?_⟩
  · rw [List.map_append, List.nodup_append]
    refine ⟨hadmitted.runs, List.nodup_singleton _, ?_⟩
    intro a ha b hb heq
    obtain ⟨run, hrun, rfl⟩ := List.mem_map.1 ha
    have hb : b = runId := List.mem_singleton.1 hb
    have hin : isRunInFlight inFlight runId = true := isRunInFlight_iff.2 ⟨run, hrun, heq.trans hb⟩
    rw [hfresh] at hin
    cases hin
  · rw [List.map_append, List.nodup_append]
    refine ⟨hadmitted.shortNames, List.nodup_singleton _, ?_⟩
    intro a ha b hb heq
    obtain ⟨run, hrun, rfl⟩ := List.mem_map.1 ha
    exact hname run hrun (heq.trans (List.mem_singleton.1 hb))
  · rw [List.length_append, List.length_singleton]
    omega

/-- **So does a release.** -/
theorem releaseRunSlot_admitted (hadmitted : inFlight.Admitted maxInFlightRuns) :
    (releaseRunSlot inFlight runId).Admitted maxInFlightRuns := by
  have hsub : (releaseRunSlot inFlight runId).Sublist inFlight := List.filter_sublist
  refine ⟨hadmitted.runs.sublist (hsub.map _), hadmitted.shortNames.sublist (hsub.map _), ?_⟩
  have := hsub.length_le
  have := hadmitted.capacity
  omega

theorem isRunInFlight_reserved : isRunInFlight (inFlight ++ [⟨runId, shortName⟩]) r =
    (isRunInFlight inFlight r || decide (runId = r)) := by
  simp [isRunInFlight]

theorem isRunInFlight_released : isRunInFlight (releaseRunSlot inFlight runId) r =
    (isRunInFlight inFlight r && decide (r ≠ runId)) := by
  rw [Bool.eq_iff_iff, Bool.and_eq_true, isRunInFlight_iff, isRunInFlight_iff]
  constructor
  · rintro ⟨run, hrun, rfl⟩
    obtain ⟨hin, hne⟩ := List.mem_filter.1 hrun
    exact ⟨⟨run, hin, rfl⟩, by simpa using hne⟩
  · rintro ⟨⟨run, hrun, rfl⟩, hne⟩
    exact ⟨run, List.mem_filter.2 ⟨hrun, by simpa using hne⟩, rfl⟩

end PolicySystem.IngestionRuns
