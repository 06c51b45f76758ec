import PolicySystem.Gateway.Reachable

/-!
# A refusal comes before anything is logged

* `Unrefused`: programs that never raise `GraphWriteRejectedError`, which is all that runs after the staging;
* `submitGroup_refused`, `submitMultiGraphGroup_refused`: **a refused group left every log as it was.**
-/

namespace PolicySystem

open Faults Proc PropertyGraph GraphWrite

/-- What is not a refusal. -/
def NotRefusal (e : Err) : Prop := ∀ why, e ≠ .rejected why

/-- A program that refuses nothing. -/
def Unrefused {α : Type} (p : Gw α) : Prop := Raises NotRefusal p

section Programs

variable {α : Type} (gw : GraphWriteGateway)

theorem unrefused_logRead (read : World → α) : Unrefused (logRead read) := by
  refine raises_call fun fate w e heq => ?_
  cases fate <;> cases heq <;> exact nofun

theorem unrefused_logWrite (write : World → Option (α × World)) : Unrefused (logWrite write) := by
  refine raises_call fun fate w e heq => ?_
  cases hw : write w with
  | none => cases fate <;> simp only [hw] at heq <;> cases heq <;> exact nofun
  | some r => cases fate <;> simp only [hw] at heq <;> cases heq <;> exact nofun

theorem unrefused_graphRead (read : World → α) : Unrefused (graphRead read) := by
  refine raises_call fun fate w e heq => ?_
  cases fate <;> cases heq <;> exact nofun

theorem unrefused_graphWrite (write : World → Option World) : Unrefused (graphWrite write) := by
  refine raises_call fun fate w e heq => ?_
  cases hw : write w with
  | none => cases fate <;> simp only [hw] at heq <;> cases heq <;> exact nofun
  | some r => cases fate <;> simp only [hw] at heq <;> cases heq <;> exact nofun

theorem unrefused_swapIn (graphs : List String) (swapSet : ℕ) : Unrefused (swapIn graphs swapSet) := by
  refine raises_call fun fate w e heq => ?_
  cases fate with
  | done =>
    dsimp only at heq
    split at heq
    · cases heq
    · cases heq; exact nofun
  | _ => cases heq <;> exact nofun

theorem unrefused_guardCall (g : String) {operation : Gw α} (h : Unrefused operation) :
    Unrefused (guardCall gw g operation) := by
  refine raises_handle (raises_retry h _) fun e he => ?_
  cases e with
  | connection => exact raises_raise nofun
  | redis => exact raises_raise nofun
  | _ => exact raises_raise he

theorem unrefused_decodeEntries (rows : List LogRow) : Unrefused (decodeEntries rows) := by
  induction rows with
  | nil => exact raises_pure _
  | cons row rows ih =>
    unfold decodeEntries
    split
    · exact raises_raise nofun
    · exact raises_bind ih fun _ => raises_pure _

theorem unrefused_applyEntries {query : Query → Gw Unit} {report : ℕ → Gw Unit} (hquery : ∀ q, Unrefused (query q))
    (hreport : ∀ n, Unrefused (report n)) (rows : List LogRow) : Unrefused (applyEntries gw query rows report) := by
  refine raises_bind (unrefused_decodeEntries rows) fun decoded => raises_bind ?_ fun _ => ?_
  · unfold ensureIndexes
    split
    · exact raises_pure _
    · exact unrefused_graphRead _
  · refine raises_forM fun run _ => raises_bind (raises_forM fun chunk _ => ?_) fun _ => ?_
    · split
      · exact raises_pure _
      · exact hquery _
    · split
      · exact hreport _
      · exact raises_pure _

theorem unrefused_applyPending (g : String) : Unrefused (applyPending gw g none) := by
  refine raises_bind (raises_handle (unrefused_guardCall gw g ?_) fun e he => ?_) fun _ => raises_modify _
  · refine raises_bind (unrefused_logRead _) fun applied => raises_bind (unrefused_logRead _) fun rows => ?_
    exact unrefused_applyEntries gw (fun q => unrefused_graphWrite _) (fun n => unrefused_logWrite _) _
  · cases e with
    | graphApply h => exact raises_bind (raises_modify _) fun _ => raises_raise nofun
    | _ => exact raises_raise he

theorem unrefused_recordCheckpoint (appended : AppendedGroup) : Unrefused (recordCheckpoint gw appended) := by
  refine raises_handle ?_ fun e he => ?_
  · refine raises_bind (unrefused_graphRead _) fun digest => raises_bind ?_ fun _ => raises_pure _
    exact unrefused_logWrite _
  · cases e <;> first | exact raises_pure _ | exact raises_raise he

theorem unrefused_applyCommitted (appended : AppendedGroup) (requested : Bool) :
    Unrefused (applyCommitted gw appended requested) := by
  refine raises_bind (raises_handle ?_ fun e he => ?_) fun status => ?_
  · exact raises_bind (unrefused_applyPending gw _) fun _ => raises_pure _
  · split
    · exact raises_bind (raises_modify _) fun _ => raises_pure _
    · exact raises_raise he
  · dsimp only
    split
    · exact raises_bind (unrefused_recordCheckpoint gw _) fun _ => raises_pure _
    · exact raises_bind (raises_pure _) fun _ => raises_pure _

theorem unrefused_discard (graphs : List String) (swapSet : ℕ) : Unrefused (discard graphs swapSet) := by
  refine raises_handle (unrefused_graphWrite _) fun e he => ?_
  cases e <;> first | exact raises_pure _ | exact raises_raise he

theorem unrefused_swapAttempt (swapSet : ℕ) (legs : List (AppendedGroup × List LogRow)) :
    Unrefused (swapAttempt gw swapSet legs) := by
  refine raises_bind (unrefused_discard _ _) fun _ => raises_bind (unrefused_graphRead _) fun _ =>
    raises_bind (raises_forM fun leg _ => ?_) fun _ => raises_handle (unrefused_swapIn _ _) fun e he => ?_
  · refine raises_bind (unrefused_guardCall gw _ (unrefused_graphWrite _)) fun _ => unrefused_guardCall gw _ ?_
    exact unrefused_applyEntries gw (fun q => unrefused_graphWrite _) (fun n => raises_pure _) _
  · cases e <;> first | exact raises_raise he | exact raises_raise nofun

theorem unrefused_swapTries (swapSet : ℕ) (legs : List (AppendedGroup × List LogRow)) (tries : ℕ) :
    Unrefused (swapTries gw swapSet legs tries) := by
  induction tries with
  | zero => exact raises_raise nofun
  | succ tries ih =>
    refine raises_handle (unrefused_swapAttempt gw swapSet legs) fun e he => ?_
    refine raises_bind (unrefused_discard _ _) fun _ => ?_
    split
    · exact ih
    · exact raises_raise he

theorem unrefused_pendingOfLegs (legs : List AppendedGroup) : Unrefused (pendingOfLegs gw legs) := by
  induction legs with
  | nil => exact raises_pure _
  | cons leg legs ih =>
    refine raises_bind (unrefused_guardCall gw _ ?_) fun rows => raises_bind ih fun _ => raises_pure _
    exact raises_bind (unrefused_logRead _) fun applied => unrefused_logRead _

theorem unrefused_swapUnit (swapSet : ℕ) (legs : List AppendedGroup) : Unrefused (swapUnit gw swapSet legs) := by
  refine raises_handle (raises_bind (raises_bind ?_ fun _ => ?_) fun _ => ?_) fun e he => ?_
  · exact raises_bind (unrefused_pendingOfLegs gw legs) fun pending => unrefused_swapTries gw _ _ _
  · exact raises_forM fun leg _ => unrefused_guardCall gw _ (unrefused_logWrite _)
  · exact raises_bind (raises_modify _) fun _ => raises_pure _
  · have hregister : Unrefused ((legs.map AppendedGroup.graph).forM register) := raises_forM fun g _ => raises_modify _
    cases e with
    | swapConflict => exact raises_bind (raises_modify _) fun _ => raises_pure _
    | graphApply g => exact raises_bind (raises_modify _) fun _ => raises_raise nofun
    | graphUnavailable => exact raises_bind hregister fun _ => raises_pure _
    | logUnavailable => exact raises_bind hregister fun _ => raises_pure _
    | _ => exact raises_raise he

theorem unrefused_applyLegsInPlace (appended : List AppendedGroup) (legs : List GraphLeg) :
    Unrefused (applyLegsInPlace gw appended legs) := by
  induction legs with
  | nil => exact raises_pure _
  | cons leg legs ih =>
    refine raises_bind ?_ fun outcome => raises_bind ih fun _ => raises_pure _
    unfold applyLegInPlace
    split
    · exact raises_pure _
    · refine raises_handle (unrefused_applyCommitted gw _ _) fun e he => ?_
      cases e with
      | graphApply g => exact raises_bind (raises_forM fun rest _ => raises_modify _) fun _ => raises_raise nofun
      | _ => exact raises_raise he

theorem unrefused_recordLegs (appended : List AppendedGroup) (status : Bool) (legs : List GraphLeg) :
    Unrefused (recordLegs gw appended status legs) := by
  induction legs with
  | nil => exact raises_pure _
  | cons leg legs ih =>
    refine raises_bind ?_ fun outcome => raises_bind ih fun _ => raises_pure _
    unfold recordLeg
    split
    · exact raises_pure _
    · dsimp only
      split
      · exact raises_bind (unrefused_recordCheckpoint gw _) fun _ => raises_pure _
      · exact raises_bind (raises_pure _) fun _ => raises_pure _

end Programs

/-! ## Refused groups -/

section Refused

variable (gw : GraphWriteGateway) {start : String → Graph} {w : World}

/-- Where a program ends in a refusal, the logs are as they were. -/
def RefusedBlank {α : Type} (start : String → Graph) (w : World) (x : Exit Err α) (w' : World) : Prop :=
  ∀ why, x = .raised (.rejected why) → Inv start w' ∧ LogsOnly [] w w'

theorem refusedBlank_of_unrefused {α : Type} {p : Gw α} (h : Unrefused p) (w₁ : World) :
    wp p (RefusedBlank start w) w₁ :=
  wp_mono (h w₁) fun _ _ hx why heq => absurd rfl (hx _ heq why)

/-- **A refused group left every log as it was.** -/
theorem submitGroup_refused (hI : Inv start w) (group : MutationGroup) :
    wp (submitGroup gw group) (RefusedBlank start w) w := by
  have hself : Inv start w ∧ LogsOnly [] w w := ⟨hI, (SameLog.refl w).logsOnly⟩
  unfold submitGroup
  refine wp_bind_ends (E := fun w' => Inv start w' ∧ LogsOnly [] w w') (ends_lockAll _ hself) ?_
    (fun _ _ h _ _ => h) fun _ _ _ => nofun
  rintro - _ ⟨rfl, -⟩
  refine wp_bind_ends (E := fun w' => Inv start w' ∧ LogsOnly [] w w') ends_nextCall ?_
    (fun _ _ h _ _ => h) fun _ _ _ => nofun
  rintro _ _ ⟨rfl, rfl⟩
  refine wp_bind_ends (E := fun w' => Inv start w' ∧ LogsOnly [] w w')
    (ends_staged gw hI group fun w' hw' => ⟨hw'.1, fun g _ => congrFun hw'.2.entries g, hw'.2.forward⟩) ?_
    (fun _ _ h _ _ => h) fun _ _ _ => nofun
  intro effective w₁ _
  refine refusedBlank_of_unrefused ?_ w₁
  split
  · exact raises_pure _
  · exact raises_bind (unrefused_guardCall gw _ (unrefused_logWrite _)) fun appended => unrefused_applyCommitted gw _ _

/-- **A refused multi-graph group left every log as it was.** -/
theorem submitMultiGraphGroup_refused (hI : Inv start w) (group : MultiGraphGroup) :
    wp (submitMultiGraphGroup gw group) (RefusedBlank start w) w := by
  have hself : Inv start w ∧ LogsOnly [] w w := ⟨hI, (SameLog.refl w).logsOnly⟩
  unfold submitMultiGraphGroup
  refine wp_bind_ends (E := fun w' => Inv start w' ∧ LogsOnly [] w w') (ends_lockAll _ hself) ?_
    (fun _ _ h _ _ => h) fun _ _ _ => nofun
  rintro - _ ⟨rfl, -⟩
  refine wp_bind_ends (E := fun w' => Inv start w' ∧ LogsOnly [] w w') ends_nextCall ?_
    (fun _ _ h _ _ => h) fun _ _ _ => nofun
  rintro _ _ ⟨rfl, rfl⟩
  refine wp_bind_ends (E := fun w' => Inv start w' ∧ LogsOnly [] w w')
    (ends_mono (ends_stageLegs gw hI.nextCall (legGraphs_nodup group)) (fun _ _ h => h)
      fun w' hw' => ⟨hw'.1, fun g _ => congrFun hw'.2.entries g, hw'.2.forward⟩) ?_
    (fun _ _ h _ _ => h) fun _ _ _ => nofun
  intro staged w₁ _
  refine refusedBlank_of_unrefused ?_ w₁
  dsimp only
  split
  · exact raises_pure _
  · refine raises_bind (unrefused_guardCall gw _ (unrefused_logWrite _)) fun appended => ?_
    split
    · exact unrefused_applyLegsInPlace gw _ _
    · exact raises_bind (unrefused_swapUnit gw _ _) fun status => unrefused_recordLegs gw _ _ _

end Refused

end PolicySystem
