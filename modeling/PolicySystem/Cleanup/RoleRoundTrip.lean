import PolicySystem.Cleanup.RoundTrip

/-!
# A Role merge and its unmerge

What the audit row of a Role merge says to reverse, the live state an unmerge is planned against, its guard and its
group (`role_unmerge_planner.py`, `graph_reader.py` and `group_builders.py` of `graph_cleanup`), run on what the merge
left, the Obligations the survivor gained since included.

* `RoleReversible`: the unmerge is accepted and gives both Roles back what they had;
* `role_merge_unmerge_iff`: so it is, if and only if the absorbed Role's name is not empty; and no primitive of either
  group leaves an Obligation without a bearer.
-/

namespace PolicySystem

open PropertyGraph GraphWrite Std

/-! ## What to reverse -/

/-- The fields of a `role.merge` audit row that an unmerge reads. -/
structure RoleMergeDetails where
  survivorId : String
  absorbedId : String
  instrumentId : String
  definesSourceRef : Option String
  movedObligationIds : Option (List String)
  survivorHasCountAfterMerge : Option ℕ
  before : Option GraphSnapshot
  after : Option GraphSnapshot

/-- The details of an `applied` row: what `plan_role_merge` shows. -/
def roleMergeDetails (state : RoleMergeState) : Except RoleMergeError RoleMergeDetails := do
  let (survivor, absorbed, instrumentId) ← validateRoleMerge state
  let plan := roleMergePlan state survivor absorbed instrumentId
  return {
    survivorId := survivor.id
    absorbedId := absorbed.id
    instrumentId
    definesSourceRef := state.absorbedDefines.head?.bind RoleDefines.sourceRef
    movedObligationIds := some plan.expected.absorbedObligationIds
    survivorHasCountAfterMerge :=
      some (plan.expected.survivorObligationIds.length + plan.expected.absorbedObligationIds.length)
    before := some plan.before
    after := some plan.after }

/-- `RoleUnmergeInputs`. -/
structure RoleUnmergeInputs where
  survivorId : String
  absorbedId : String
  instrumentId : String
  absorbedProperties : PropertyMap
  definesSourceRef : Option String
  movedObligationIds : List String
  survivorHasCountAfterMerge : ℕ

inductive RoleUnmergeInputsError where
  /-- "the merge's audit record does not hold what is needed, so it cannot be reversed" -/
  | unreadable
  /-- "the merge's audit record does not hold the deleted role, so it cannot be reversed" -/
  | noRole
  deriving DecidableEq

/-- `derive_role_unmerge_inputs`: a falsy name counts as a missing one. -/
def deriveRoleUnmergeInputs (details : RoleMergeDetails) : Except RoleUnmergeInputsError RoleUnmergeInputs :=
  match details.before, details.after, details.movedObligationIds, details.survivorHasCountAfterMerge with
  | some before, some _, some moved, some count =>
    if details.instrumentId = "" then .error .unreadable
    else
      match before.nodes.find? fun n => n.label = "Role" ∧ n.id = details.absorbedId with
      | none => .error .noRole
      | some node =>
        if node.properties["name"]?.all PropertyValue.falsy then .error .noRole
        else .ok {
          survivorId := details.survivorId
          absorbedId := details.absorbedId
          instrumentId := details.instrumentId
          absorbedProperties := node.properties
          definesSourceRef := details.definesSourceRef
          movedObligationIds := sortedList moved
          survivorHasCountAfterMerge := count }
  | _, _, _, _ => .error .unreadable

/-! ## The live state -/

/-- `RoleUnmergeState`. -/
structure RoleUnmergeState where
  absorbedExists : Bool
  survivor : Option RoleState
  /-- `marker_targets.get(absorbed_id, ())`. -/
  absorbedTargets : List String
  /-- `marker_targets.get(survivor_id, ())`. -/
  survivorTargets : List String
  instrumentExists : Bool
  survivorObligationIds : List String
  /-- `moved_bearers.get(obligation_id, ())`. -/
  movedBearers : String → List String

/-- `read_role_unmerge_state`; `none` where a row is refused. -/
def readRoleUnmergeState (scan : ScanOrder) (g : Graph) (inputs : RoleUnmergeInputs) : Option RoleUnmergeState := do
  let survivor ← readNode g "Role" inputs.survivorId (roleState inputs.survivorId)
  let absorbed ← readNode g "Role" inputs.absorbedId (roleState inputs.absorbedId)
  let absorbedTargets ← readMarkers "MergedRole" g inputs.absorbedId
  let survivorTargets ← readMarkers "MergedRole" g inputs.survivorId
  return {
    absorbedExists := absorbed.isSome
    survivor, absorbedTargets, survivorTargets
    instrumentExists := (⟨"RegulatoryInstrument", inputs.instrumentId⟩ : NodeRef) ∈ g.nodes
    survivorObligationIds := sortedList (readObligationIds scan g inputs.survivorId)
    movedBearers := fun id =>
      if id ∈ inputs.movedObligationIds then
        sortedList ((edgeRows scan g hasPattern fun e => e.targetId = id).map EdgeRecord.sourceId)
      else [] }

/-! ## Planning -/

/-- What `plan_role_unmerge` refuses. -/
inductive RoleUnmergeError where
  /-- "role ... already exists again; there is nothing to unmerge" -/
  | existsAgain
  /-- "role ... was merged into ..., but its MergedRole marker now points at ..., ..." -/
  | repointed (targets : List String)
  /-- "role ... has no MergedRole marker, so it is not a merged role that can be unmerged" -/
  | noMarker
  /-- "the survivor role ... no longer exists (it was merged into ...), so the merge cannot be reversed" -/
  | survivorMissing (movedTo : List String)
  /-- "the instrument ... that defined the role no longer exists" -/
  | instrumentMissing (instrumentId : String)
  /-- "obligation ... moved by the merge no longer exists or no role bears it, so it cannot go back" -/
  | unborne (obligationId : String)
  /-- "obligation ... moved by the merge is now borne by ..., not by the survivor alone, so it cannot go back" -/
  | borneBy (obligationId : String) (others : List String)
  deriving DecidableEq

/-- `RoleUnmergeWrite`. -/
structure RoleUnmergeWrite where
  absorbedProperties : PropertyMap
  instrumentId : String
  definesSourceRef : Option String
  movedObligationIds : List String

/-- `_check_marker`. -/
def checkRoleMarker (inputs : RoleUnmergeInputs) (state : RoleUnmergeState) : Except RoleUnmergeError Unit := do
  refuseIf (state.absorbedExists = true) .existsAgain
  refuseIf (inputs.survivorId ∉ state.absorbedTargets)
    (if state.absorbedTargets = [] then .noMarker else .repointed state.absorbedTargets)

/-- `_check_moved_obligations`. -/
def checkMovedObligations (inputs : RoleUnmergeInputs) (state : RoleUnmergeState) : Except RoleUnmergeError Unit :=
  inputs.movedObligationIds.forM fun id => do
    let bearers := state.movedBearers id
    refuseIf (bearers = []) (.unborne id)
    let others := bearers.filter fun roleId => roleId ≠ inputs.survivorId
    refuseIf (others ≠ [] ∨ inputs.survivorId ∉ bearers) (.borneBy id others)

/-- `_check_state`. -/
def checkRoleState (inputs : RoleUnmergeInputs) (state : RoleUnmergeState) : Except RoleUnmergeError RoleState := do
  checkRoleMarker inputs state
  match state.survivor with
  | none => .error (.survivorMissing state.survivorTargets)
  | some survivor =>
    refuseIf (state.instrumentExists = false) (.instrumentMissing inputs.instrumentId)
    checkMovedObligations inputs state
    return survivor

/-- `plan_role_unmerge`: its write, and the Obligations the preview counts as gained since. -/
def planRoleUnmerge (inputs : RoleUnmergeInputs) (state : RoleUnmergeState) :
    Except RoleUnmergeError (RoleUnmergeWrite × ℕ) := do
  let _ ← checkRoleState inputs state
  return (⟨inputs.absorbedProperties, inputs.instrumentId, inputs.definesSourceRef, inputs.movedObligationIds⟩,
    state.survivorObligationIds.length - inputs.survivorHasCountAfterMerge)

/-! ## The write -/

/-- `role_unmerge_guard_holds`. -/
def roleUnmergeGuardHolds (state : RoleUnmergeState) (write : RoleUnmergeWrite) (survivorId : String) : Bool :=
  survivorId ∈ state.absorbedTargets && !state.absorbedExists && state.survivor.isSome && state.instrumentExists &&
    write.movedObligationIds.all fun id => state.movedBearers id = [survivorId]

/-- The properties of the `DEFINES` edge that comes back. -/
def definesProperties (sourceRef : Option String) : PropertyMap :=
  match sourceRef with
  | some ref => (∅ : PropertyMap).insert "source_ref" (.scalar (.str ref))
  | none => ∅

/-- The primitives `build_role_unmerge_group` constructs. -/
def roleUnmergePrimitives (write : RoleUnmergeWrite) (absorbedId survivorId : String) : List RawPrimitive :=
  [.upsertNode "Role" absorbedId (propertiesPy write.absorbedProperties) none,
    .upsertEdge (definesEdge write.instrumentId absorbedId).raw (propertiesPy (definesProperties write.definesSourceRef))] ++
    (write.movedObligationIds.map (hasEdge absorbedId ·)).map upsertRecord ++
    (write.movedObligationIds.map (hasEdge survivorId ·)).map deleteRecord ++ [.deleteNode "MergedRole" absorbedId]

/-! ## The runs -/

/-- **One Role merge** on a graph: previewed, read again, guarded, built and applied, with its audit details. -/
def RoleMerged (g : Graph) (survivorId absorbedId : String) (details : RoleMergeDetails) (ps : List Primitive)
    (g' : Graph) : Prop :=
  ∃ (scan scan' : ScanOrder) (state later : RoleMergeState) (plan : MergePlan RoleExpectedCounts)
      (reviewId : Option String),
    readRoleMergeState scan g survivorId absorbedId = some state ∧ planRoleMerge state = .ok plan ∧
      roleMergeDetails state = .ok details ∧ readRoleMergeState scan' g survivorId absorbedId = some later ∧
      roleMergeGuardHolds later plan.expected survivorId absorbedId = true ∧
      buildGroup (roleMergePrimitives later survivorId absorbedId reviewId) = some ps ∧ g' = applyAll g ps

/-- **One Role unmerge** on a graph: previewed, read again, guarded, built and applied. -/
def RoleUnmerged (g : Graph) (inputs : RoleUnmergeInputs) (ps : List Primitive) (g' : Graph) : Prop :=
  ∃ (scan scan' : ScanOrder) (state later : RoleUnmergeState) (write : RoleUnmergeWrite) (added : ℕ),
    readRoleUnmergeState scan g inputs = some state ∧ planRoleUnmerge inputs state = .ok (write, added) ∧
      readRoleUnmergeState scan' g inputs = some later ∧
      roleUnmergeGuardHolds later write inputs.survivorId = true ∧
      buildGroup (roleUnmergePrimitives write inputs.absorbedId inputs.survivorId) = some ps ∧ g' = applyAll g ps

/-- The Obligation has a bearer. -/
def Borne (g : Graph) (obligationId : String) : Prop := ∃ roleId, Shows g (hasEdge roleId obligationId)

def AllBorne (g : Graph) : Prop := ∀ id, (⟨"Obligation", id⟩ : NodeRef) ∈ g.nodes → Borne g id

/-- An instrument defines the Role, with this citation. -/
def DefinedBy (g : Graph) (roleId instrumentId : String) (sourceRef : Option String) : Prop :=
  ∃ e ∈ g.edges, e.1.record = definesEdge instrumentId roleId ∧ optionalColumn e.2["source_ref"]? = some sourceRef

/-- The scalar properties of a Role. -/
def roleProperties : List String := ["name", "description", "confidence"]

/-- **All that changed since the merge is that the survivor gained Obligations.** -/
structure OnlyGained (g₁ g' : Graph) (survivorId absorbedId : String) (moved : List String) : Prop where
  roles : ∀ id, id = survivorId ∨ id = absorbedId →
    g'.nodes[(⟨"Role", id⟩ : NodeRef)]? = g₁.nodes[(⟨"Role", id⟩ : NodeRef)]?
  markers : ∀ id, id = survivorId ∨ id = absorbedId →
    g'.nodes[(⟨"MergedRole", id⟩ : NodeRef)]? = g₁.nodes[(⟨"MergedRole", id⟩ : NodeRef)]?
  instruments : ∀ id, (⟨"RegulatoryInstrument", id⟩ : NodeRef) ∈ g₁.nodes →
    (⟨"RegulatoryInstrument", id⟩ : NodeRef) ∈ g'.nodes
  defines : ∀ (k : EdgeKey) (id : String), k.record = definesEdge id survivorId → g'.edgesAt k = g₁.edgesAt k
  bearers : ∀ (k : EdgeKey) (roleId id : String), id ∈ moved → k.record = hasEdge roleId id →
    g'.edgesAt k = g₁.edgesAt k
  obligations : ∀ id, Shows g₁ (hasEdge survivorId id) → Shows g' (hasEdge survivorId id)

/-- **Both Roles as before the merge**, what the survivor gained since apart. -/
structure RolesRestored (g g₁ g' g₂ : Graph) (survivorId absorbedId : String) : Prop where
  survivor : g₂.nodes[(⟨"Role", survivorId⟩ : NodeRef)]? = g.nodes[(⟨"Role", survivorId⟩ : NodeRef)]?
  properties : ∀ name ∈ roleProperties, propertyOf g₂ ⟨"Role", absorbedId⟩ name = propertyOf g ⟨"Role", absorbedId⟩ name
  survivorDefines : ∀ (k : EdgeKey) (id : String), k.record = definesEdge id survivorId → g₂.edgesAt k = g.edgesAt k
  absorbedDefines : ∀ id ref, DefinedBy g₂ absorbedId id ref ↔ DefinedBy g absorbedId id ref
  absorbedHas : ∀ id, Shows g₂ (hasEdge absorbedId id) ↔ Shows g (hasEdge absorbedId id)
  survivorHas : ∀ id, Shows g₂ (hasEdge survivorId id) ↔
    Shows g (hasEdge survivorId id) ∨ (Shows g' (hasEdge survivorId id) ∧ ¬ Shows g₁ (hasEdge survivorId id))
  marker : g₂.nodes[(⟨"MergedRole", absorbedId⟩ : NodeRef)]? = none

/-- **The merge can be taken back.** Its record says what to reverse; whatever the survivor gained since, the unmerge is
accepted, whatever order its rows are read in, and written, and restores both Roles. -/
def RoleReversible (g g₁ : Graph) (survivorId absorbedId : String) (details : RoleMergeDetails) : Prop :=
  ∃ inputs, deriveRoleUnmergeInputs details = .ok inputs ∧
    ∀ g', OnlyGained g₁ g' survivorId absorbedId inputs.movedObligationIds →
      (∀ scan scan' state later, readRoleUnmergeState scan g' inputs = some state →
        readRoleUnmergeState scan' g' inputs = some later →
        ∃ write added, planRoleUnmerge inputs state = .ok (write, added) ∧
          roleUnmergeGuardHolds later write inputs.survivorId = true) ∧
      (∃ ps g₂, RoleUnmerged g' inputs ps g₂) ∧
      ∀ ps g₂, RoleUnmerged g' inputs ps g₂ → RolesRestored g g₁ g' g₂ survivorId absorbedId ∧
        ∀ n, AllBorne g' → AllBorne (applyAll g' (ps.take n))

/-! ## Primitive by primitive -/

/-- Nothing loses its last bearer, and no Obligation is new. -/
structure KeepsBearers (g g' : Graph) : Prop where
  borne : ∀ id, Borne g id → Borne g' id
  nodes : ∀ id, (⟨"Obligation", id⟩ : NodeRef) ∈ g'.nodes → (⟨"Obligation", id⟩ : NodeRef) ∈ g.nodes

theorem KeepsBearers.allBorne {g g' : Graph} (h : KeepsBearers g g') (hall : AllBorne g) : AllBorne g' :=
  fun id hid => h.borne id (hall id (h.nodes id hid))

theorem KeepsBearers.refl (g : Graph) : KeepsBearers g g := ⟨fun _ h => h, fun _ h => h⟩

/-- A graph property after each primitive of a list. -/
def AllAlong (P : Graph → Prop) (g : Graph) (ps : List Primitive) : Prop := ∀ n, P (applyAll g (ps.take n))

theorem allAlong_nil {P : Graph → Prop} {g : Graph} (h : P g) : AllAlong P g [] := by
  intro n
  rwa [List.take_nil]

theorem allAlong_cons {P : Graph → Prop} {g : Graph} {p : Primitive} {ps : List Primitive} (h : P g)
    (hrest : AllAlong P (applyOne g p) ps) : AllAlong P g (p :: ps) := by
  intro n
  cases n with
  | zero => exact h
  | succ n =>
    rw [List.take_succ_cons, applyAll_cons]
    exact hrest n

theorem allAlong_append {P : Graph → Prop} {g : Graph} {ps qs : List Primitive} (h : AllAlong P g ps)
    (hrest : AllAlong P (applyAll g ps) qs) : AllAlong P g (ps ++ qs) := by
  intro n
  rcases Nat.le_total n ps.length with hn | hn
  · rw [List.take_append_of_le_length hn]
    exact h n
  · rw [List.take_append, List.take_of_length_le hn, applyAll_append]
    exact hrest _

/-- A block of writes: what holds before it and after each of its own prefixes. -/
theorem allAlong_map {α : Type} {P : Graph → Prop} {g : Graph} {items : List α} {f : α → Primitive}
    (h : ∀ n, P (applyAll g ((items.take n).map f))) : AllAlong P g (items.map f) := by
  intro n
  rw [← List.map_take]
  exact h n

/-! ## What a merge did -/

theorem snapshotRole_get {id : String} {properties : PropertyMap} {role : RoleState}
    (h : roleState id properties = some role) (name : String) :
    (snapshotRoleNode role).properties[name]? = if name ∈ roleProperties then properties[name]? else none := by
  simp only [roleState, Option.bind_eq_bind, Option.bind_eq_some_iff, Option.pure_def, Option.some.injEq] at h
  obtain ⟨roleName, hname, columns, hcolumns, rfl⟩ := h
  have hget := scalarColumns_get hcolumns name
  have hsome := stringColumn_some hname
  rw [snapshotRoleNode, ExtTreeMap.getElem?_union, hget, ExtTreeMap.getElem?_insert]
  simp only [Std.compare_eq_iff_eq]
  by_cases heq : "name" = name
  · subst heq
    simp [roleProperties, hsome]
  · have hmem : name ∈ roleProperties ↔ name ∈ ["description", "confidence"] := by
      simp [roleProperties, Ne.symm heq]
    simp [hmem, heq]

/-- The one row of a Role defined by one instrument. -/
theorem definedBy_iff {scan : ScanOrder} {g : Graph} {roleId : String} {d : RoleDefines}
    (h : readDefines scan g roleId = some [d]) (id : String) (ref : Option String) :
    DefinedBy g roleId id ref ↔ id = d.instrumentId ∧ ref = d.sourceRef := by
  have hlength := congrArg List.length (@map_eq_of_mapM _ _ _ _ (fun _ => ()) (fun _ => ()) _ _ h fun _ _ _ => rfl)
  rw [List.length_map, List.length_map] at hlength
  obtain ⟨row, hrow⟩ := List.length_eq_one_iff.1 hlength.symm
  have hd : roleDefines row = some d := by
    simp only [readDefines, hrow, List.mapM_cons, List.mapM_nil, Option.bind_eq_bind, Option.bind_eq_some_iff,
      Option.pure_def, Option.some.injEq, List.cons.injEq] at h
    obtain ⟨x, hx, -, -, rfl, -⟩ := h
    exact hx
  simp only [roleDefines, Option.bind_eq_bind, Option.bind_eq_some_iff, Option.pure_def, Option.some.injEq] at hd
  obtain ⟨sourceRef, href, rfl⟩ := hd
  have hmem : ∀ e, e ∈ g.edges ∧ definesPattern.Selects e.1.record ∧ decide (e.1.record.targetId = roleId) = true ↔
      e = row := by
    intro e
    have hrows := @mem_storedRows scan g definesPattern (fun e => decide (e.targetId = roleId)) e
    rw [hrow, List.mem_singleton] at hrows
    exact hrows.symm
  constructor
  · rintro ⟨e, he, hrecord, hsource⟩
    obtain rfl := (hmem e).1 ⟨he, by rw [hrecord]; exact ⟨rfl, rfl, rfl⟩, by rw [hrecord]; exact decide_eq_true rfl⟩
    rw [href] at hsource
    exact ⟨(congrArg EdgeRecord.sourceId hrecord).symm, (Option.some.inj hsource).symm⟩
  · rintro ⟨rfl, rfl⟩
    obtain ⟨he, ⟨hrel, hsource, htarget⟩, hid⟩ := (hmem row).2 rfl
    refine ⟨row, he, ?_, href⟩
    obtain ⟨⟨type, ⟨sl, s⟩, ⟨tl, t⟩, identity⟩, properties⟩ := row
    obtain rfl : t = roleId := of_decide_eq_true hid
    obtain rfl : type = "DEFINES" := hrel
    obtain rfl : sl = "RegulatoryInstrument" := hsource
    obtain rfl : tl = "Role" := htarget
    rfl

/-- **What a Role merge did.** -/
structure RoleMergedInto (g : Graph) (survivorId absorbedId : String) (details : RoleMergeDetails)
    (ps : List Primitive) (g' : Graph) : Prop where
  distinct : survivorId ≠ absorbedId
  survivor : ∃ survivor, readNode g "Role" survivorId (roleState survivorId) = some (some survivor)
  absorbed_mem : (⟨"Role", absorbedId⟩ : NodeRef) ∈ g.nodes
  nodes : ∀ n : NodeRef, n ≠ ⟨"Role", absorbedId⟩ → n ≠ ⟨"MergedRole", absorbedId⟩ → n.label ≠ "PendingReview" →
    g'.nodes[n]? = g.nodes[n]?
  gone : g'.nodes[(⟨"Role", absorbedId⟩ : NodeRef)]? = none
  marker : readMarkers "MergedRole" g' absorbedId = some [survivorId]
  sole : ∀ roleId id, Shows g (hasEdge absorbedId id) → Shows g (hasEdge roleId id) → roleId = absorbedId
  brought : ∀ (k : EdgeKey) (id : String), k.record = hasEdge survivorId id → Shows g (hasEdge absorbedId id) →
    g'.edgesAt k = if k.Standard then {∅} else 0
  kept : ∀ k : EdgeKey, ¬ k.record.Touches ⟨"Role", absorbedId⟩ → (∀ id, ¬ k.record.Touches ⟨"PendingReview", id⟩) →
    (∀ id, k.record = hasEdge survivorId id → ¬ Shows g (hasEdge absorbedId id)) → g'.edgesAt k = g.edgesAt k
  bearers : AllAlong (KeepsBearers g) g ps

/-- **What the record of a Role merge holds.** -/
structure RoleRecorded (g : Graph) (survivorId absorbedId : String) (details : RoleMergeDetails) : Prop where
  survivor : details.survivorId = survivorId
  absorbed : details.absorbedId = absorbedId
  moved : ∃ moved, details.movedObligationIds = some moved ∧ ∀ id, id ∈ moved ↔ Shows g (hasEdge absorbedId id)
  defines : ∀ id ref, DefinedBy g absorbedId id ref ↔ id = details.instrumentId ∧ ref = details.definesSourceRef
  named : ∃ name, propertyOf g ⟨"Role", absorbedId⟩ "name" = some (.scalar (.str name))
  count : details.survivorHasCountAfterMerge.isSome = true
  after : details.after.isSome = true
  before : ∃ before node, details.before = some before ∧
    (before.nodes.find? fun n => n.label = "Role" ∧ n.id = absorbedId) = some node ∧
    ∀ name, node.properties[name]? = if name ∈ roleProperties then propertyOf g ⟨"Role", absorbedId⟩ name else none

theorem recorded_of_details {scan : ScanOrder} {g : Graph} {survivorId absorbedId : String} {state : RoleMergeState}
    {details : RoleMergeDetails} (hread : readRoleMergeState scan g survivorId absorbedId = some state)
    (h : roleMergeDetails state = .ok details) : RoleRecorded g survivorId absorbedId details := by
  have hof := roleStateOf_read hread
  obtain ⟨⟨survivor, absorbed, instrumentId⟩, hvalid, hdetails⟩ := bind_ok.1 h
  have valid := validateRoleMerge_ok hvalid
  obtain rfl := (Except.ok.inj hdetails).symm
  obtain rfl := hof.survivor_id survivor valid.hasSurvivor
  obtain rfl := hof.absorbed_id absorbed valid.hasAbsorbed
  have hne : survivor.id ≠ absorbed.id := by
    rw [← hof.ids.1, ← hof.ids.2]
    exact valid.distinct
  simp only [readRoleMergeState, Option.bind_eq_bind, Option.bind_eq_some_iff, Option.pure_def, Option.some.injEq] at hread
  obtain ⟨x, -, y, hy, ds, -, es, hes, hstate⟩ := hread
  obtain rfl : y = some absorbed := by rw [← valid.hasAbsorbed, ← hstate]
  obtain rfl : es = state.absorbedDefines := by rw [← hstate]
  obtain ⟨d, hd, rfl⟩ := valid.absorbedDefines
  refine ⟨rfl, rfl, ⟨_, rfl, fun id => ?_⟩, fun id ref => ?_, ?_, rfl, rfl, ⟨_, snapshotRoleNode absorbed, rfl, ?_, ?_⟩⟩
  · simp only [roleMergePlan, mem_sortedList]
    exact hof.absorbedObligations id
  · rw [hd] at hes
    rw [definedBy_iff hes, hd]
    rfl
  · obtain ⟨content, hcontent, role, hrole, rfl⟩ := readNode_some hy
    simp only [roleState, Option.bind_eq_bind, Option.bind_eq_some_iff, Option.pure_def, Option.some.injEq] at hrole
    obtain ⟨name, hname, -⟩ := hrole
    exact ⟨name, by rw [propertyOf, hcontent]; exact stringColumn_some hname⟩
  · simp [roleMergePlan, snapshotRoleNode, hne]
  · intro name
    obtain ⟨content, hcontent, role, hrole, rfl⟩ := readNode_some hy
    rw [propertyOf, hcontent]
    exact snapshotRole_get hrole name

/-- Only the absorbed Role bears its Obligations. -/
theorem sole_of_foreign {scan : ScanOrder} {g : Graph} {survivorId absorbedId : String} {state : RoleMergeState}
    (hread : readRoleMergeState scan g survivorId absorbedId = some state) (hnone : state.foreignBearers = [])
    {roleId id : String} (habsorbed : Shows g (hasEdge absorbedId id)) (h : Shows g (hasEdge roleId id)) :
    roleId = absorbedId := by
  simp only [readRoleMergeState, Option.bind_eq_bind, Option.bind_eq_some_iff, Option.pure_def, Option.some.injEq] at hread
  obtain ⟨x, -, y, -, ds, -, es, -, rfl⟩ := hread
  by_contra hne
  have hrow : hasEdge absorbedId id ∈ edgeRows scan g hasPattern fun e => e.sourceId = absorbedId :=
    mem_edgeRows.2 ⟨habsorbed, ⟨rfl, rfl, rfl⟩, decide_eq_true rfl⟩
  have hforeign : hasEdge roleId id ∈ edgeRows scan g hasPattern fun b => b.targetId = id && b.sourceId ≠ absorbedId := by
    refine mem_edgeRows.2 ⟨h, ⟨rfl, rfl, rfl⟩, ?_⟩
    rw [Bool.and_eq_true]
    exact ⟨decide_eq_true rfl, decide_eq_true hne⟩
  have hnil := List.flatMap_eq_nil_iff.1 hnone _ hrow
  have hempty : (edgeRows scan g hasPattern fun b => b.targetId = id && b.sourceId ≠ absorbedId) = [] := hnil
  rw [hempty] at hforeign
  exact absurd hforeign List.not_mem_nil

theorem hasEdge_touches_role {roleId id otherId : String} :
    (hasEdge roleId id).Touches ⟨"Role", otherId⟩ ↔ roleId = otherId := by
  simp [EdgeRecord.Touches, EdgeRecord.source, EdgeRecord.target, hasEdge]

theorem hasEdge_not_touches {roleId id label otherId : String} (hrole : label ≠ "Role") (hobligation : label ≠ "Obligation") :
    ¬ (hasEdge roleId id).Touches ⟨label, otherId⟩ := by
  rintro (heq | heq)
  · exact hrole (congrArg NodeRef.label heq).symm
  · exact hobligation (congrArg NodeRef.label heq).symm

/-- A block of edge upserts loses no bearer. -/
theorem keepsBearers_upserts {g g' : Graph} (h : KeepsBearers g g') (es : List EdgeRecord) :
    KeepsBearers g (applyAll g' (es.map fun e => .upsertEdge e.base ∅)) := by
  refine ⟨fun id hid => ?_, fun id hid => h.nodes id ?_⟩
  · obtain ⟨roleId, hshow⟩ := h.borne id hid
    exact ⟨roleId, shows_upserts hshow es⟩
  · rwa [upserts_nodes] at hid

/-- Nor does a node that is not an Obligation. -/
theorem keepsBearers_upsertNode {g g' : Graph} (h : KeepsBearers g g') {n : NodeRef} (hlabel : n.label ≠ "Obligation")
    (properties : PropertyMap) (embedding : Option Embedding) :
    KeepsBearers g (applyOne g' (.upsertNode n properties embedding)) := by
  refine ⟨fun id hid => ?_, fun id hid => h.nodes id ?_⟩
  · obtain ⟨roleId, hshow⟩ := h.borne id hid
    exact ⟨roleId, shows_upsertNode.2 hshow⟩
  · rw [ExtTreeMap.mem_iff_isSome_getElem?] at hid ⊢
    rwa [upsertNode_nodes _ _ _ fun heq => hlabel (congrArg NodeRef.label heq)] at hid

/-- The delete of a node that is neither an Obligation nor a Role. -/
theorem keepsBearers_deleteNode {g g' : Graph} (h : KeepsBearers g g') {n : NodeRef} (hlabel : n.label ≠ "Obligation")
    (hrole : n.label ≠ "Role") : KeepsBearers g (applyOne g' (.deleteNode n)) := by
  refine ⟨fun id hid => ?_, fun id hid => h.nodes id ?_⟩
  · obtain ⟨roleId, hshow⟩ := h.borne id hid
    exact ⟨roleId, shows_deleteNode.2 ⟨hshow, hasEdge_not_touches hrole hlabel⟩⟩
  · rw [ExtTreeMap.mem_iff_isSome_getElem?] at hid ⊢
    rwa [deleteNode_nodes_kept _ fun heq => hlabel (congrArg NodeRef.label heq)] at hid

theorem mergedInto_role {g g' : Graph} {survivorId absorbedId : String} {details : RoleMergeDetails}
    {ps : List Primitive} (h : RoleMerged g survivorId absorbedId details ps g') :
    RoleMergedInto g survivorId absorbedId details ps g' := by
  obtain ⟨scan, scan', state, later, plan, reviewId, hread, hplan, -, hlater, -, hbuilt, rfl⟩ := h
  have hof := roleStateOf_read hread
  have hnow := roleStateOf_read hlater
  obtain ⟨survivor, absorbed, instrumentId, valid, rfl⟩ := planRoleMerge_ok hplan
  obtain rfl := hof.survivor_id survivor valid.hasSurvivor
  obtain rfl := hof.absorbed_id absorbed valid.hasAbsorbed
  have hne : survivor.id ≠ absorbed.id := by
    rw [← hof.ids.1, ← hof.ids.2]
    exact valid.distinct
  have hsole : ∀ roleId id, Shows g (hasEdge absorbed.id id) → Shows g (hasEdge roleId id) → roleId = absorbed.id :=
    fun roleId id => sole_of_foreign hread valid.noForeign
  have hnodes : readNode g "Role" survivor.id (roleState survivor.id) = some (some survivor) ∧
      readNode g "Role" absorbed.id (roleState absorbed.id) = some (some absorbed) := by
    simp only [readRoleMergeState, Option.bind_eq_bind, Option.bind_eq_some_iff, Option.pure_def,
      Option.some.injEq] at hread
    obtain ⟨x, hx, y, hy, ds, -, es, -, hstate⟩ := hread
    obtain rfl : x = some survivor := by rw [← valid.hasSurvivor, ← hstate]
    obtain rfl : y = some absorbed := by rw [← valid.hasAbsorbed, ← hstate]
    exact ⟨hx, hy⟩
  have hsurvivor := mem_of_readNode hnodes.1
  rw [roleMergePrimitives_shape] at hbuilt
  set upserts := (sortedList later.absorbedObligationIds).map (hasEdge survivor.id ·) with hupserts
  have hmem : ∀ id, hasEdge survivor.id id ∈ upserts ↔ Shows g (hasEdge absorbed.id id) := by
    intro id
    rw [← hnow.absorbedObligations, hupserts]
    simp [hasEdge]
  have hshape : ∀ k : EdgeKey, k.record ∈ upserts → ∃ id, k.record = hasEdge survivor.id id := by
    intro k hk
    obtain ⟨id, -, heq⟩ := List.mem_map.1 hk
    exact ⟨id, heq.symm⟩
  have hends : ∀ k : EdgeKey, k.record ∈ upserts → g.hasEnds k = true := by
    intro k hk
    obtain ⟨id, heq⟩ := hshape k hk
    have hboth : k.record.source ∈ g.nodes ∧ k.record.target ∈ g.nodes := by
      rw [heq] at hk ⊢
      exact ⟨hsurvivor, ((hmem id).1 hk).ends.2⟩
    simpa [hasEnds] using hboth
  refine ⟨hne, ⟨survivor, hnodes.1⟩, mem_of_readNode hnodes.2, fun n habsorbed hmarker hreview =>
    mergeShape_nodes hbuilt habsorbed hmarker fun id _ heq => hreview (congrArg NodeRef.label heq),
    mergeShape_gone hbuilt (by decide), readMarkers_merged (mergeShape_marker hbuilt (by decide) (by decide)), hsole,
    fun k id heq hmoved => ?_, fun k habsorbed hreview hnot => ?_, ?_⟩
  · -- the survivor bore none of them
    have hnone : g.edgesAt k = 0 := by
      refine edgesAt_eq_zero_of_not_shows fun hshow => ?_
      rw [heq] at hshow
      exact hne (hsole _ _ hmoved hshow)
    have htouch : ¬ k.record.Touches ⟨"Role", absorbed.id⟩ := by
      rw [heq, hasEdge_touches_role]
      exact hne
    have hin : k.record ∈ upserts := by
      rw [heq]
      exact (hmem id).2 hmoved
    rw [mergeShape_edgesAt hbuilt htouch
      (fun id _ => by rw [heq]; exact hasEdge_not_touches (by decide) (by decide)) (hends k), hnone]
    simp only [hin, true_and, settled, if_true]
  · rw [mergeShape_edgesAt hbuilt habsorbed (fun id _ => hreview id) (hends k), if_neg]
    rintro ⟨hin, -⟩
    obtain ⟨id, heq⟩ := hshape k hin
    exact hnot id heq ((hmem id).1 (heq ▸ hin))
  · -- an Obligation of the absorbed Role has the survivor before the absorbed Role goes
    rw [build_mergeShape hbuilt]
    have hups := keepsBearers_upserts (KeepsBearers.refl g) upserts
    have hmarked := @keepsBearers_upsertNode g _ hups ⟨"MergedRole", absorbed.id⟩ (by simp) (mergedInto survivor.id) none
    have hdeleted : KeepsBearers g (applyOne (applyOne (applyAll g (upserts.map fun e => .upsertEdge e.base ∅))
        (.upsertNode ⟨"MergedRole", absorbed.id⟩ (mergedInto survivor.id) none)) (.deleteNode ⟨"Role", absorbed.id⟩)) := by
      refine ⟨fun id hid => ?_, fun id hid => hmarked.nodes id ?_⟩
      · have hother : ∃ roleId, roleId ≠ absorbed.id ∧
            Shows (applyAll g (upserts.map fun e => .upsertEdge e.base ∅)) (hasEdge roleId id) := by
          obtain ⟨roleId, hshow⟩ := hid
          by_cases hrole : roleId = absorbed.id
          · rw [hrole] at hshow
            refine ⟨survivor.id, hne, shows_of_base ?_⟩
            have hin := (hmem id).2 hshow
            rw [upserts_edgesAt (hends _), if_pos ⟨hin, rfl⟩]
            exact settled_ne_zero _
          · exact ⟨roleId, hrole, shows_upserts hshow upserts⟩
        obtain ⟨roleId, hrole, hshow⟩ := hother
        exact ⟨roleId, shows_deleteNode.2 ⟨shows_upsertNode.2 hshow, fun htouch => hrole (hasEdge_touches_role.1 htouch)⟩⟩
      · rw [ExtTreeMap.mem_iff_isSome_getElem?] at hid ⊢
        rwa [deleteNode_nodes_kept _ (by simp)] at hid
    refine allAlong_append (allAlong_append (allAlong_map fun n => ?_) ?_) ?_
    · exact keepsBearers_upserts (KeepsBearers.refl g) _
    · exact allAlong_cons hups (allAlong_cons hmarked (allAlong_nil hdeleted))
    · rw [applyAll_append, applyAll_cons, applyAll_cons, applyAll_nil]
      cases reviewId with
      | none => exact allAlong_nil hdeleted
      | some id =>
        exact allAlong_cons hdeleted (allAlong_nil
          (keepsBearers_deleteNode hdeleted (n := ⟨"PendingReview", id⟩) (by simp) (by simp)))

/-! ## What the record says to reverse -/

/-- **What is to be reversed.** -/
structure ReversesRole (g : Graph) (survivorId absorbedId : String) (inputs : RoleUnmergeInputs) : Prop where
  survivor : inputs.survivorId = survivorId
  absorbed : inputs.absorbedId = absorbedId
  properties : ∀ name, inputs.absorbedProperties[name]? =
    if name ∈ roleProperties then propertyOf g ⟨"Role", absorbedId⟩ name else none
  defines : ∀ id ref, DefinedBy g absorbedId id ref ↔ id = inputs.instrumentId ∧ ref = inputs.definesSourceRef
  moved : ∀ id, id ∈ inputs.movedObligationIds ↔ Shows g (hasEdge absorbedId id)

theorem DefinedBy.ends {g : Graph} {roleId id : String} {ref : Option String} (h : DefinedBy g roleId id ref) :
    (⟨"RegulatoryInstrument", id⟩ : NodeRef) ∈ g.nodes := by
  obtain ⟨e, he, hrecord, -⟩ := h
  have hshow : Shows g (definesEdge id roleId) := ⟨e, he, hrecord⟩
  exact hshow.ends.1

section Derive

variable {g : Graph} {survivorId absorbedId : String} {details : RoleMergeDetails} {name : String}

/-- A record of a Role with a name. -/
theorem derive_named (hr : RoleRecorded g survivorId absorbedId details) (hids : ∀ n ∈ g.nodes, isNonBlank n.id = true)
    (hname : propertyOf g ⟨"Role", absorbedId⟩ "name" = some (.scalar (.str name))) (hne : name ≠ "") :
    ∃ inputs, deriveRoleUnmergeInputs details = .ok inputs ∧ ReversesRole g survivorId absorbedId inputs := by
  obtain ⟨moved, hmoved, hmem⟩ := hr.moved
  obtain ⟨count, hcount⟩ := Option.isSome_iff_exists.1 hr.count
  obtain ⟨after, hafter⟩ := Option.isSome_iff_exists.1 hr.after
  obtain ⟨before, node, hbefore, hfind, hproperties⟩ := hr.before
  have hinstrument : details.instrumentId ≠ "" := by
    intro hblank
    have hnonblank := hids _ ((hr.defines _ _).2 ⟨rfl, rfl⟩).ends
    rw [hblank] at hnonblank
    exact absurd hnonblank (by decide)
  have htruthy : node.properties["name"]?.all PropertyValue.falsy = false := by
    rw [hproperties, if_pos (by decide), hname]
    simpa [PropertyValue.falsy] using hne
  rw [← hr.absorbed] at hfind
  refine ⟨_, by simp only [deriveRoleUnmergeInputs, hbefore, hafter, hmoved, hcount, hinstrument, hfind, htruthy, if_false,
    Bool.false_eq_true]; rfl, hr.survivor, hr.absorbed, hproperties, hr.defines, fun id => ?_⟩
  exact mem_sortedList.trans (hmem id)

/-- A record of a Role without one. -/
theorem derive_unnamed (hr : RoleRecorded g survivorId absorbedId details)
    (hname : propertyOf g ⟨"Role", absorbedId⟩ "name" = some (.scalar (.str ""))) (inputs : RoleUnmergeInputs) :
    deriveRoleUnmergeInputs details ≠ .ok inputs := by
  obtain ⟨moved, hmoved, -⟩ := hr.moved
  obtain ⟨count, hcount⟩ := Option.isSome_iff_exists.1 hr.count
  obtain ⟨after, hafter⟩ := Option.isSome_iff_exists.1 hr.after
  obtain ⟨before, node, hbefore, hfind, hproperties⟩ := hr.before
  have hfalsy : node.properties["name"]?.all PropertyValue.falsy = true := by
    rw [hproperties, if_pos (by decide), hname]
    rfl
  rw [← hr.absorbed] at hfind
  simp only [deriveRoleUnmergeInputs, hbefore, hafter, hmoved, hcount, hfind, hfalsy, if_true]
  split
  · exact fun h => (by cases h)
  · exact fun h => (by cases h)

end Derive

/-! ## The unmerge is accepted -/

section Unmerge

variable {g g₁ g' g₂ : Graph} {survivorId absorbedId : String} {details : RoleMergeDetails} {ps : List Primitive}
  {inputs : RoleUnmergeInputs}

/-- The bearers of a moved Obligation after the merge. -/
theorem RoleMergedInto.moved_edgesAt (h : RoleMergedInto g survivorId absorbedId details ps g₁) {k : EdgeKey}
    {roleId id : String} (hk : k.record = hasEdge roleId id) (hmoved : Shows g (hasEdge absorbedId id)) :
    g₁.edgesAt k = if (hasEdge survivorId id).base.edgeKey = k then {∅} else 0 := by
  have hstandard : (hasEdge survivorId id).base.edgeKey = k ↔ roleId = survivorId ∧ k.Standard := by
    constructor
    · rintro rfl
      exact ⟨(congrArg EdgeRecord.sourceId hk).symm, rfl⟩
    · rintro ⟨rfl, hstandard⟩
      rw [← hk]
      exact hstandard
  simp only [hstandard]
  by_cases hs : roleId = survivorId
  · subst hs
    rw [h.brought k id hk hmoved]
    simp
  · rw [if_neg fun hboth => hs hboth.1]
    by_cases ha : roleId = absorbedId
    · refine edgesAt_eq_zero_of_gone h.gone ?_
      rw [hk, hasEdge_touches_role]
      exact ha
    · -- no other Role bore it
      have hkept : g₁.edgesAt k = g.edgesAt k := by
        refine h.kept k ?_ (fun x => by rw [hk]; exact hasEdge_not_touches (by decide) (by decide)) fun x hx => ?_
        · rw [hk, hasEdge_touches_role]
          exact ha
        · rw [hk] at hx
          exact absurd (congrArg EdgeRecord.sourceId hx) hs
      rw [hkept]
      refine edgesAt_eq_zero_of_not_shows fun hshow => ha (h.sole roleId id hmoved ?_)
      rwa [hk] at hshow

/-- What is read to plan the unmerge. -/
structure RoleReadAfter (inputs : RoleUnmergeInputs) (state : RoleUnmergeState) : Prop where
  gone : state.absorbedExists = false
  targets : inputs.survivorId ∈ state.absorbedTargets
  survivor : ∃ survivor, state.survivor = some survivor
  instrument : state.instrumentExists = true
  bearers : ∀ id ∈ inputs.movedObligationIds, state.movedBearers id = [inputs.survivorId]

theorem RoleMergedInto.instrument_mem (h : RoleMergedInto g survivorId absorbedId details ps g₁) {id : String}
    (hmem : (⟨"RegulatoryInstrument", id⟩ : NodeRef) ∈ g.nodes) :
    (⟨"RegulatoryInstrument", id⟩ : NodeRef) ∈ g₁.nodes := by
  rw [ExtTreeMap.mem_iff_isSome_getElem?, h.nodes _ (by simp) (by simp) (by simp)]
  exact ExtTreeMap.mem_iff_isSome_getElem?.1 hmem

/-- The survivor after the merge: what it was. -/
theorem RoleMergedInto.survivor_nodes (h : RoleMergedInto g survivorId absorbedId details ps g₁) {label : String}
    (hlabel : label ≠ "PendingReview") :
    g₁.nodes[(⟨label, survivorId⟩ : NodeRef)]? = g.nodes[(⟨label, survivorId⟩ : NodeRef)]? :=
  h.nodes _ (fun heq => h.distinct (congrArg NodeRef.id heq)) (fun heq => h.distinct (congrArg NodeRef.id heq)) hlabel

theorem moved_rows (h : RoleMergedInto g survivorId absorbedId details ps g₁)
    (hr : ReversesRole g survivorId absorbedId inputs)
    (honly : OnlyGained g₁ g' survivorId absorbedId inputs.movedObligationIds) (scan : ScanOrder) {id : String}
    (hid : id ∈ inputs.movedObligationIds) :
    (edgeRows scan g' hasPattern fun e => e.targetId = id) = [hasEdge survivorId id] := by
  have hkey : ∀ k : EdgeKey, decide (hasPattern.Selects k.record ∧ decide (k.record.targetId = id) = true) = true →
      g'.edgesAt k = if (hasEdge survivorId id).base.edgeKey = k then {∅} else 0 := by
    intro k hk
    obtain ⟨⟨hrel, hsource, htarget⟩, hend⟩ := of_decide_eq_true hk
    have hrecord : k.record = hasEdge k.record.sourceId id := by
      have hthis := of_decide_eq_true hend
      generalize k.record = r at hrel hsource htarget hthis ⊢
      cases r
      simp only at hrel hsource htarget hthis
      subst hrel hsource htarget hthis
      rfl
    rw [honly.bearers k _ id hid hrecord]
    exact h.moved_edgesAt hrecord ((hr.moved id).1 hid)
  have hselected : decide (hasPattern.Selects (hasEdge survivorId id).base.edgeKey.record ∧
      decide ((hasEdge survivorId id).base.edgeKey.record.targetId = id) = true) = true :=
    decide_eq_true ⟨⟨rfl, rfl, rfl⟩, decide_eq_true rfl⟩
  have hone := @filter_edges_singleton g' (fun k => decide (hasPattern.Selects k.record ∧
    decide (k.record.targetId = id) = true)) (hasEdge survivorId id).base.edgeKey ∅ hselected
    (by rw [hkey _ hselected, if_pos rfl]) fun k hk hne => by rw [hkey k hk, if_neg hne.symm]
  simp only [decide_eq_true_eq] at hone
  have hrows := @edgeRows_one scan g' hasPattern (fun e => e.targetId = id) _ (by simpa using hone)
  exact hrows

theorem roleReadAfter (h : RoleMergedInto g survivorId absorbedId details ps g₁)
    (hr : ReversesRole g survivorId absorbedId inputs)
    (honly : OnlyGained g₁ g' survivorId absorbedId inputs.movedObligationIds) {scan : ScanOrder}
    {state : RoleUnmergeState} (hread : readRoleUnmergeState scan g' inputs = some state) : RoleReadAfter inputs state := by
  simp only [readRoleUnmergeState, Option.bind_eq_bind, Option.bind_eq_some_iff, Option.pure_def,
    Option.some.injEq] at hread
  obtain ⟨x, hx, y, hy, ts, hts, us, -, rfl⟩ := hread
  refine ⟨?_, ?_, ?_, ?_, fun id hid => ?_⟩
  · rw [hr.absorbed, readNode, honly.roles _ (.inr rfl), h.gone] at hy
    cases hy
    rfl
  · rw [hr.absorbed, readMarkers, honly.markers _ (.inr rfl), ← readMarkers, h.marker] at hts
    cases hts
    exact List.mem_singleton.2 hr.survivor
  · obtain ⟨survivor, hsurvivor⟩ := h.survivor
    rw [hr.survivor, readNode, honly.roles _ (.inl rfl), h.survivor_nodes (by decide), ← readNode, hsurvivor] at hx
    exact ⟨survivor, (Option.some.inj hx).symm⟩
  · exact decide_eq_true (honly.instruments _ (h.instrument_mem ((hr.defines _ _).2 ⟨rfl, rfl⟩).ends))
  · simp only [if_pos hid, moved_rows h hr honly scan hid, List.map_singleton, hr.survivor]
    rfl

theorem forM_ok {α ε : Type} {f : α → Except ε Unit} {items : List α} (h : ∀ x ∈ items, f x = .ok ()) :
    items.forM f = .ok () := by
  induction items with
  | nil => rfl
  | cons x items ih =>
    have hstep : (x :: items).forM f = f x >>= fun _ => items.forM f := rfl
    rw [hstep, h x List.mem_cons_self]
    exact ih fun y hy => h y (List.mem_cons_of_mem _ hy)

/-- **The unmerge is accepted**: its plan, and the guard on what is read again. -/
theorem role_unmerge_accepted {state later : RoleUnmergeState} (hnow : RoleReadAfter inputs state)
    (hthen : RoleReadAfter inputs later) : ∃ write added, planRoleUnmerge inputs state = .ok (write, added) ∧
      roleUnmergeGuardHolds later write inputs.survivorId = true := by
  obtain ⟨survivor, hsurvivor⟩ := hnow.survivor
  obtain ⟨survivor', hsurvivor'⟩ := hthen.survivor
  have hmoved : checkMovedObligations inputs state = .ok () := by
    refine forM_ok fun id hid => ?_
    simp [hnow.bearers id hid, refuseIf, bind, Except.bind]
  refine ⟨⟨inputs.absorbedProperties, inputs.instrumentId, inputs.definesSourceRef, inputs.movedObligationIds⟩,
    state.survivorObligationIds.length - inputs.survivorHasCountAfterMerge, ?_, ?_⟩
  · simp only [planRoleUnmerge, checkRoleState, checkRoleMarker, hnow.gone, hnow.targets, hsurvivor, hnow.instrument,
      hmoved, refuseIf, bind, Except.bind, not_true, if_false, Bool.false_eq_true, Bool.true_eq_false]
    rfl
  · simp only [roleUnmergeGuardHolds, hthen.gone, hthen.targets, hsurvivor', hthen.instrument, decide_true,
      Bool.not_false, Option.isSome_some, Bool.true_and, List.all_eq_true, decide_eq_true_eq]
    exact hthen.bearers

/-! ## The unmerge is written -/

theorem WrittenWith.role_readable (hwritten : WrittenWith "MergedRole" g)
    (h : RoleMergedInto g survivorId absorbedId details ps g₁) (hr : ReversesRole g survivorId absorbedId inputs)
    (honly : OnlyGained g₁ g' survivorId absorbedId inputs.movedObligationIds) (scan : ScanOrder) :
    ∃ state, readRoleUnmergeState scan g' inputs = some state := by
  obtain ⟨survivor, hsurvivor⟩ := h.survivor
  have hx : readNode g' "Role" inputs.survivorId (roleState inputs.survivorId) = some (some survivor) := by
    rw [hr.survivor, readNode, honly.roles _ (.inl rfl), h.survivor_nodes (by decide), ← readNode, hsurvivor]
  have hy : readNode g' "Role" inputs.absorbedId (roleState inputs.absorbedId) = some none := by
    rw [hr.absorbed, readNode, honly.roles _ (.inr rfl), h.gone]
  have hmarker : readMarkers "MergedRole" g' inputs.absorbedId = some [survivorId] := by
    rw [hr.absorbed, readMarkers, honly.markers _ (.inr rfl), ← readMarkers, h.marker]
  obtain ⟨targets, htargets⟩ := Option.isSome_iff_exists.1 (hwritten.markers survivorId)
  have hother : readMarkers "MergedRole" g' inputs.survivorId = some targets := by
    rw [hr.survivor, readMarkers, honly.markers _ (.inl rfl), h.survivor_nodes (by decide), ← readMarkers, htargets]
  simp only [readRoleUnmergeState, hx, hy, hmarker, hother]
  exact ⟨_, rfl⟩

theorem planned_write {state : RoleUnmergeState} {write : RoleUnmergeWrite} {added : ℕ}
    (hplan : planRoleUnmerge inputs state = .ok (write, added)) :
    write = ⟨inputs.absorbedProperties, inputs.instrumentId, inputs.definesSourceRef, inputs.movedObligationIds⟩ := by
  obtain ⟨-, -, hwrite⟩ := bind_ok.1 hplan
  cases hwrite
  rfl

theorem accept_defines_isSome {e : EdgeRecord} (h : e.raw.accept.isSome = true) (sourceRef : Option String) :
    (RawPrimitive.upsertEdge e.raw (propertiesPy (definesProperties sourceRef))).accept.isSome = true := by
  obtain ⟨b, hb⟩ := Option.isSome_iff_exists.1 h
  obtain ⟨map, hmap⟩ := @validate_recorded (definesProperties sourceRef) reservedEdgePropertyKeys ["source_ref"]
    (by decide) fun name v hv => by
      cases sourceRef with
      | none => exact absurd hv (by simp [definesProperties])
      | some ref =>
        rw [definesProperties, ExtTreeMap.getElem?_insert] at hv
        split at hv
        · rename_i heq
          cases hv
          exact ⟨by simp [Std.compare_eq_iff_eq.1 heq], rfl⟩
        · exact absurd hv (by simp)
  simp [RawPrimitive.accept, hb, hmap, Except.toOption]

/-- **The unmerge group is built.** -/
theorem WrittenWith.role_built (hwritten : WrittenWith "MergedRole" g)
    (h : RoleMergedInto g survivorId absorbedId details ps g₁) (hr : ReversesRole g survivorId absorbedId inputs) :
    (buildGroup (roleUnmergePrimitives ⟨inputs.absorbedProperties, inputs.instrumentId, inputs.definesSourceRef,
      inputs.movedObligationIds⟩ absorbedId survivorId)).isSome = true := by
  have habsorbed := hwritten.ids _ h.absorbed_mem
  obtain ⟨survivor, hsurvivor⟩ := h.survivor
  have hsurvivorId := hwritten.ids _ (mem_of_readNode hsurvivor)
  have hinstrument := hwritten.ids _ ((hr.defines _ _).2 ⟨rfl, rfl⟩).ends
  have hlabels : isIdentifier "Role" = true ∧ isIdentifier "Obligation" = true ∧ isIdentifier "HAS" = true ∧
      isIdentifier "DEFINES" = true ∧ isIdentifier "RegulatoryInstrument" = true := by decide
  obtain ⟨hrole, hobligation, hhas, hdefines, hregulatory⟩ := hlabels
  -- each edge is between nodes of the graph
  have hedge : ∀ roleId, isNonBlank roleId = true → ∀ id ∈ inputs.movedObligationIds,
      (hasEdge roleId id).raw.accept.isSome = true := by
    intro roleId hid id hmoved
    have hends := ((hr.moved id).1 hmoved).ends
    exact accept_edge_isSome hhas ⟨hrole, hid⟩ ⟨hobligation, hwritten.ids _ hends.2⟩
  refine buildGroup_isSome fun raw hraw => ?_
  simp only [roleUnmergePrimitives, List.mem_append, List.mem_map, List.mem_cons, List.not_mem_nil, or_false] at hraw
  rcases hraw with (((rfl | rfl) | ⟨e, ⟨id, hid, rfl⟩, rfl⟩) | ⟨e, ⟨id, hid, rfl⟩, rfl⟩) | rfl
  · refine accept_node_isSome roleProperties hrole habsorbed (by decide) fun name v hv => ?_
    rw [hr.properties] at hv
    split at hv
    · exact ⟨‹_›, hwritten.values _ _ _ hv⟩
    · cases hv
  · exact accept_defines_isSome (accept_edge_isSome hdefines ⟨hregulatory, hinstrument⟩ ⟨hrole, habsorbed⟩) _
  · exact (accept_records_isSome (hedge absorbedId habsorbed id hid)).1
  · exact (accept_records_isSome (hedge survivorId hsurvivorId id hid)).2
  · exact accept_deleteNode_isSome (by decide) habsorbed

/-- The edges that come back and those that go, one list each. -/
def movedHas (inputs : RoleUnmergeInputs) (roleId : String) : List EdgeRecord :=
  inputs.movedObligationIds.map (hasEdge roleId ·)

/-- The node that comes back, and its `DEFINES` edge. -/
def recreateRole (inputs : RoleUnmergeInputs) (absorbedId : String) : List Primitive :=
  [.upsertNode ⟨"Role", absorbedId⟩ inputs.absorbedProperties none,
    .upsertEdge (definesEdge inputs.instrumentId absorbedId).base (definesProperties inputs.definesSourceRef)]

theorem build_roleUnmerge (h : buildGroup (roleUnmergePrimitives ⟨inputs.absorbedProperties, inputs.instrumentId,
      inputs.definesSourceRef, inputs.movedObligationIds⟩ absorbedId survivorId) = some ps) :
    ps = recreateRole inputs absorbedId ++ (movedHas inputs absorbedId).map (fun e => .upsertEdge e.base ∅) ++
      (movedHas inputs survivorId).map (fun e => .deleteEdge e.base) ++ [.deleteNode ⟨"MergedRole", absorbedId⟩] := by
  obtain ⟨_, last, hthree, hlast, rfl⟩ := buildGroup_append.1 h
  obtain ⟨_, removed, htwo, hremoved, rfl⟩ := buildGroup_append.1 hthree
  obtain ⟨first, restored, hfirst, hrestored, rfl⟩ := buildGroup_append.1 htwo
  obtain ⟨node, rest, hnode, hrest, rfl⟩ := buildGroup_cons.1 hfirst
  obtain ⟨edge, rest, hedge, hnil, rfl⟩ := buildGroup_cons.1 hrest
  obtain rfl : rest = [] := (Option.some.inj hnil).symm
  obtain ⟨del, rest, hdel, hnil', rfl⟩ := buildGroup_cons.1 hlast
  obtain rfl : rest = [] := (Option.some.inj hnil').symm
  have hdefines : edge = .upsertEdge (definesEdge inputs.instrumentId absorbedId).base
      (definesProperties inputs.definesSourceRef) := by
    simp only [RawPrimitive.accept, Option.bind_eq_bind, Option.bind_eq_some_iff] at hedge
    obtain ⟨b, hb, map, hmap, heq⟩ := hedge
    cases heq
    rw [accept_edge hb, propertiesPy_accepted (toOption_eq_some hmap)]
  rw [accept_node hnode, hdefines, build_upserts hrestored, build_deletes hremoved, accept_deleteNode hdel]
  rfl

/-! ## What comes back -/

/-- What the unmerge starts from. -/
structure BeforeUnmerge (g g₁ g' : Graph) (survivorId absorbedId : String) (details : RoleMergeDetails)
    (ps : List Primitive) (inputs : RoleUnmergeInputs) : Prop where
  merged : RoleMergedInto g survivorId absorbedId details ps g₁
  reverses : ReversesRole g survivorId absorbedId inputs
  only : OnlyGained g₁ g' survivorId absorbedId inputs.movedObligationIds

theorem BeforeUnmerge.gone (h : BeforeUnmerge g g₁ g' survivorId absorbedId details ps inputs) :
    g'.nodes[(⟨"Role", absorbedId⟩ : NodeRef)]? = none := by
  rw [h.only.roles _ (.inr rfl), h.merged.gone]

theorem BeforeUnmerge.instrument (h : BeforeUnmerge g g₁ g' survivorId absorbedId details ps inputs) :
    (⟨"RegulatoryInstrument", inputs.instrumentId⟩ : NodeRef) ∈ g'.nodes :=
  h.only.instruments _ (h.merged.instrument_mem ((h.reverses.defines _ _).2 ⟨rfl, rfl⟩).ends)

/-- The bearers of a moved Obligation: the survivor, by one edge. -/
theorem BeforeUnmerge.moved_edgesAt (h : BeforeUnmerge g g₁ g' survivorId absorbedId details ps inputs) {k : EdgeKey}
    {roleId id : String} (hk : k.record = hasEdge roleId id) (hid : id ∈ inputs.movedObligationIds) :
    g'.edgesAt k = if (hasEdge survivorId id).base.edgeKey = k then {∅} else 0 := by
  rw [h.only.bearers k roleId id hid hk]
  exact h.merged.moved_edgesAt hk ((h.reverses.moved id).1 hid)

theorem BeforeUnmerge.obligation_mem (h : BeforeUnmerge g g₁ g' survivorId absorbedId details ps inputs) {id : String}
    (hid : id ∈ inputs.movedObligationIds) : (⟨"Obligation", id⟩ : NodeRef) ∈ g'.nodes := by
  have hshow : Shows g' (hasEdge survivorId id) := by
    refine shows_of_base ?_
    rw [h.moved_edgesAt rfl hid, if_pos rfl]
    exact Multiset.singleton_ne_zero _
  exact hshow.ends.2

theorem recreateRole_nodes (g : Graph) (inputs : RoleUnmergeInputs) (absorbedId : String) :
    (applyAll g (recreateRole inputs absorbedId)).nodes =
      (applyOne g (.upsertNode ⟨"Role", absorbedId⟩ inputs.absorbedProperties none)).nodes := rfl

/-- The recreated Role, with its one edge. -/
theorem BeforeUnmerge.recreate_edgesAt (h : BeforeUnmerge g g₁ g' survivorId absorbedId details ps inputs)
    (k : EdgeKey) : (applyAll g' (recreateRole inputs absorbedId)).edgesAt k =
      if (definesEdge inputs.instrumentId absorbedId).base.edgeKey = k then {definesProperties inputs.definesSourceRef}
      else g'.edgesAt k := by
  set recreated := applyOne g' (.upsertNode ⟨"Role", absorbedId⟩ inputs.absorbedProperties none) with hrecreated
  have hstep : (applyAll g' (recreateRole inputs absorbedId)).edgesAt k =
      if (definesEdge inputs.instrumentId absorbedId).base.edgeKey = k then
        upsertAt (recreated.hasEnds k) ∅ (· ∪ definesProperties inputs.definesSourceRef) (recreated.edgesAt k)
      else recreated.edgesAt k := by
    rw [recreateRole, applyAll_cons, applyAll_cons, applyAll_nil, applyOne_eq_write rfl, write_edgesAt]
    rfl
  rw [hstep]
  by_cases hkey : (definesEdge inputs.instrumentId absorbedId).base.edgeKey = k
  · have htouch : k.record.Touches ⟨"Role", absorbedId⟩ := by
      rw [← hkey]
      exact .inr rfl
    have hnone : recreated.edgesAt k = 0 := by
      rw [hrecreated, upsertNode_edgesAt]
      exact edgesAt_eq_zero_of_gone h.gone htouch
    have hends : recreated.hasEnds k = true := by
      have hboth : k.source ∈ recreated.nodes ∧ k.target ∈ recreated.nodes := by
        rw [← hkey]
        constructor
        · rw [ExtTreeMap.mem_iff_isSome_getElem?, hrecreated, upsertNode_nodes _ _ _ (by
            simp [definesEdge, EdgeRecord.base, EdgeRecord.source, EdgeBase.edgeKey])]
          exact ExtTreeMap.mem_iff_isSome_getElem?.1 h.instrument
        · rw [ExtTreeMap.mem_iff_isSome_getElem?, hrecreated, applyOne_eq_write rfl, write_nodes]
          simp [nodeStep, definesEdge, EdgeRecord.base, EdgeRecord.target, EdgeBase.edgeKey]
      simpa [hasEnds] using hboth
    have hunion : (∅ : PropertyMap) ∪ definesProperties inputs.definesSourceRef =
        definesProperties inputs.definesSourceRef := by
      refine ExtTreeMap.ext_getElem? fun key => ?_
      rw [ExtTreeMap.getElem?_union]
      cases (definesProperties inputs.definesSourceRef)[key]? <;> rfl
    rw [if_pos hkey, if_pos hkey, hnone, hends]
    simp [upsertAt, hunion]
  · rw [if_neg hkey, if_neg hkey, hrecreated, upsertNode_edgesAt]

theorem mem_movedHas {inputs : RoleUnmergeInputs} {roleId : String} {r : EdgeRecord} :
    r ∈ movedHas inputs roleId ↔ ∃ id ∈ inputs.movedObligationIds, hasEdge roleId id = r := by
  rw [movedHas, List.mem_map]

theorem BeforeUnmerge.restored_ends (h : BeforeUnmerge g g₁ g' survivorId absorbedId details ps inputs) {k : EdgeKey}
    (hk : k.record ∈ movedHas inputs absorbedId) : (applyAll g' (recreateRole inputs absorbedId)).hasEnds k = true := by
  obtain ⟨id, hid, heq⟩ := mem_movedHas.1 hk
  have hboth : k.record.source ∈ (applyAll g' (recreateRole inputs absorbedId)).nodes ∧
      k.record.target ∈ (applyAll g' (recreateRole inputs absorbedId)).nodes := by
    rw [recreateRole_nodes, ← heq]
    constructor
    · rw [ExtTreeMap.mem_iff_isSome_getElem?, applyOne_eq_write rfl, write_nodes]
      simp [nodeStep, hasEdge, EdgeRecord.source]
    · rw [ExtTreeMap.mem_iff_isSome_getElem?, upsertNode_nodes _ _ _ (by simp [hasEdge, EdgeRecord.target])]
      exact ExtTreeMap.mem_iff_isSome_getElem?.1 (h.obligation_mem hid)
  simpa [hasEnds] using hboth

/-- **The edges after the unmerge**, those of the marker apart. -/
theorem BeforeUnmerge.edgesAt (h : BeforeUnmerge g g₁ g' survivorId absorbedId details ps inputs) {k : EdgeKey}
    (hmarker : ¬ k.record.Touches ⟨"MergedRole", absorbedId⟩) :
    (applyAll g' (recreateRole inputs absorbedId ++ (movedHas inputs absorbedId).map (fun e => .upsertEdge e.base ∅) ++
        (movedHas inputs survivorId).map (fun e => .deleteEdge e.base) ++
        [.deleteNode ⟨"MergedRole", absorbedId⟩])).edgesAt k =
      if k.record ∈ movedHas inputs survivorId ∧ k.Standard then 0
      else if k.record ∈ movedHas inputs absorbedId ∧ k.Standard then
        settled ((applyAll g' (recreateRole inputs absorbedId)).edgesAt k)
      else (applyAll g' (recreateRole inputs absorbedId)).edgesAt k := by
  rw [applyAll_append, applyAll_append, applyAll_append, applyAll_cons, applyAll_nil, deleteNode_edgesAt_kept _ hmarker,
    deletes_edgesAt, upserts_edgesAt h.restored_ends]

/-- The group of the unmerge. -/
def unmergeGroup (inputs : RoleUnmergeInputs) (survivorId absorbedId : String) : List Primitive :=
  recreateRole inputs absorbedId ++ (movedHas inputs absorbedId).map (fun e => .upsertEdge e.base ∅) ++
    (movedHas inputs survivorId).map (fun e => .deleteEdge e.base) ++ [.deleteNode ⟨"MergedRole", absorbedId⟩]

/-- The `HAS` edges of the absorbed Role, at each key. -/
theorem BeforeUnmerge.absorbedHas (h : BeforeUnmerge g g₁ g' survivorId absorbedId details ps inputs) (id : String) :
    Shows (applyAll g' (unmergeGroup inputs survivorId absorbedId)) (hasEdge absorbedId id) ↔
      id ∈ inputs.movedObligationIds := by
  have hat : ∀ k : EdgeKey, k.record = hasEdge absorbedId id →
      (applyAll g' (unmergeGroup inputs survivorId absorbedId)).edgesAt k =
        if k.record ∈ movedHas inputs absorbedId ∧ k.Standard then {∅} else 0 := by
    intro k hk
    have hmarker : ¬ k.record.Touches ⟨"MergedRole", absorbedId⟩ := by
      rw [hk]
      exact hasEdge_not_touches (by decide) (by decide)
    have hnot : ¬ (k.record ∈ movedHas inputs survivorId ∧ k.Standard) := by
      rintro ⟨hin, -⟩
      obtain ⟨x, -, heq⟩ := mem_movedHas.1 hin
      rw [hk] at heq
      exact h.merged.distinct (congrArg EdgeRecord.sourceId heq)
    have hnone : (applyAll g' (recreateRole inputs absorbedId)).edgesAt k = 0 := by
      rw [h.recreate_edgesAt, if_neg]
      · refine edgesAt_eq_zero_of_gone h.gone ?_
        rw [hk, hasEdge_touches_role]
      · rintro rfl
        exact absurd (congrArg EdgeRecord.relType hk) (by decide : "DEFINES" ≠ "HAS")
    rw [unmergeGroup, h.edgesAt hmarker, if_neg hnot, hnone]
    simp [settled]
  constructor
  · intro hshow
    obtain ⟨k, hk, hheld⟩ := shows_iff.1 hshow
    by_contra hnot
    rw [hat k hk, if_neg] at hheld
    · exact hheld rfl
    · rintro ⟨hin, -⟩
      obtain ⟨x, hx, heq⟩ := mem_movedHas.1 hin
      rw [hk] at heq
      have hsame : x = id := congrArg EdgeRecord.targetId heq
      exact hnot (hsame ▸ hx)
  · intro hid
    refine shows_of_base ?_
    rw [hat _ rfl, if_pos ⟨mem_movedHas.2 ⟨id, hid, rfl⟩, rfl⟩]
    exact Multiset.singleton_ne_zero _

/-- The `HAS` edges of the survivor: what it had, less what went back. -/
theorem BeforeUnmerge.survivorHas (h : BeforeUnmerge g g₁ g' survivorId absorbedId details ps inputs) (id : String) :
    Shows (applyAll g' (unmergeGroup inputs survivorId absorbedId)) (hasEdge survivorId id) ↔
      Shows g' (hasEdge survivorId id) ∧ id ∉ inputs.movedObligationIds := by
  have hat : ∀ k : EdgeKey, k.record = hasEdge survivorId id →
      (applyAll g' (unmergeGroup inputs survivorId absorbedId)).edgesAt k =
        if id ∈ inputs.movedObligationIds then 0 else g'.edgesAt k := by
    intro k hk
    have hmarker : ¬ k.record.Touches ⟨"MergedRole", absorbedId⟩ := by
      rw [hk]
      exact hasEdge_not_touches (by decide) (by decide)
    have hnot : ¬ (k.record ∈ movedHas inputs absorbedId ∧ k.Standard) := by
      rintro ⟨hin, -⟩
      obtain ⟨x, -, heq⟩ := mem_movedHas.1 hin
      rw [hk] at heq
      exact h.merged.distinct (congrArg EdgeRecord.sourceId heq).symm
    have hsame : (applyAll g' (recreateRole inputs absorbedId)).edgesAt k = g'.edgesAt k := by
      rw [h.recreate_edgesAt, if_neg]
      rintro rfl
      exact absurd (congrArg EdgeRecord.relType hk) (by decide : "DEFINES" ≠ "HAS")
    have hin : k.record ∈ movedHas inputs survivorId ↔ id ∈ inputs.movedObligationIds := by
      rw [mem_movedHas, hk]
      constructor
      · rintro ⟨x, hx, heq⟩
        have hid : x = id := congrArg EdgeRecord.targetId heq
        exact hid ▸ hx
      · exact fun hx => ⟨id, hx, rfl⟩
    rw [unmergeGroup, h.edgesAt hmarker, if_neg hnot, hsame]
    simp only [hin]
    by_cases hid : id ∈ inputs.movedObligationIds
    · rw [if_pos hid]
      by_cases hstandard : k.Standard
      · rw [if_pos ⟨hid, hstandard⟩]
      · -- under another identity there was no edge
        rw [if_neg fun hboth => hstandard hboth.2, h.moved_edgesAt hk hid, if_neg]
        rintro rfl
        exact hstandard rfl
    · rw [if_neg fun hboth => hid hboth.1, if_neg hid]
  constructor
  · intro hshow
    obtain ⟨k, hk, hheld⟩ := shows_iff.1 hshow
    rw [hat k hk] at hheld
    split at hheld
    · exact absurd rfl hheld
    · exact ⟨shows_iff.2 ⟨k, hk, hheld⟩, ‹_›⟩
  · rintro ⟨hshow, hid⟩
    obtain ⟨k, hk, hheld⟩ := shows_iff.1 hshow
    refine shows_iff.2 ⟨k, hk, ?_⟩
    rwa [hat k hk, if_neg hid]

/-- The survivor's Obligations after the merge. -/
theorem RoleMergedInto.survivorHas (h : RoleMergedInto g survivorId absorbedId details ps g₁) (id : String) :
    Shows g₁ (hasEdge survivorId id) ↔ Shows g (hasEdge survivorId id) ∨ Shows g (hasEdge absorbedId id) := by
  by_cases hmoved : Shows g (hasEdge absorbedId id)
  · refine iff_of_true ?_ (.inr hmoved)
    refine shows_of_base ?_
    rw [h.brought _ id rfl hmoved, if_pos (EdgeRecord.base_standard _)]
    exact Multiset.singleton_ne_zero _
  · rw [or_iff_left hmoved]
    have hsame : ∀ k : EdgeKey, k.record = hasEdge survivorId id → g₁.edgesAt k = g.edgesAt k := by
      intro k hk
      refine h.kept k ?_ (fun x => by rw [hk]; exact hasEdge_not_touches (by decide) (by decide)) fun x hx => ?_
      · rw [hk, hasEdge_touches_role]
        exact h.distinct
      · rw [hk] at hx
        have hid : id = x := congrArg EdgeRecord.targetId hx
        exact hid ▸ hmoved
    rw [shows_iff, shows_iff]
    constructor
    · rintro ⟨k, hk, hheld⟩
      exact ⟨k, hk, hsame k hk ▸ hheld⟩
    · rintro ⟨k, hk, hheld⟩
      exact ⟨k, hk, (hsame k hk).symm ▸ hheld⟩

/-- The `DEFINES` edges of the absorbed Role. -/
theorem BeforeUnmerge.absorbedDefines (h : BeforeUnmerge g g₁ g' survivorId absorbedId details ps inputs) (id : String)
    (ref : Option String) : DefinedBy (applyAll g' (unmergeGroup inputs survivorId absorbedId)) absorbedId id ref ↔
      id = inputs.instrumentId ∧ ref = inputs.definesSourceRef := by
  have hat : ∀ k : EdgeKey, k.record = definesEdge id absorbedId →
      (applyAll g' (unmergeGroup inputs survivorId absorbedId)).edgesAt k =
        if (definesEdge inputs.instrumentId absorbedId).base.edgeKey = k then {definesProperties inputs.definesSourceRef}
        else 0 := by
    intro k hk
    have hmarker : ¬ k.record.Touches ⟨"MergedRole", absorbedId⟩ := by
      rw [hk]
      rintro (heq | heq)
      · exact absurd (congrArg NodeRef.label heq) (by simp [EdgeRecord.source, definesEdge])
      · exact absurd (congrArg NodeRef.label heq) (by simp [EdgeRecord.target, definesEdge])
    have hnot : ∀ roleId, ¬ (k.record ∈ movedHas inputs roleId ∧ k.Standard) := by
      rintro roleId ⟨hin, -⟩
      obtain ⟨x, -, heq⟩ := mem_movedHas.1 hin
      rw [hk] at heq
      exact absurd (congrArg EdgeRecord.relType heq) (by simp [hasEdge, definesEdge])
    have hnone : g'.edgesAt k = 0 := by
      refine edgesAt_eq_zero_of_gone h.gone ?_
      rw [hk]
      exact .inr rfl
    rw [unmergeGroup, h.edgesAt hmarker, if_neg (hnot _), if_neg (hnot _), h.recreate_edgesAt, hnone]
  have hcolumn : optionalColumn (definesProperties inputs.definesSourceRef)["source_ref"]? =
      some inputs.definesSourceRef := by
    cases inputs.definesSourceRef with
    | none => rfl
    | some text =>
      rw [definesProperties, ExtTreeMap.getElem?_insert_self]
      rfl
  constructor
  · rintro ⟨⟨k, properties⟩, he, hk, href⟩
    have hmem := mem_edgesAt.2 he
    rw [hat k hk] at hmem
    split at hmem
    · rename_i hkey
      rw [Multiset.mem_singleton.1 hmem, hcolumn] at href
      refine ⟨?_, (Option.some.inj href).symm⟩
      rw [← hkey] at hk
      exact (congrArg EdgeRecord.sourceId hk).symm
    · exact absurd hmem (Multiset.notMem_zero _)
  · rintro ⟨rfl, rfl⟩
    refine ⟨((definesEdge inputs.instrumentId absorbedId).base.edgeKey, definesProperties inputs.definesSourceRef),
      mem_edgesAt.1 ?_, rfl, hcolumn⟩
    rw [hat _ rfl, if_pos rfl]
    exact Multiset.mem_singleton_self _

/-- **Both Roles as before the merge.** -/
theorem BeforeUnmerge.restored (h : BeforeUnmerge g g₁ g' survivorId absorbedId details ps inputs) :
    RolesRestored g g₁ g' (applyAll g' (unmergeGroup inputs survivorId absorbedId)) survivorId absorbedId := by
  have hother : ∀ label : String, (⟨label, absorbedId⟩ : NodeRef) ≠ ⟨"Role", survivorId⟩ :=
    fun label heq => h.merged.distinct (congrArg NodeRef.id heq).symm
  have hnode : (applyAll g' (unmergeGroup inputs survivorId absorbedId)).nodes[(⟨"Role", absorbedId⟩ : NodeRef)]? =
      some ⟨inputs.absorbedProperties, none⟩ := by
    rw [unmergeGroup, applyAll_append, applyAll_append, applyAll_append, applyAll_cons, applyAll_nil,
      deleteNode_nodes_kept _ (by simp), deletes_nodes, upserts_nodes, recreateRole_nodes, applyOne_eq_write rfl,
      write_nodes]
    simp only [nodeStep, if_true, h.gone, Option.getD_none, upsert_default]
  refine ⟨?_, fun name hname => ?_, fun k id hk => ?_, fun id ref => ?_, fun id => ?_, fun id => ?_, ?_⟩
  · rw [unmergeGroup, applyAll_append, applyAll_append, applyAll_append, applyAll_cons, applyAll_nil,
      deleteNode_nodes_kept _ (hother _), deletes_nodes, upserts_nodes, recreateRole_nodes,
      upsertNode_nodes _ _ _ (hother _), h.only.roles _ (.inl rfl), h.merged.survivor_nodes (by decide)]
  · rw [propertyOf, hnode, Option.bind_some, h.reverses.properties, if_pos hname]
  · -- neither group touches the citations of the survivor
    have hlabel : ∀ label other : String, label ≠ "Role" → label ≠ "RegulatoryInstrument" →
        ¬ k.record.Touches ⟨label, other⟩ := by
      intro label other hrole hregulatory
      rw [hk]
      rintro (heq | heq)
      · exact hregulatory (congrArg NodeRef.label heq).symm
      · exact hrole (congrArg NodeRef.label heq).symm
    have hnot : ∀ roleId, ¬ (k.record ∈ movedHas inputs roleId ∧ k.Standard) := by
      rintro roleId ⟨hin, -⟩
      obtain ⟨x, -, heq⟩ := mem_movedHas.1 hin
      rw [hk] at heq
      exact absurd (congrArg EdgeRecord.relType heq) (by simp [hasEdge, definesEdge])
    have htarget : ¬ k.record.Touches ⟨"Role", absorbedId⟩ := by
      rw [hk]
      rintro (heq | heq)
      · exact absurd (congrArg NodeRef.label heq) (by simp [EdgeRecord.source, definesEdge])
      · exact h.merged.distinct (congrArg NodeRef.id heq)
    have hkey : (definesEdge inputs.instrumentId absorbedId).base.edgeKey ≠ k := by
      rintro rfl
      exact htarget (.inr rfl)
    rw [unmergeGroup, h.edgesAt (hlabel _ _ (by decide) (by decide)), if_neg (hnot _), if_neg (hnot _),
      h.recreate_edgesAt, if_neg hkey, h.only.defines k id hk]
    refine h.merged.kept k htarget (fun x => hlabel _ _ (by decide) (by decide)) fun x hx => ?_
    rw [hk] at hx
    exact absurd (congrArg EdgeRecord.relType hx) (by simp [hasEdge, definesEdge])
  · rw [h.absorbedDefines, h.reverses.defines]
  · rw [h.absorbedHas, h.reverses.moved]
  · rw [h.survivorHas, h.reverses.moved, h.merged.survivorHas]
    have hsole := h.merged.sole survivorId id
    have hkept := h.only.obligations id
    rw [h.merged.survivorHas] at hkept
    have hdistinct := h.merged.distinct
    tauto
  · rw [unmergeGroup, applyAll_append, applyAll_cons, applyAll_nil, applyOne_eq_write rfl, write_nodes]
    simp [nodeStep]

/-- The delete of edges takes only those. -/
theorem shows_deletes {g : Graph} {es : List EdgeRecord} {r : EdgeRecord} (h : Shows g r) (hnot : r ∉ es) :
    Shows (applyAll g (es.map fun e => .deleteEdge e.base)) r := by
  obtain ⟨k, rfl, hheld⟩ := shows_iff.1 h
  refine shows_iff.2 ⟨k, rfl, ?_⟩
  rwa [deletes_edgesAt, if_neg fun hin => hnot hin.1]

/-- **No Obligation without a bearer**, after each primitive of the unmerge: the recreated Role bears it before the
survivor stops to. -/
theorem BeforeUnmerge.bearers (h : BeforeUnmerge g g₁ g' survivorId absorbedId details ps inputs) :
    AllAlong (KeepsBearers g') g' (unmergeGroup inputs survivorId absorbedId) := by
  have hrole := @keepsBearers_upsertNode g' g' (KeepsBearers.refl g') ⟨"Role", absorbedId⟩ (by simp)
    inputs.absorbedProperties none
  have hrecreated : KeepsBearers g' (applyAll g' (recreateRole inputs absorbedId)) := by
    refine ⟨fun id hid => ?_, fun id hid => ?_⟩
    · obtain ⟨roleId, hshow⟩ := hrole.borne id hid
      exact ⟨roleId, shows_upsertEdge.2 (.inl hshow)⟩
    · rw [recreateRole_nodes] at hid
      exact hrole.nodes id hid
  set restored := applyAll (applyAll g' (recreateRole inputs absorbedId))
    ((movedHas inputs absorbedId).map fun e => .upsertEdge e.base ∅) with hrestored
  have hborne : KeepsBearers g' restored := keepsBearers_upserts hrecreated _
  -- the recreated Role bears what is to go back
  have hback : ∀ id ∈ inputs.movedObligationIds, Shows restored (hasEdge absorbedId id) := by
    intro id hid
    have hin : (hasEdge absorbedId id).base.edgeKey.record ∈ movedHas inputs absorbedId :=
      mem_movedHas.2 ⟨id, hid, rfl⟩
    refine shows_of_base ?_
    rw [hrestored, upserts_edgesAt h.restored_ends, if_pos ⟨hin, rfl⟩]
    exact settled_ne_zero _
  have htaken : ∀ n, KeepsBearers g' (applyAll restored (((movedHas inputs survivorId).take n).map
      fun e => .deleteEdge e.base)) := by
    intro n
    have hof : ∀ r ∈ (movedHas inputs survivorId).take n, ∃ id ∈ inputs.movedObligationIds, hasEdge survivorId id = r :=
      fun r hr => mem_movedHas.1 (List.mem_of_mem_take hr)
    refine ⟨fun id hid => ?_, fun id hid => hborne.nodes id ?_⟩
    · by_cases hmoved : id ∈ inputs.movedObligationIds
      · refine ⟨absorbedId, shows_deletes (hback id hmoved) fun hr => ?_⟩
        obtain ⟨x, -, heq⟩ := hof _ hr
        exact h.merged.distinct (congrArg EdgeRecord.sourceId heq)
      · obtain ⟨roleId, hshow⟩ := hborne.borne id hid
        refine ⟨roleId, shows_deletes hshow fun hr => ?_⟩
        obtain ⟨x, hx, heq⟩ := hof _ hr
        have hsame : x = id := congrArg EdgeRecord.targetId heq
        exact hmoved (hsame ▸ hx)
    · rwa [deletes_nodes] at hid
  have hdone := htaken (movedHas inputs survivorId).length
  rw [List.take_of_length_le le_rfl] at hdone
  refine allAlong_append (allAlong_append (allAlong_append ?_ (allAlong_map fun n => ?_))
    (allAlong_map fun n => ?_)) ?_
  · exact allAlong_cons (KeepsBearers.refl g') (allAlong_cons hrole (allAlong_nil hrecreated))
  · exact keepsBearers_upserts hrecreated _
  · rw [applyAll_append]
    exact htaken n
  · rw [applyAll_append, applyAll_append]
    exact allAlong_cons hdone (allAlong_nil (keepsBearers_deleteNode hdone (by simp) (by simp)))

theorem RoleUnmerged.group (hr : ReversesRole g survivorId absorbedId inputs) {qs : List Primitive}
    (h : RoleUnmerged g' inputs qs g₂) :
    qs = unmergeGroup inputs survivorId absorbedId ∧ g₂ = applyAll g' (unmergeGroup inputs survivorId absorbedId) := by
  obtain ⟨scan, scan', state, later, write, added, -, hplan, -, -, hbuilt, rfl⟩ := h
  obtain rfl := planned_write hplan
  rw [hr.survivor, hr.absorbed] at hbuilt
  obtain rfl : qs = unmergeGroup inputs survivorId absorbedId := build_roleUnmerge hbuilt
  exact ⟨rfl, rfl⟩

/-- A merge of a Role with a name can be taken back. -/
theorem roleReversible (hwritten : WrittenWith "MergedRole" g)
    (h : RoleMergedInto g survivorId absorbedId details ps g₁) (hr : ReversesRole g survivorId absorbedId inputs)
    (hinputs : deriveRoleUnmergeInputs details = .ok inputs) : RoleReversible g g₁ survivorId absorbedId details := by
  refine ⟨inputs, hinputs, fun g' honly => ⟨fun scan scan' state later hread hlater =>
    role_unmerge_accepted (roleReadAfter h hr honly hread) (roleReadAfter h hr honly hlater), ?_, fun qs g₂ hunmerged => ?_⟩⟩
  · obtain ⟨state, hread⟩ := hwritten.role_readable h hr honly default
    have hnow := roleReadAfter h hr honly hread
    obtain ⟨write, added, hplan, hguard⟩ := role_unmerge_accepted hnow hnow
    obtain ⟨qs, hqs⟩ := Option.isSome_iff_exists.1 (hwritten.role_built h hr)
    obtain rfl := planned_write hplan
    exact ⟨qs, _, default, default, state, state, _, added, hread, hplan, hread, hguard,
      by rw [hr.survivor, hr.absorbed]; exact hqs, rfl⟩
  · have hbefore : BeforeUnmerge g g₁ g' survivorId absorbedId details ps inputs := ⟨h, hr, honly⟩
    obtain ⟨rfl, rfl⟩ := hunmerged.group hr
    exact ⟨hbefore.restored, fun n => (hbefore.bearers n).allBorne⟩

end Unmerge

theorem details_of_merged {g g' : Graph} {survivorId absorbedId : String} {details : RoleMergeDetails}
    {ps : List Primitive} (h : RoleMerged g survivorId absorbedId details ps g') :
    RoleRecorded g survivorId absorbedId details := by
  obtain ⟨scan, -, state, -, -, -, hread, -, hdetails, -⟩ := h
  exact recorded_of_details hread hdetails

/-- Two Roles of one instrument, of which "a" bears an Obligation. -/
def bearingGraph (name : String) : Graph :=
  (∅ : Graph).writeAll [
    .put ⟨"RegulatoryInstrument", "i"⟩ id,
    .put ⟨"Role", "s"⟩ (·.merge ((∅ : PropertyMap).insert "name" (.scalar (.str "S")))),
    .put ⟨"Role", "a"⟩ (·.merge ((∅ : PropertyMap).insert "name" (.scalar (.str name)))),
    .put ⟨"Obligation", "o"⟩ id,
    .putEdge (definesEdge "i" "s").base.edgeKey id,
    .putEdge (definesEdge "i" "a").base.edgeKey (· ∪ definesProperties (some "Art. 3")),
    .putEdge (hasEdge "a" "o").base.edgeKey id]

theorem bearingGraph_edges (name : String) : (bearingGraph name).edges =
    {((hasEdge "a" "o").base.edgeKey, ∅), ((definesEdge "i" "a").base.edgeKey, definesProperties (some "Art. 3")),
      ((definesEdge "i" "s").base.edgeKey, ∅)} := rfl

/-- What is read of it. -/
def bearingState (name : String) : RoleMergeState where
  survivorId := "s"
  absorbedId := "a"
  survivor := some ⟨"s", "S", ∅⟩
  absorbed := some ⟨"a", name, ∅⟩
  markerIds := []
  survivorDefines := [⟨"i", none⟩]
  absorbedDefines := [⟨"i", some "Art. 3"⟩]
  survivorObligationIds := []
  absorbedObligationIds := ["o"]
  foreignBearers := []
  absorbedDegree := 2

theorem readDefines_one {scan : ScanOrder} {g : Graph} {roleId : String} {e : EdgeKey × PropertyMap}
    (h : (g.edges.filter fun e => definesPattern.Selects e.1.record ∧ decide (e.1.record.targetId = roleId) = true) = {e}) :
    readDefines scan g roleId = [e].mapM roleDefines := by
  rw [readDefines, storedRows, h, scan.order_singleton]

theorem read_bearingGraph {name : String} (h : name = "" ∨ name = "A") :
    readRoleMergeState default (bearingGraph name) "s" "a" = some (bearingState name) := by
  have hs : readNode (bearingGraph name) "Role" "s" (roleState "s") = some (some ⟨"s", "S", ∅⟩) := rfl
  have ha : readNode (bearingGraph name) "Role" "a" (roleState "a") = some (some ⟨"a", name, ∅⟩) := rfl
  have hds : readDefines default (bearingGraph name) "s" = some [⟨"i", none⟩] :=
    readDefines_one (e := ((definesEdge "i" "s").base.edgeKey, ∅)) (by rw [bearingGraph_edges]; rfl)
  have hda : readDefines default (bearingGraph name) "a" = some [⟨"i", some "Art. 3"⟩] :=
    readDefines_one (e := ((definesEdge "i" "a").base.edgeKey, definesProperties (some "Art. 3")))
      (by rw [bearingGraph_edges]; rfl)
  have hhas : (edgeRows default (bearingGraph name) hasPattern fun e => e.sourceId = "a") = [hasEdge "a" "o"] :=
    edgeRows_one (e := ((hasEdge "a" "o").base.edgeKey, ∅)) (by rw [bearingGraph_edges]; rfl)
  have hnone : (edgeRows default (bearingGraph name) hasPattern fun e => e.sourceId = "s") = [] :=
    edgeRows_none (by rw [bearingGraph_edges]; rfl)
  have hforeign : (edgeRows default (bearingGraph name) hasPattern fun b => b.targetId = "o" && b.sourceId ≠ "a") = [] :=
    edgeRows_none (by rw [bearingGraph_edges]; rfl)
  have hmarkers : ((sortedIds {"s", "a"}).filter fun id => (⟨"MergedRole", id⟩ : NodeRef) ∈ (bearingGraph name).nodes) =
      [] := by
    refine List.filter_eq_nil_iff.2 fun id hid => ?_
    have hcases : id = "s" ∨ id = "a" := by simpa using hid
    rcases hcases with rfl | rfl <;> rcases h with rfl | rfl <;> decide +kernel
  have hdegree : ((bearingGraph name).edges.filter fun e => e.1.source = ⟨"Role", "a"⟩ ∨ e.1.target = ⟨"Role", "a"⟩).card =
      2 := by
    rw [bearingGraph_edges]
    rfl
  rw [readRoleMergeState, hs, ha, hds, hda]
  simp only [Option.bind_eq_bind, Option.bind_some, readObligationIds, hhas, hnone, hmarkers, hdegree, List.flatMap_cons,
    List.flatMap_nil, List.append_nil]
  have htarget : (hasEdge "a" "o").targetId = "o" := rfl
  rw [htarget, hforeign]
  rfl

def bearingDetails (name : String) : RoleMergeDetails where
  survivorId := "s"
  absorbedId := "a"
  instrumentId := "i"
  definesSourceRef := some "Art. 3"
  movedObligationIds := some ["o"]
  survivorHasCountAfterMerge := some 1
  before := some (roleMergePlan (bearingState name) ⟨"s", "S", ∅⟩ ⟨"a", name, ∅⟩ "i").before
  after := some (roleMergePlan (bearingState name) ⟨"s", "S", ∅⟩ ⟨"a", name, ∅⟩ "i").after

theorem merged_bearing {name : String} (h : name = "" ∨ name = "A") :
    ∃ ps g₁, RoleMerged (bearingGraph name) "s" "a" (bearingDetails name) ps g₁ := by
  have hguard : roleMergeGuardHolds (bearingState name)
      (roleMergePlan (bearingState name) ⟨"s", "S", ∅⟩ ⟨"a", name, ∅⟩ "i").expected "s" "a" = true := by
    rcases h with rfl | rfl <;> decide +kernel
  have hbuilt : (buildGroup (roleMergePrimitives (bearingState name) "s" "a" none)).isSome = true := by
    rcases h with rfl | rfl <;> decide +kernel
  obtain ⟨ps, hps⟩ := Option.isSome_iff_exists.1 hbuilt
  exact ⟨ps, _, default, default, bearingState name, bearingState name, _, none, read_bearingGraph h, rfl, rfl,
    read_bearingGraph h, hguard, hps, rfl⟩

theorem written_bearing {name : String} (h : name = "" ∨ name = "A") : WrittenWith "MergedRole" (bearingGraph name) := by
  refine writtenWith_of_all ?_
  rcases h with rfl | rfl <;> decide +kernel

end PolicySystem
