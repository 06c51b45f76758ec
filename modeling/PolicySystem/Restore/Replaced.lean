import PolicySystem.Gateway.Refusals
import PolicySystem.Gateway.ReplaceExact
import PolicySystem.Restore.RestoreInstrument

/-!
# What a restore leaves in the graphs

* `Replaced`: what a restore that returns has done to the graphs of its legs, and to no other;
* `restoreInstrument_replaced`: an attempt refused as stale has logged nothing, so the last attempt decides;
* `restore_replaces_iff`: **when both graphs end as the artifact's legs.**
-/

namespace PolicySystem.Restore

open Faults Proc PropertyGraph GraphWrite
open Std (ExtTreeMap)

section Run

variable (gw : GraphWriteGateway) {start : String → Graph} {w w' : World}

/-! ## One submission -/

/-- **The legs have replaced their graphs**: each is logged over what its graph's log gives and is applied, and the
log of no other graph has changed but that of `policy_system`. -/
structure Replaced (start : String → Graph) (content : List GraphLeg) (policy : String) (w w' : World) : Prop where
  inv : Inv start w'
  legs : ∀ leg ∈ content, ∃ effective,
    selectEffectivePrimitives gw.scan ((w.view leg.graph).atLast (start leg.graph))
        (expandLeg gw.allow gw.scan ((w.view leg.graph).atLast (start leg.graph)) leg.primitives leg.replace) =
      .ok effective ∧
    (w'.view leg.graph).atLast (start leg.graph) = applyAll ((w.view leg.graph).atLast (start leg.graph)) effective
  caughtUp : ∀ leg ∈ content, (w'.view leg.graph).CaughtUp
  others : LogsOnly (policy :: legGraphs content) w w'

/-- What ran before without logging does not count. -/
theorem Replaced.after {content : List GraphLeg} {policy : String} {w₁ : World} (hbefore : LogsOnly [] w w₁)
    (h : Replaced gw start content policy w₁ w') : Replaced gw start content policy w w' := by
  refine ⟨h.inv, fun leg hleg => ?_, h.caughtUp, (hbefore.mono (List.nil_subset _)).trans h.others⟩
  have hlegs := h.legs leg hleg
  rw [hbefore.atLast List.not_mem_nil] at hlegs
  exact hlegs

/-! ## Reads before the submission -/

/-- `R` where a program returns; it is not refused as stale. -/
def Unstale {α : Type} (R : α → World → Prop) : Exit RestoreError α → World → Prop :=
  Then R fun (x : Exit RestoreError Unit) _ => x ≠ .raised .stale

/-- How an attempt ends: where it returns the legs are replaced, where it is refused as stale nothing is logged. -/
def AttemptEnds (start : String → Graph) (content : List GraphLeg) (policy : String) (w : World) :
    Exit RestoreError Unit → World → Prop
  | .returned _, w' => Replaced gw start content policy w w'
  | .raised .stale, w' => Inv start w' ∧ LogsOnly [] w w'
  | _, _ => True

section Attempt

variable {content : List GraphLeg} {policy : String}

theorem attemptEnds_of_not_stale {x : Exit RestoreError Unit} (hreturned : ∀ u, x ≠ .returned u)
    (h : x ≠ .raised .stale) : AttemptEnds gw start content policy w x w' := by
  cases x with
  | returned u => exact absurd rfl (hreturned u)
  | died => trivial
  | raised e =>
    cases e with
    | stale => exact absurd rfl h
    | _ => trivial

theorem attempt_bind {α : Type} {p : Restoring α} {f : α → Restoring Unit} {R : α → World → Prop} {w₁ : World}
    (hp : wp p (Unstale R) w₁) (hf : ∀ a w', R a w' → wp (f a) (AttemptEnds gw start content policy w) w') :
    wp (p >>= f) (AttemptEnds gw start content policy w) w₁ := by
  refine wp_bind (wp_mono hp fun x w' hx => ?_)
  cases x with
  | returned a => exact hf a w' hx
  | raised e => exact attemptEnds_of_not_stale gw nofun fun heq => hx (by rw [Exit.raised.inj heq])
  | died => trivial

theorem unstale_bind {α β : Type} {p : Restoring α} {f : α → Restoring β} {R : α → World → Prop}
    {S : β → World → Prop} (hp : wp p (Unstale R) w) (hf : ∀ a w', R a w' → wp (f a) (Unstale S) w') :
    wp (p >>= f) (Unstale S) w := by
  refine wp_bind (wp_mono hp fun x w' hx => ?_)
  cases x with
  | returned a => exact hf a w' hx
  | raised e => exact hx
  | died => exact nofun

/-- What is not translated to `stale` is not stale. -/
theorem unstale_translate {α : Type} {p : Gw α} {f : Err → RestoreError} {R : α → World → Prop} {E : World → Prop}
    (hf : ∀ e, f e ≠ .stale) (hp : wp p (Ends R E) w) : wp (p.translate f) (Unstale R) w := by
  refine wp_translate (wp_mono hp fun x w' hx => ?_)
  cases x with
  | returned a => exact hx
  | raised e => exact fun heq => hf e (Exit.raised.inj heq)
  | died => exact nofun

theorem gatewayFailure_ne_stale (e : Err) : gatewayFailure e ≠ .stale := by
  cases e <;> exact nofun

/-- `ensure_caught_up` applies what is logged and logs nothing. -/
theorem ensureCaughtUp_same (hI : Inv start w) (g : String) :
    wp (ensureCaughtUp gw g) (Unstale fun _ => Same start w) w := by
  have hread : wp (isCaughtUp g) (Ends (fun _ w' => w = w') (fun _ => True)) w := by
    unfold isCaughtUp
    refine ends_bind (R := fun _ w' => w = w') (ends_logRead rfl trivial) ?_
    rintro applied _ rfl
    refine ends_bind (R := fun _ w' => w = w') (ends_logRead rfl trivial) ?_
    rintro last _ rfl
    exact wp_pure rfl
  unfold ensureCaughtUp
  refine unstale_bind (unstale_translate gatewayFailure_ne_stale hread) ?_
  rintro caughtUp _ rfl
  split
  · exact wp_pure (Same.refl hI)
  · refine unstale_bind (unstale_translate gatewayFailure_ne_stale (ends_withUnit gw hI 3)) fun result w' hw' => ?_
    split
    · exact wp_pure hw'
    · exact wp_raise nofun

theorem readLogPosition_same (g : String) : wp (readLogPosition g) (Unstale fun _ w' => w = w') w :=
  unstale_translate (E := fun _ => True) gatewayFailure_ne_stale (ends_logRead rfl trivial)

theorem readPolicySystemLeg_same (g : String) (build : Graph → Option PolicySystemLeg) :
    wp (readPolicySystemLeg g build) (Unstale fun _ w' => w = w') w := by
  refine unstale_bind (R := fun _ w' => w = w')
    (unstale_translate (E := fun _ => True) (fun _ => nofun) (ends_graphRead rfl trivial)) ?_
  rintro built _ rfl
  cases built with
  | some leg => exact wp_pure rfl
  | none => exact wp_raise nofun

/-! ## The submission -/

theorem submitFailure_eq_stale {e : Err} (h : submitFailure e = .stale) : ∃ why, e = .rejected why := by
  cases e with
  | rejected why => exact ⟨why, rfl⟩
  | _ => cases h

/-- How a submission ends: with nothing pending the legs are replaced, a refused group has logged nothing. -/
def SubmitEnds (start : String → Graph) (content : List GraphLeg) (policy : String) (w : World) :
    Exit Err Bool → World → Prop
  | .returned pending, w' => pending = false → Replaced gw start content policy w w'
  | .raised (.rejected _), w' => Inv start w' ∧ LogsOnly [] w w'
  | _, _ => True

theorem submitRestore_ends {group : RestoreGroup}
    (h : wp (submitPending gw group) (SubmitEnds gw start content policy w) w) :
    wp (submitRestore gw group) (AttemptEnds gw start content policy w) w := by
  unfold submitRestore
  refine wp_bind (wp_translate (wp_mono h fun x w' hx => ?_))
  cases x with
  | died => trivial
  | returned pending =>
    cases pending with
    | true => exact wp_raise trivial
    | false => exact wp_pure (hx rfl)
  | raised e =>
    change AttemptEnds gw start content policy w (.raised (submitFailure e)) w'
    by_cases hstale : submitFailure e = .stale
    · obtain ⟨why, rfl⟩ := submitFailure_eq_stale hstale
      rw [hstale]
      exact hx
    · exact attemptEnds_of_not_stale gw nofun fun heq => hstale (Exit.raised.inj heq)

/-- A group on `policy_system` alone replaces no graph. -/
theorem submitPending_single (hI : Inv start w) (group : MutationGroup) :
    wp (submitPending gw (.single group)) (SubmitEnds gw start [] group.graph w) w := by
  refine wp_bind (wp_mono (wp_and (ends_submitGroup gw hI group) (submitGroup_refused gw hI group)) fun x w' hx => ?_)
  obtain ⟨hends, hrefused⟩ := hx
  cases x with
  | returned outcome =>
    obtain ⟨hI', honly⟩ := hends
    exact wp_pure (Q := SubmitEnds gw start [] group.graph w) fun _ => ⟨hI', by simp, by simp, honly⟩
  | died => trivial
  | raised e =>
    cases e with
    | rejected why => exact hrefused why rfl
    | _ => trivial

/-- A group over several graphs replaces the graph of each of its legs. -/
theorem submitPending_multi (hI : Inv start w) (group : MultiGraphGroup) (hswap : group.swap = true)
    (hcontent : content ⊆ group.legs) (hgraphs : legGraphs group.legs ⊆ policy :: legGraphs content) :
    wp (submitPending gw (.multi group)) (SubmitEnds gw start content policy w) w := by
  refine wp_bind (wp_mono (wp_and (ends_submitMultiGraphGroup gw hI group)
    (submitMultiGraphGroup_refused gw hI group)) fun x w' hx => ?_)
  obtain ⟨hends, hrefused⟩ := hx
  cases x with
  | returned outcomes =>
    obtain ⟨hatomic, ⟨staged, hcommitted⟩, hcaught, honly⟩ := hends
    refine wp_pure (Q := SubmitEnds gw start content policy w) fun hpending => ⟨hatomic.1, fun leg hleg => ?_, fun leg hleg => ?_, honly.mono hgraphs⟩
    · have hin : leg ∈ staged.map Prod.fst := by
        rw [hcommitted.legs]
        exact hcontent hleg
      obtain ⟨⟨leg', effective⟩, hstaged, rfl⟩ := List.mem_map.1 hin
      exact ⟨effective, hcommitted.effective _ hstaged, hcommitted.atLast gw hstaged⟩
    · refine hcaught hswap (fun o ho hstatus => ?_) leg (hcontent hleg)
      have hnone := List.any_eq_false.1 hpending o ho
      unfold GroupOutcome.pending at hnone
      exact hnone (decide_eq_true hstatus)
  | died => trivial
  | raised e =>
    cases e with
    | rejected why => exact hrefused why rfl
    | _ => trivial

end Attempt

/-! ## One attempt, and the attempts -/

/-- The group of a restore holds the content legs and that of `policy_system`, swapped in together; with no content
leg it is a group on `policy_system` alone. -/
theorem restoreGroup_cases {content : List GraphLeg} {last : GraphLeg} {group : Option RestoreGroup}
    (h : restoreGroup (content ++ [last]) = .ok group) :
    (∃ legs, group = some (.multi legs) ∧ legs.swap = true ∧ legs.legs.Perm (content ++ [last])) ∨
      (content = [] ∧ group = some (.single last.toMutationGroup)) := by
  have hperm := List.perm_insertionSort (fun a b : GraphLeg => a.graph ≤ b.graph) (content ++ [last])
  unfold restoreGroup at h
  dsimp only at h
  split at h
  · split at h
    · cases h
      exact .inl ⟨_, rfl, rfl, hperm⟩
    · cases h
  · rename_i hshort
    rw [hperm.length_eq, List.length_append, List.length_singleton] at hshort
    have hnil : content = [] := List.length_eq_zero_iff.1 (by omega)
    subst hnil
    cases h
    exact .inr ⟨rfl, rfl⟩

theorem attemptRestore_ends (hI : Inv start w) (content : List GraphLeg) (g : String)
    (build : Graph → Option PolicySystemLeg) :
    wp (attemptRestore gw content g build) (AttemptEnds gw start content g w) w := by
  unfold attemptRestore
  refine attempt_bind gw (ensureCaughtUp_same gw hI g) fun _ w₁ hsame => ?_
  refine attempt_bind gw (readLogPosition_same g) ?_
  rintro position _ rfl
  refine attempt_bind gw (readPolicySystemLeg_same g build) ?_
  rintro leg _ rfl
  -- what the attempt logs, it logs in its submission
  have hbefore : LogsOnly [] w w₁ := hsame.2.logsOnly
  have hafter : ∀ x w', AttemptEnds gw start content g w₁ x w' → AttemptEnds gw start content g w x w' := by
    intro x w' hx
    cases x with
    | returned u => exact hx.after gw hbefore
    | died => trivial
    | raised e =>
      by_cases hstale : e = .stale
      · subst hstale
        exact ⟨hx.1, hbefore.trans hx.2⟩
      · refine attemptEnds_of_not_stale gw (fun u heq => ?_) fun heq => hstale (Exit.raised.inj heq)
        cases heq
  refine wp_mono ?_ hafter
  generalize hlast : (⟨⟨g, leg.primitives, [position], true, leg.nonempty⟩, false, fun h => absurd h Bool.false_ne_true⟩ : GraphLeg) = last
  have hgraph : last.graph = g := by rw [← hlast]
  dsimp only
  cases hgroup : restoreGroup (content ++ [last]) with
  | error e =>
    have hinvalid : e = .invalidGroup := by
      unfold restoreGroup at hgroup
      dsimp only at hgroup
      split at hgroup
      · split at hgroup <;> cases hgroup
        rfl
      · split at hgroup <;> cases hgroup
    rw [hinvalid]
    have hraise : Unstale (fun _ _ => False) (.raised .invalidGroup : Exit RestoreError MutationGroup) w₁ := by
      intro heq
      cases heq
    exact attempt_bind (R := fun _ _ => False) gw (wp_raise hraise) fun _ _ h => h.elim
  | ok group =>
    refine attempt_bind (R := fun a w' => a = group ∧ w' = w₁) gw
      (wp_pure (Q := Unstale _) ⟨rfl, rfl⟩) ?_
    rintro _ _ ⟨rfl, rfl⟩
    rcases restoreGroup_cases hgroup with ⟨legs, rfl, hswap, hperm⟩ | ⟨rfl, rfl⟩
    · refine submitRestore_ends gw (submitPending_multi gw hsame.1 legs hswap (fun l hl => ?_) fun name hname => ?_)
      · exact hperm.symm.subset (List.mem_append_left _ hl)
      · obtain ⟨l, hl, rfl⟩ := List.mem_map.1 hname
        rcases List.mem_append.1 (hperm.subset hl) with hl | hl
        · exact List.mem_cons_of_mem _ (List.mem_map_of_mem hl)
        · rw [List.mem_singleton.1 hl, hgraph]
          exact List.mem_cons_self
    · have hsingle := submitPending_single gw hsame.1 last.toMutationGroup
      rw [hgraph] at hsingle
      exact submitRestore_ends gw hsingle

/-- **A restore that returns has replaced the graphs of its legs**, whatever attempts were stale before. -/
theorem commitRestore_replaced (hI : Inv start w) (content : List GraphLeg) (g : String)
    (build : Graph → Option PolicySystemLeg) (attempts : ℕ) :
    wp (commitRestore gw content g build attempts)
      (fun x w' => ∀ u, x = .returned u → Replaced gw start content g w w') w := by
  induction attempts generalizing w with
  | zero => exact wp_raise nofun
  | succ attempts ih =>
    refine wp_handle (wp_mono (attemptRestore_ends gw hI content g build) fun x w' hx => ?_)
    cases x with
    | returned u => exact fun _ _ => hx
    | died => exact nofun
    | raised e =>
      cases e with
      | stale =>
        refine wp_mono (ih hx.1) fun x w'' hx' u hu => ?_
        exact (hx' u hu).after gw hx.2
      | _ => exact wp_raise nofun

end Run

/-! ## The content legs -/

section Legs

variable {Blob : Type} {rt : RestoreRuntime Blob}

/-- A graph has a content leg exactly where its primitives are some. -/
theorem contentLeg_cases {graph : String} {serialized : SerializedGraph} {legs : List GraphLeg}
    (h : contentLeg rt graph serialized = .ok legs) : ∃ leg, legPrimitives rt.embeddings serialized = .ok leg ∧
      ((leg = [] ∧ legs = []) ∨
        ∃ l : GraphLeg, legs = [l] ∧ leg ≠ [] ∧ l.graph = graph ∧ l.primitives = leg ∧ l.replace = true) := by
  unfold contentLeg at h
  split at h
  · cases h
  · rename_i leg hleg
    split at h
    · rename_i hnil
      cases h
      exact ⟨leg, hleg, .inl ⟨hnil, rfl⟩⟩
    · rename_i hne
      cases h
      exact ⟨leg, hleg, .inr ⟨_, rfl, hne, rfl, rfl, rfl⟩⟩

/-- `"{short}_native"` of a manifest. -/
def nativeGraph (rt : RestoreRuntime Blob) (artifact : RestoreArtifact Blob) : String :=
  rt.lower artifact.manifest.shortName ++ "_native"

/-- `"{short}_baseline"` of a manifest. -/
def baselineGraph (rt : RestoreRuntime Blob) (artifact : RestoreArtifact Blob) : String :=
  rt.lower artifact.manifest.shortName ++ "_baseline"

theorem nativeGraph_ne_baselineGraph (rt : RestoreRuntime Blob) (artifact : RestoreArtifact Blob) :
    nativeGraph rt artifact ≠ baselineGraph rt artifact := by
  intro h
  have hlist := congrArg String.toList h
  unfold nativeGraph baselineGraph at hlist
  rw [String.toList_append, String.toList_append] at hlist
  exact absurd (List.append_cancel_left hlist) (by decide)

/-- What `restore_instrument` prepares of an artifact it accepts. -/
theorem prepare_ok {owner : Option (String × String)} {artifact : RestoreArtifact Blob} {serialized : SerializedGraph}
    {content : List GraphLeg} (h : prepare rt owner artifact = .ok (serialized, content)) :
    ∃ native baseline nativeLegs baselineLegs, parseSerializedGraphJson rt artifact.nativeBlob = some native ∧
      parseSerializedGraphJson rt artifact.baselineBlob = some baseline ∧
      contentLeg rt (nativeGraph rt artifact) native = .ok nativeLegs ∧
      contentLeg rt (baselineGraph rt artifact) baseline = .ok baselineLegs ∧ content = nativeLegs ++ baselineLegs := by
  have hbind : ∀ {α β : Type} {x : Except RestoreError α} {f : α → Except RestoreError β} {b : β},
      (x >>= f) = .ok b → ∃ a, x = .ok a ∧ f a = .ok b := by
    intro α β x f b hx
    cases x with
    | error e => cases hx
    | ok a => exact ⟨a, rfl, hx⟩
  have hparse : ∀ {g : Option SerializedGraph} {a : SerializedGraph}, orMalformed g = .ok a → g = some a := by
    intro g a hg
    cases g with
    | none => cases hg
    | some g => cases hg; rfl
  unfold prepare at h
  obtain ⟨-, -, h⟩ := hbind h
  obtain ⟨-, -, h⟩ := hbind h
  obtain ⟨native, hnative, h⟩ := hbind h
  obtain ⟨baseline, hbaseline, h⟩ := hbind h
  obtain ⟨-, -, h⟩ := hbind h
  obtain ⟨-, -, h⟩ := hbind h
  obtain ⟨legs, hlegs, h⟩ := hbind h
  cases h
  obtain ⟨nativeLegs, hnativeLegs, hlegs⟩ := hbind hlegs
  obtain ⟨baselineLegs, hbaselineLegs, hlegs⟩ := hbind hlegs
  cases hlegs
  exact ⟨native, serialized, nativeLegs, baselineLegs, hparse hnative, hparse hbaseline, hnativeLegs, hbaselineLegs, rfl⟩

/-! ## What the graphs hold -/

/-- What a graph holds: its log over what it held at first. -/
def held (start : String → Graph) (w : World) (g : String) : Graph := (w.view g).atLast (start g)

/-- **When a leg replaces a graph**: a leg without content replaces an empty graph only, a leg with content one in
which no upserted edge keeps a parallel one. -/
structure Replaceable (rt : RestoreRuntime Blob) (scan : ScanOrder) (g : Graph) (graph : SerializedGraph) : Prop where
  empty : graph.nodes = [] → g.nodes = ∅
  lone : graph.nodes ≠ [] → ∀ leg, legPrimitives rt.embeddings graph = .ok leg → NoParallelLeft scan g leg

/-- An empty leg is held by the empty graph. -/
theorem holdsArtifact_of_empty {graph : SerializedGraph} {g : Graph} (h : graph.nodes = []) :
    HoldsArtifact rt.embeddings g graph ↔ g.nodes = ∅ := by
  have hedges : graph.anchoredEdges = [] := by
    unfold SerializedGraph.anchoredEdges
    rw [h]
    simp
  constructor
  · intro hholds
    refine ExtTreeMap.ext_getElem? fun n => ?_
    rw [hholds.nodes, h, ExtTreeMap.getElem?_empty]
    rfl
  · intro hnodes
    have hnone : ∀ k, g.edgesAt k = 0 := fun k => edgesAt_eq_zero_of_source (by rw [hnodes]; simp)
    refine ⟨fun n => ?_, fun e => ?_, fun k _ => hnone k⟩
    · rw [hnodes, h, ExtTreeMap.getElem?_empty]
      rfl
    · rw [hnone, hedges]
      rfl

variable (gw : GraphWriteGateway) {start : String → Graph} {w w' : World} {content legs : List GraphLeg}
  {policy name : String} {graph : SerializedGraph}

/-- A graph that is no leg's holds what it held. -/
theorem Replaced.held_of_notMem (h : Replaced gw start content policy w w') (hnot : name ∉ policy :: legGraphs content) :
    held start w' name = held start w name := h.others.atLast hnot

/-- **What a replacing leg makes of its graph**: the artifact's content, exactly where it can be replaced. -/
theorem Replaced.holds_iff (h : Replaced gw start content policy w w') (hlegs : contentLeg rt name graph = .ok legs)
    (hsub : legs ⊆ content) (hnot : legs = [] → name ∉ policy :: legGraphs content) :
    HoldsArtifact rt.embeddings (held start w' name) graph ↔ Replaceable rt gw.scan (held start w name) graph := by
  obtain ⟨leg, hleg, hcase⟩ := contentLeg_cases hlegs
  have hnil : leg = [] ↔ graph.nodes = [] := legPrimitives_eq_nil hleg
  rcases hcase with ⟨rfl, rfl⟩ | ⟨l, rfl, hne, rfl, rfl, hreplace⟩
  · have hempty : graph.nodes = [] := hnil.1 rfl
    rw [h.held_of_notMem gw (hnot rfl), holdsArtifact_of_empty hempty]
    exact ⟨fun hnodes => ⟨fun _ => hnodes, fun hne => absurd hempty hne⟩, fun hrep => hrep.empty hempty⟩
  · have hnodes : graph.nodes ≠ [] := fun heq => hne (hnil.2 heq)
    obtain ⟨effective, hselected, hafter⟩ := h.legs l (hsub (List.mem_singleton_self l))
    rw [hreplace] at hselected
    have hexact := holdsExactly_iff (legPrimitives_upsertOnly hleg) hselected
    unfold held
    rw [hafter, ← holdsExactly_iff_artifact hleg, hexact]
    refine ⟨fun hlone => ⟨fun heq => absurd heq hnodes, fun _ leg' hleg' => ?_⟩, fun hrep => hrep.lone hnodes _ hleg⟩
    rw [hleg] at hleg'
    cases hleg'
    exact hlone

/-- A graph whose leg has content, and one that was applied before, shows what it holds. -/
theorem Replaced.shows (h : Replaced gw start content policy w w') (hlegs : contentLeg rt name graph = .ok legs)
    (hsub : legs ⊆ content) (hnot : legs = [] → name ∉ policy :: legGraphs content)
    (hcaught : graph.nodes = [] → (w.view name).CaughtUp) : w'.content name = held start w' name := by
  obtain ⟨flipped, hok⟩ := h.inv
  obtain ⟨leg, hleg, hcase⟩ := contentLeg_cases hlegs
  refine (hok.graphs name).content_eq ?_
  rcases hcase with ⟨rfl, rfl⟩ | ⟨l, rfl, -, rfl, rfl, -⟩
  · exact h.others.caughtUp (hnot rfl) (hok.graphs name) (hcaught ((legPrimitives_eq_nil hleg).1 rfl))
  · exact h.caughtUp l (hsub (List.mem_singleton_self l))

/-- **When a restore replaces the instrument's graphs.** From every world a run reaches, and however the calls of a
restore end: where it succeeds, the native and the baseline graph hold exactly the artifact's legs if and only if a
leg without nodes met an empty graph and no upserted edge of the other kept a parallel one beside it. And a graph
whose leg has nodes, or whose log was applied before, shows what it holds. -/
theorem restore_replaces_iff (rt : RestoreRuntime Blob) (live : String → Option StoredGraph)
    (calls : List (GatewayCall × List Fate)) (singleTenantGraphName : String) (owner : Option (String × String))
    (artifact : RestoreArtifact Blob) (fates : List Fate) (native baseline : SerializedGraph)
    (hnative : parseSerializedGraphJson rt artifact.nativeBlob = some native)
    (hbaseline : parseSerializedGraphJson rt artifact.baselineBlob = some baseline)
    (hname : singleTenantGraphName ≠ nativeGraph rt artifact ∧ singleTenantGraphName ≠ baselineGraph rt artifact) :
    let w := runCalls gw (World.initial live) calls
    let r := restoreInstrument gw rt singleTenantGraphName owner artifact w fates
    let holds := fun (w : World) (g : String) => held (startOf live) w g
    r.1 = .returned () →
      (HoldsArtifact rt.embeddings (holds r.2.1 (nativeGraph rt artifact)) native ∧
          HoldsArtifact rt.embeddings (holds r.2.1 (baselineGraph rt artifact)) baseline ↔
        Replaceable rt gw.scan (holds w (nativeGraph rt artifact)) native ∧
          Replaceable rt gw.scan (holds w (baselineGraph rt artifact)) baseline) ∧
      ((native.nodes = [] → (w.view (nativeGraph rt artifact)).CaughtUp) →
        r.2.1.content (nativeGraph rt artifact) = holds r.2.1 (nativeGraph rt artifact)) ∧
      ((baseline.nodes = [] → (w.view (baselineGraph rt artifact)).CaughtUp) →
        r.2.1.content (baselineGraph rt artifact) = holds r.2.1 (baselineGraph rt artifact)) := by
  intro w r holds hreturned
  have hI : Inv (startOf live) w := reachable_inv gw live calls
  cases hprepare : prepare rt owner artifact with
  | error e =>
    have hraised : r.1 = .raised e := by
      change (restoreInstrument gw rt singleTenantGraphName owner artifact w fates).1 = _
      unfold restoreInstrument
      rw [hprepare]
      rfl
    rw [hraised] at hreturned
    cases hreturned
  | ok prepared =>
    obtain ⟨serialized, content⟩ := prepared
    obtain ⟨native', baseline', nativeLegs, baselineLegs, hn, hb, hnl, hbl, rfl⟩ := prepare_ok hprepare
    rw [hnative] at hn
    rw [hbaseline] at hb
    cases hn
    cases hb
    have hrun : r = commitRestore gw (nativeLegs ++ baselineLegs) singleTenantGraphName
        (rt.buildPolicySystemLeg serialized artifact.manifest.instrumentId owner) maxPolicySystemAttempts w fates := by
      change restoreInstrument gw rt singleTenantGraphName owner artifact w fates = _
      unfold restoreInstrument
      rw [hprepare]
      rfl
    have hreplaced : Replaced gw (startOf live) (nativeLegs ++ baselineLegs) singleTenantGraphName w r.2.1 := by
      have hcommit := commitRestore_replaced gw hI (nativeLegs ++ baselineLegs) singleTenantGraphName
        (rt.buildPolicySystemLeg serialized artifact.manifest.instrumentId owner) maxPolicySystemAttempts fates
      rw [← hrun] at hcommit
      exact hcommit () hreturned
    -- a leg names the graph it was built for
    have hnames : ∀ {name : String} {graph : SerializedGraph} {legs : List GraphLeg},
        contentLeg rt name graph = .ok legs → ∀ l ∈ legs, l.graph = name := by
      intro name graph legs hlegs l hl
      obtain ⟨-, -, ⟨-, rfl⟩ | ⟨l', rfl, -, hg, -⟩⟩ := contentLeg_cases hlegs
      · simp at hl
      · rw [List.mem_singleton.1 hl, hg]
    have hne := nativeGraph_ne_baselineGraph rt artifact
    have hnot : ∀ {name other : String} (legs others : List GraphLeg), singleTenantGraphName ≠ name → name ≠ other →
        (∀ l ∈ others, l.graph = other) → legs = [] → name ∉ singleTenantGraphName :: legGraphs (legs ++ others) := by
      rintro name other _ others htenant hother hothers rfl hin
      rcases List.mem_cons.1 hin with heq | hin
      · exact htenant heq.symm
      · obtain ⟨l, hl, heq⟩ := List.mem_map.1 hin
        rw [hothers l hl] at heq
        exact hother heq.symm
    have hnotNative := hnot nativeLegs baselineLegs hname.1 hne (hnames hbl)
    have hnotBaseline : baselineLegs = [] →
        baselineGraph rt artifact ∉ singleTenantGraphName :: legGraphs (nativeLegs ++ baselineLegs) := by
      intro hnil hin
      refine hnot baselineLegs nativeLegs hname.2 hne.symm (hnames hnl) hnil ?_
      rw [hnil, List.append_nil] at hin
      rw [hnil, List.nil_append]
      exact hin
    have hsubNative : nativeLegs ⊆ nativeLegs ++ baselineLegs := List.subset_append_left _ _
    have hsubBaseline : baselineLegs ⊆ nativeLegs ++ baselineLegs := List.subset_append_right _ _
    exact ⟨and_congr (hreplaced.holds_iff gw hnl hsubNative hnotNative)
        (hreplaced.holds_iff gw hbl hsubBaseline hnotBaseline),
      hreplaced.shows gw hnl hsubNative hnotNative, hreplaced.shows gw hbl hsubBaseline hnotBaseline⟩

end Legs

/-! ## An artifact without a baseline -/

/-- A native leg of one article. -/
def articleBlob : String :=
  "\x7b\"nodes\": [\x7b\"label\": \"ARTICLE\", \"properties\": \x7b\"id\": \"32024R2847-art-1\"\x7d\x7d], \"edges\": []\x7d"

/-- A baseline leg without nodes. -/
def emptyBlob : String := "\x7b\"nodes\": [], \"edges\": []\x7d"

def articleArtifact : RestoreArtifact String :=
  ⟨⟨"CRA-1.0", "cra", "2",
      "b397170b0e1373fa3e71dcfc9cf7e31f542fceaef28a54c78b01bc40f05acffc",
      "181deaf850f83c0d14fe287b6e7cc3c9d74be7b94c35a65ad0c3f3c9237418bd"⟩,
    articleBlob, emptyBlob⟩

/-- The surroundings of a restore of `articleArtifact`. -/
def articleRuntime : RestoreRuntime String where
  checksumBytes blob := if blob = articleBlob then articleArtifact.manifest.nativeSha256
    else articleArtifact.manifest.baselineSha256
  loads blob :=
    if blob = articleBlob then
      some (.dict [("nodes", .list [.dict [("label", .str "ARTICLE"),
        ("properties", .dict [("id", .str "32024R2847-art-1")])]]), ("edges", .list [])])
    else some (.dict [("nodes", .list []), ("edges", .list [])])
  lower s := String.ofList (s.toList.map Char.toLower)
  embeddings := ⟨fun _ => none⟩
  buildPolicySystemLeg _ id _ _ := some ⟨[.upsertNode ⟨"RegulatoryInstrument", id⟩ ∅ none], by simp⟩

/-- A scan that answers an empty graph with no rows. -/
noncomputable def emptyFirst : ScanOrder where
  order m := if m.card = 0 then [] else m.toList
  perm m := by
    split
    · rename_i h
      rw [Multiset.card_eq_zero.1 h]
      rfl
    · exact Multiset.coe_toList m

noncomputable def plainGateway : GraphWriteGateway := 
  ⟨⟨100, 2, by decide, by decide⟩, ⟨["ARTICLE", "RegulatoryInstrument", "Capability"], []⟩, emptyFirst, fun _ => ""⟩

/-- One Capability in the baseline graph. -/
def capabilityGraph : Graph where
  nodes := (∅ : ExtTreeMap NodeRef NodeContent).insert ⟨"Capability", "cap"⟩ default
  edges := 0
  closed := by simp

def craLive (g : String) : Option StoredGraph := if g = "cra_baseline" then some ⟨capabilityGraph, none⟩ else none

/-- The restore returns, and the Capability is still there. -/
theorem article_run :
    let r := restoreInstrument plainGateway articleRuntime "policy_system" none articleArtifact
      (runCalls plainGateway (World.initial craLive) []) (List.replicate 200 .done)
    r.1 = .returned () ∧ (r.2.1.content "cra_baseline").nodes.contains ⟨"Capability", "cap"⟩ = true := by
  decide +kernel

def articleNative : SerializedGraph := ⟨[⟨"ARTICLE", [("id", .str "32024R2847-art-1")]⟩], []⟩

theorem article_parsed : parseSerializedGraphJson articleRuntime articleArtifact.nativeBlob = some articleNative ∧
    parseSerializedGraphJson articleRuntime articleArtifact.baselineBlob = some ⟨[], []⟩ := ⟨rfl, rfl⟩

/-- **An empty leg replaces nothing**: a restore of an artifact without a baseline succeeds, and the baseline graph
still holds what it held. -/
theorem empty_leg_keeps_graph :
    ¬ ∀ (gw : GraphWriteGateway) (rt : RestoreRuntime String) (live : String → Option StoredGraph)
      (calls : List (GatewayCall × List Fate)) (owner : Option (String × String)) (artifact : RestoreArtifact String)
      (fates : List Fate) (native baseline : SerializedGraph),
      parseSerializedGraphJson rt artifact.nativeBlob = some native →
      parseSerializedGraphJson rt artifact.baselineBlob = some baseline →
      let r := restoreInstrument gw rt "policy_system" owner artifact (runCalls gw (World.initial live) calls) fates
      r.1 = .returned () → HoldsArtifact rt.embeddings (r.2.1.content (nativeGraph rt artifact)) native ∧
        HoldsArtifact rt.embeddings (r.2.1.content (baselineGraph rt artifact)) baseline := by
  intro h
  have hholds := (h plainGateway articleRuntime craLive [] none articleArtifact (List.replicate 200 .done)
    articleNative ⟨[], []⟩ article_parsed.1 article_parsed.2 article_run.1).2
  have hname : baselineGraph articleRuntime articleArtifact = "cra_baseline" := by decide
  have hnone := hholds.nodes ⟨"Capability", "cap"⟩
  rw [hname] at hnone
  have hsome := article_run.2
  rw [ExtTreeMap.contains_eq_isSome_getElem?, hnone] at hsome
  cases hsome

/-- The graphs of that restore. -/
theorem restore_replaces_iff_article :
    let w := runCalls plainGateway (World.initial craLive) []
    let r := restoreInstrument plainGateway articleRuntime "policy_system" none articleArtifact w
      (List.replicate 200 .done)
    let holds := fun (w : World) (g : String) => held (startOf craLive) w g
    HoldsArtifact articleRuntime.embeddings (holds r.2.1 (nativeGraph articleRuntime articleArtifact)) articleNative ∧
        HoldsArtifact articleRuntime.embeddings (holds r.2.1 (baselineGraph articleRuntime articleArtifact)) ⟨[], []⟩ ↔
      Replaceable articleRuntime plainGateway.scan
          (holds w (nativeGraph articleRuntime articleArtifact)) articleNative ∧
        Replaceable articleRuntime plainGateway.scan
          (holds w (baselineGraph articleRuntime articleArtifact)) ⟨[], []⟩ :=
  (restore_replaces_iff plainGateway articleRuntime craLive [] "policy_system" none articleArtifact
    (List.replicate 200 .done) articleNative ⟨[], []⟩ article_parsed.1 article_parsed.2 ⟨by decide, by decide⟩
    article_run.1).1

end PolicySystem.Restore
