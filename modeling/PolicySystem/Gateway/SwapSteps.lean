import PolicySystem.Gateway.ApplySteps

/-!
# Swapping keeps the invariant

* `ends_stageLeg`: a leg's staged copy is built, or part of it is;
* `ends_swapTries`: the legs of a set are renamed together, or none of them is;
* `ends_swapUnit`: a set is swapped and its markers follow.
-/

namespace PolicySystem

open Faults Proc PropertyGraph GraphWrite

/-! ## The entries of a leg -/

def stampOf : Primitive → Option EdgeBase
  | .stampEdgeIdentity e => some e
  | _ => none

theorem map_stampOf {ps : List Primitive} (h : ∀ p ∈ ps, isStamp p = true) :
    (ps.filterMap stampOf).map .stampEdgeIdentity = ps := by
  induction ps with
  | nil => rfl
  | cons p ps ih =>
    have hp := h p (by simp)
    cases p with
    | stampEdgeIdentity e =>
      show Primitive.stampEdgeIdentity e :: (ps.filterMap stampOf).map _ = _
      rw [ih fun q hq => h q (List.mem_cons_of_mem _ hq)]
    | _ => simp [isStamp] at hp

theorem filterMap_stampOf (stamps : List EdgeBase) {rest : List Primitive} (h : ∀ p ∈ rest, isStamp p = false) :
    (stamps.map Primitive.stampEdgeIdentity ++ rest).filterMap stampOf = stamps := by
  have hnone : rest.filterMap stampOf = [] := by
    rw [List.filterMap_eq_nil_iff]
    intro p hp
    have := h p hp
    cases p <;> first | rfl | simp [isStamp] at this
  have hall : (stamps.map Primitive.stampEdgeIdentity).filterMap stampOf = stamps := by
    rw [List.filterMap_map]
    exact List.filterMap_some
  rw [List.filterMap_append, hnone, hall, List.append_nil]

/-- Stamps first, and none after them, in one way only. -/
theorem stamps_unique {stamps stamps' : List EdgeBase} {rest rest' : List Primitive}
    (h : stamps.map Primitive.stampEdgeIdentity ++ rest = stamps'.map .stampEdgeIdentity ++ rest')
    (hrest : ∀ p ∈ rest, isStamp p = false) (hrest' : ∀ p ∈ rest', isStamp p = false) :
    stamps = stamps' ∧ rest = rest' := by
  have hsame : stamps = stamps' := by
    rw [← filterMap_stampOf stamps hrest, h, filterMap_stampOf stamps' hrest']
  subst hsame
  exact ⟨rfl, List.append_cancel_left h⟩

/-- A run of a pass is of stamps, or of the rest once all stamps are done. -/
theorem run_part {stamps : List EdgeBase} {rest before run after : List Primitive}
    (hlog : before ++ (run ++ after) = stamps.map .stampEdgeIdentity ++ rest) (hrun : IsRun run)
    (hrest : ∀ p ∈ rest, isStamp p = false) :
    ((∀ p ∈ run, isStamp p = true) ∧ ∀ p ∈ run, p ∈ stamps.map Primitive.stampEdgeIdentity) ∨
      (∀ p ∈ run, p ∈ rest) ∧ ∀ e ∈ stamps, .stampEdgeIdentity e ∈ before := by
  rcases List.append_eq_append_iff.1 hlog with ⟨tail, hstamps, htail⟩ | ⟨head, hbefore, hrest'⟩
  · cases tail with
    | nil =>
      rw [List.append_nil] at hstamps
      rw [List.nil_append] at htail
      right
      refine ⟨fun p hp => by rw [← htail]; exact List.mem_append_left _ hp, fun e he => ?_⟩
      rw [← hstamps]
      exact List.mem_map_of_mem he
    | cons p tail =>
      -- the run begins with a stamp, so it is of stamps
      have hp : p ∈ run := by
        cases run with
        | nil => exact absurd rfl hrun.nonempty
        | cons q run => rw [List.cons_append, List.cons_append] at htail; rw [(List.cons_eq_cons.1 htail).1]; simp
      have hstamp : isStamp p = true := by
        have : p ∈ stamps.map Primitive.stampEdgeIdentity := by rw [hstamps]; simp
        obtain ⟨e, -, rfl⟩ := List.mem_map.1 this
        rfl
      have hall : ∀ q ∈ run, isStamp q = true := by
        intro q hq
        have hkey := hrun.sameKey p hp q hq
        cases p <;> simp [isStamp] at hstamp
        cases q <;> simp [runKey] at hkey
        rfl
      left
      refine ⟨hall, fun q hq => ?_⟩
      have hin : q ∈ (p :: tail) ++ rest := by rw [← htail]; exact List.mem_append_left _ hq
      rcases List.mem_append.1 hin with hin | hin
      · rw [hstamps]; exact List.mem_append_right _ hin
      · have hq' := hall q hq
        rw [hrest q hin] at hq'
        cases hq'
  · right
    refine ⟨fun p hp => ?_, fun e he => ?_⟩
    · rw [hrest']; exact List.mem_append_right _ (List.mem_append_left _ hp)
    · rw [hbefore]; exact List.mem_append_left _ (List.mem_map_of_mem he)

section Copies

variable {start : String → Graph} {flipped : ℕ → Prop} {w w' : World} {g : String} {s : ℕ}

/-- The staged copy of a graph stands somewhere in a pass. -/
def Staging (start : String → Graph) (g : String) (s : ℕ) (w w' : World) : Prop :=
  ∃ copy, w' = w.setStaged g s copy ∧ ∀ c, copy = some c → PartOf (start g) (w.view g) c.content

theorem setStaged_self (w : World) (g : String) (s : ℕ) : w.setStaged g s (w.staged g s) = w := by
  unfold World.setStaged
  rw [Function.update_eq_self, Function.update_eq_self]

theorem setStaged_setStaged (w : World) (g : String) (s : ℕ) (a b : Option StoredGraph) :
    (w.setStaged g s a).setStaged g s b = w.setStaged g s b := by
  unfold World.setStaged
  simp

theorem setStaged_staged (w : World) (g : String) (s : ℕ) (a : Option StoredGraph) :
    (w.setStaged g s a).staged g s = a := by
  unfold World.setStaged
  simp

/-- A leg of the set that waits on the graph. -/
def Waits (w : World) (s : ℕ) (g : String) : Prop :=
  ∃ r ∈ (w.view g).rows, r.swapSet = some s ∧ w.applied g < r.lastPosition

theorem Staging.refl (h : GatewayOk start flipped w) (hw : Waits w s g) : Staging start g s w w := by
  refine ⟨w.staged g s, (setStaged_self w g s).symm, fun c hc stamps rest hlog hredo => ?_⟩
  obtain ⟨r, hr, hrs, hlt⟩ := hw
  obtain ⟨stamps', rest', hlog', hredo', hparts⟩ := ((h.graphs g).swap r hr s hrs hlt).redo
  obtain ⟨rfl, rfl⟩ := stamps_unique (hlog.symm.trans hlog') hredo.stampFree hredo'.stampFree
  exact hparts c hc

theorem Staging.ok (h : GatewayOk start flipped w) (hw : Waits w s g) (hs : Staging start g s w w') :
    GatewayOk start flipped w' := by
  obtain ⟨copy, rfl, hpart⟩ := hs
  obtain ⟨r, hr, hrs, -⟩ := hw
  exact h.stage fun c hc => ⟨⟨r, hr, hrs⟩, hpart c hc⟩

theorem Staging.swaps (hs : Staging start g s w w') : SwapsOnly w w' := by
  obtain ⟨copy, rfl, -⟩ := hs
  exact setStaged_swaps w g s copy

/-- The live graph of a waiting leg is where a pass may start. -/
theorem partOf_live (h : GatewayOk start flipped w) (hw : Waits w s g) :
    PartOf (start g) (w.view g) (w.content g) := by
  intro stamps rest hlog _
  obtain ⟨r, hr, hrs, hlt⟩ := hw
  have hswap := (h.graphs g).swap r hr s hrs hlt
  by_cases hf : flipped s
  · have hcontent := hswap.after hf
    rw [view_content] at hcontent
    rw [hcontent]
    have : (w.view g).atLast (start g) = applyAll ((w.view g).atMarker (start g)) (stamps.map .stampEdgeIdentity ++ rest) := by
      rw [← hlog]
      unfold GraphView.atLast GraphView.atMarker
      rw [← applyAll_append, List.take_append_drop]
    rw [this]
    exact partway_post
  · have hcontent := hswap.before hf
    rw [view_content] at hcontent
    rw [hcontent]
    exact partway_refl

theorem InPass.congr {g : Graph} {stamps : List EdgeBase} {rest done done' : List Primitive} {c : Graph}
    (h : InPass g stamps rest done c) (hd : ∀ p ∈ done', p ∈ done) : InPass g stamps rest done' c := by
  rcases h with ⟨some, h1, h2, h3⟩ | h
  · exact .inl ⟨some, h1, fun e he => h2 e (hd _ he), h3⟩
  · exact .inr h

variable (gw : GraphWriteGateway)

/-- One pass over a staged copy: it builds the copy to the end of the log, or part of the way. -/
theorem ends_applyEntries_staged {stamps : List EdgeBase} {rest : List Primitive}
    (hlog : (w.view g).logged.drop (w.applied g) = stamps.map .stampEdgeIdentity ++ rest)
    (hredo : Redoable ((w.view g).atMarker (start g)) stamps rest) {copy : StoredGraph}
    (hstaged : w.staged g s = some copy) (hpart : Partway ((w.view g).atMarker (start g)) stamps rest copy.content) :
    wp (applyEntries gw (queryStaged g s) ((w.view g).pending.map rowOf) fun _ => pure ())
      (Ends (fun _ w' => ∃ c, w' = w.setStaged g s (some c) ∧ c.content = (w.view g).atLast (start g))
        (fun w' => ∃ c, w' = w.setStaged g s (some c) ∧
          Partway ((w.view g).atMarker (start g)) stamps rest c.content)) w := by
  have hb := gw.settings.batchSize_pos
  have hself : w = w.setStaged g s (some copy) := by rw [← hstaged, setStaged_self]
  let At := fun (done : List Primitive) (content : Graph) (w' : World) =>
    ∃ c, w' = w.setStaged g s (some c) ∧ c.content = content ∧
      InPass ((w.view g).atMarker (start g)) stamps rest done c.content
  unfold applyEntries
  rw [decodeEntries_rowOf]
  refine ends_bind (R := fun decoded w' => decoded = (w.view g).pending ∧ w = w') (wp_pure ⟨rfl, rfl⟩) ?_
  rintro _ _ ⟨rfl, rfl⟩
  refine ends_bind (R := fun _ w' => w = w') ?_ ?_
  · unfold ensureIndexes
    split
    · exact wp_pure rfl
    · exact ends_graphRead rfl ⟨copy, hself, hpart⟩
  rintro _ _ rfl
  refine ends_mono (ends_forM (fun (done : List (List Positioned)) w' =>
      At (done.flatten.map Prod.snd) (applyAll copy.content (done.flatten.map Prod.snd)) w')
    (fun done run todo hsplit w' hw' => ?_) ⟨copy, hself, rfl, hpart.inPass⟩) (fun _ w' hw' => ?_) fun _ h => h
  · -- one run: of stamps, or of the rest
    have hrun : IsRun (run.map Prod.snd) := mem_runs (by rw [hsplit]; simp)
    have hflat : (w.view g).pending = done.flatten ++ (run ++ todo.flatten) := by
      rw [← runs_flatten (w.view g).pending, hsplit, List.flatten_append, List.flatten_cons]
    have hpos : done.flatten.map Prod.snd ++ (run.map Prod.snd ++ todo.flatten.map Prod.snd) =
        stamps.map .stampEdgeIdentity ++ rest := by
      rw [← hlog, ← List.map_append, ← List.map_append, ← hflat]
      exact map_snd_numbered _ _
    have hkind := run_part hpos hrun hredo.stampFree
    let content := fun (chunks : List (List Positioned)) =>
      chunks.foldl (fun g chunk => applyChunk g (chunk.map Prod.snd))
        (applyAll copy.content (done.flatten.map Prod.snd))
    refine ends_bind (R := fun _ w' => At ((done ++ [run]).flatten.map Prod.snd)
      (content (chunksOf run gw.settings.batchSize)) w') ?_ ?_
    · refine ends_mono (ends_forM (fun (chunks : List (List Positioned)) w' =>
          chunks <+: chunksOf run gw.settings.batchSize ∧
            At (done.flatten.map Prod.snd ++ chunks.flatten.map Prod.snd) (content chunks) w')
        (fun chunks chunk more hchunks w' hw' => ?_) ⟨List.nil_prefix, ?_⟩) (fun _ w' hw' => ?_) fun _ h => h
      · obtain ⟨-, c, rfl, hc, hin⟩ := hw'
        have hpre : chunks ++ [chunk] <+: chunksOf run gw.settings.batchSize := ⟨more, by rw [hchunks]; simp⟩
        have hmem : chunk ∈ chunksOf run gw.settings.batchSize := hpre.subset (by simp)
        have hnext : content (chunks ++ [chunk]) = applyChunk (content chunks) (chunk.map Prod.snd) := by
          simp only [content, List.foldl_append, List.foldl_cons, List.foldl_nil]
        have hdone : done.flatten.map Prod.snd ++ (chunks ++ [chunk]).flatten.map Prod.snd =
            (done.flatten.map Prod.snd ++ chunks.flatten.map Prod.snd) ++ chunk.map Prod.snd := by simp
        have hsub : ∀ p ∈ chunk.map Prod.snd, p ∈ run.map Prod.snd := by
          intro p hp
          obtain ⟨x, hx, rfl⟩ := List.mem_map.1 hp
          exact List.mem_map_of_mem ((chunksOf_flatten_perm hb run).mem_iff.1 (List.mem_flatten.2 ⟨chunk, hmem, hx⟩))
        have hquery : InPass ((w.view g).atMarker (start g)) stamps rest
            (done.flatten.map Prod.snd ++ (chunks ++ [chunk]).flatten.map Prod.snd)
            (applyChunk c.content (chunk.map Prod.snd)) := by
          rw [hdone, applyChunk_eq hb hrun hmem]
          refine hin.query hredo ?_
          rcases hkind with ⟨hstamp, hin'⟩ | ⟨hrest, hall⟩
          · refine .inl ⟨(chunk.map Prod.snd).filterMap stampOf, fun e he => ?_, ?_⟩
            · obtain ⟨p, hp, hpe⟩ := List.mem_filterMap.1 he
              obtain ⟨f, hf, rfl⟩ := List.mem_map.1 (hin' p (hsub p hp))
              cases hpe
              exact hf
            · rw [map_stampOf fun p hp => hstamp p (hsub p hp)]
          · exact .inr ⟨fun p hp => hrest p (hsub p hp), fun e he => List.mem_append_left _ (hall e he)⟩
        split
        · rename_i hnil
          refine wp_pure ⟨hpre, c, rfl, ?_, ?_⟩
          · rw [hnext, hnil]; exact hc
          · rw [hnil] at hquery; exact hquery
        · rename_i first others hchunk
          refine ends_graphWrite (fun w'' hw'' => ?_) ⟨c, rfl, hin.partway⟩
          cases hw''
          rw [setStaged_setStaged, setStaged_staged, Option.getD_some]
          have hcontent : (c.query (chunkQuery first (first :: others))).content =
              applyChunk c.content (chunk.map Prod.snd) := by rw [hchunk]; rfl
          refine ⟨⟨hpre, _, rfl, ?_, ?_⟩, _, rfl, ?_⟩
          · rw [hcontent, hc, hnext]
          · rw [hcontent]; exact hquery
          · rw [hcontent]; exact hquery.partway
      · rw [List.flatten_nil, List.map_nil, List.append_nil]
        exact hw'
      · obtain ⟨-, c, rfl, hc, hin⟩ := hw'
        refine ⟨c, rfl, hc, hin.congr fun p hp => ?_⟩
        rw [List.flatten_append, List.map_append, List.mem_append] at hp
        rcases hp with hp | hp
        · exact List.mem_append_left _ hp
        · refine List.mem_append_right _ ?_
          obtain ⟨x, hx, rfl⟩ := List.mem_map.1 hp
          rw [List.flatten_singleton] at hx
          exact List.mem_map_of_mem ((chunksOf_flatten_perm hb run).mem_iff.2 hx)
    · rintro - w' ⟨c, rfl, hc, hin⟩
      have hnext : content (chunksOf run gw.settings.batchSize) =
          applyAll copy.content ((done ++ [run]).flatten.map Prod.snd) := by
        rw [List.flatten_append, List.map_append, applyAll_append, List.flatten_singleton]
        exact applyRun_eq hb hrun _
      rw [hnext] at hc
      split
      · exact wp_pure ⟨c, rfl, hc, hin⟩
      · exact wp_pure ⟨c, rfl, hc, hin⟩
  · obtain ⟨c, rfl, hc, -⟩ := hw'
    refine ⟨c, rfl, ?_⟩
    rw [runs_flatten] at hc
    have hlogged : (w.view g).pending.map Prod.snd = (w.view g).logged.drop (w.applied g) := map_snd_numbered _ _
    rw [hc, hlogged]
    exact redo_atLast hlog hredo hpart

/-- **`_stage_leg`** builds a leg's copy from wherever its live graph and an earlier copy stand. -/
theorem ends_stageLeg (h : GatewayOk start flipped w) (hw : Waits w s g) {rows : List LogRow}
    (hrows : rows = (w.view g).pending.map rowOf) :
    wp (stageLeg gw g s rows)
      (Ends (fun _ w' => ∃ c, w' = w.setStaged g s (some c) ∧ c.content = (w.view g).atLast (start g))
        (Staging start g s w)) w := by
  subst hrows
  have hself := Staging.refl h hw
  obtain ⟨r, hr, hrs, hlt⟩ := hw
  have hwaits : Waits w s g := ⟨r, hr, hrs, hlt⟩
  obtain ⟨stamps, rest, hlog, hredo, hparts⟩ := ((h.graphs g).swap r hr s hrs hlt).redo
  -- of the staged copy it matters only that it stands somewhere in a pass
  have hpartOf : ∀ c, Partway ((w.view g).atMarker (start g)) stamps rest c → PartOf (start g) (w.view g) c := by
    intro c hc stamps' rest' hlog' hredo'
    obtain ⟨rfl, rfl⟩ := stamps_unique (hlog.symm.trans hlog') hredo.stampFree hredo'.stampFree
    exact hc
  unfold stageLeg
  refine ends_bind (R := fun _ w' => ∃ c, w' = w.setStaged g s (some c) ∧
    Partway ((w.view g).atMarker (start g)) stamps rest c.content) ?_ ?_
  · refine ends_guardCall gw (I := Staging start g s w) (fun w' hw' => ?_) (fun _ h => h) hself
    obtain ⟨copy, rfl, hcopy⟩ := hw'
    refine ends_graphWrite (fun w'' hw'' => ?_) ⟨copy, rfl, hcopy⟩
    have hlive : (w.setStaged g s copy).live = w.live := rfl
    rw [setStaged_staged, hlive] at hw''
    have hcontent : ∀ stored, w.live g = some stored → stored.content = w.content g := by
      intro stored hstored
      unfold World.content
      rw [hstored]; rfl
    cases hstored : w.live g with
    | some stored =>
      rw [hstored] at hw''
      cases copy with
      | some c => cases hw''
      | none =>
        cases hw''
        rw [setStaged_setStaged]
        have hlivePart := partOf_live h hwaits
        rw [← hcontent stored hstored] at hlivePart
        exact ⟨⟨stored, rfl, hlivePart stamps rest hlog hredo⟩, some stored, rfl,
          fun c hc => by cases hc; exact hlivePart⟩
    | none =>
      rw [hstored] at hw''
      cases hw''
      rw [setStaged_setStaged]
      have hget : PartOf (start g) (w.view g) (copy.getD {}).content := by
        cases copy with
        | some c => exact hcopy c rfl
        | none =>
          have hlivePart := partOf_live h hwaits
          unfold World.content at hlivePart
          rw [hstored] at hlivePart
          exact hlivePart
      exact ⟨⟨_, rfl, hget stamps rest hlog hredo⟩, _, rfl, fun c hc => by cases hc; exact hget⟩
  · rintro - w' ⟨copy, rfl, hcopy⟩
    refine ends_guardCall gw (I := fun w' => ∃ c, w' = w.setStaged g s (some c) ∧
      Partway ((w.view g).atMarker (start g)) stamps rest c.content) (fun w'' hw'' => ?_) (fun w'' hw'' => ?_)
      ⟨copy, rfl, hcopy⟩
    · -- the log and the marker are those of before, and so is what is pending
      obtain ⟨c, rfl, hc⟩ := hw''
      refine ends_mono (ends_applyEntries_staged gw (w := w.setStaged g s (some c)) hlog hredo
        (setStaged_staged w g s (some c)) hc) ?_ ?_
      · rintro - w'' ⟨c', rfl, hc'⟩
        exact ⟨c', setStaged_setStaged w g s _ _, hc'⟩
      · rintro w'' ⟨c', rfl, hc'⟩
        exact ⟨c', setStaged_setStaged w g s _ _, hc'⟩
    · obtain ⟨c, rfl, hc⟩ := hw''
      exact ⟨some c, rfl, fun c' hc' => by cases hc'; exact hpartOf c.content hc⟩

end Copies

/-! ## Swap sets -/

/-- The legs of a set that wait: all of them, and nothing else. -/
structure SwapLegs (w : World) (s : ℕ) (legs : List AppendedGroup) : Prop where
  waiting : ∀ leg ∈ legs, ∃ r ∈ w.groups, r.appended = leg ∧ r.swapSet = some s ∧ w.applied r.graph < r.lastPosition
  all : ∀ r ∈ w.groups, r.swapSet = some s → w.applied r.graph < r.lastPosition →
    r.graph ∈ legs.map AppendedGroup.graph

/-- A world in which the invariant holds and the set is renamed. -/
def Renamed (start : String → Graph) (s : ℕ) (w : World) : Prop := ∃ flipped, GatewayOk start flipped w ∧ flipped s

/-- The invariant holds, and log and markers are as they were. -/
def Swapping (start : String → Graph) (w w' : World) : Prop := Inv start w' ∧ SwapsOnly w w'

section Sets

variable (gw : GraphWriteGateway) {start : String → Graph} {flipped : ℕ → Prop} {w w' : World} {s : ℕ}
  {legs : List AppendedGroup}

theorem SwapLegs.of_swaps (h : SwapLegs w s legs) (hs : SwapsOnly w w') : SwapLegs w' s legs where
  waiting leg hleg := by
    obtain ⟨r, hr, hrl, hrs, hlt⟩ := h.waiting leg hleg
    exact ⟨r, by rw [hs.groups]; exact hr, hrl, hrs, by rw [hs.applied]; exact hlt⟩
  all r hr hrs hlt := by
    rw [hs.groups] at hr
    rw [hs.applied] at hlt
    exact h.all r hr hrs hlt

theorem SwapLegs.waits (h : SwapLegs w s legs) {leg : AppendedGroup} (hleg : leg ∈ legs) : Waits w s leg.graph := by
  obtain ⟨r, hr, rfl, hrs, hlt⟩ := h.waiting leg hleg
  exact ⟨r, mem_rows.2 ⟨hr, rfl⟩, hrs, hlt⟩

theorem SwapsOnly.pending (h : SwapsOnly w w') (g : String) : (w'.view g).pending = (w.view g).pending := by
  unfold GraphView.pending
  rw [h.logged, view_applied, view_applied, h.applied]

theorem SwapsOnly.atLast (h : SwapsOnly w w') (g : String) (start : Graph) :
    (w'.view g).atLast start = (w.view g).atLast start := by
  unfold GraphView.atLast
  rw [h.logged]

theorem Renamed.inv (h : Renamed start s w) : Inv start w := h.imp fun _ h => h.1

theorem ends_discard (h : GatewayOk start flipped w) (graphs : List String) (s : ℕ) :
    wp (discard graphs s) (Ends (fun _ w' => GatewayOk start flipped w' ∧ SwapsOnly w w')
      (fun w' => GatewayOk start flipped w' ∧ SwapsOnly w w')) w := by
  unfold discard
  refine ends_handle (F := fun w' => GatewayOk start flipped w' ∧ SwapsOnly w w') ?_ (fun e w' hw' => ?_) fun _ h => h
  · refine ends_graphWrite (fun w' hw' => ?_) ⟨h, SwapsOnly.refl w⟩
    cases hw'
    exact ⟨⟨discard_ok h graphs s, discard_swaps w graphs s⟩, discard_ok h graphs s, discard_swaps w graphs s⟩
  · cases e with
    | connection => exact wp_pure hw'
    | redis => exact wp_pure hw'
    | _ => exact wp_raise hw'

/-- The rename of finished copies. -/
theorem ends_flip (h : GatewayOk start flipped w) (hlegs : SwapLegs w s legs)
    (hcopies : ∀ leg ∈ legs, ∃ c, w.staged leg.graph s = some c ∧ c.content = (w.view leg.graph).atLast (start leg.graph)) :
    wp (flip (legs.map AppendedGroup.graph) s)
      (Ends (fun _ w' => Renamed start s w' ∧ SwapsOnly w w') (Swapping start w)) w := by
  have hrenamed : Renamed start s ((legs.map AppendedGroup.graph).foldl (fun w g => w.rename s g) w) := by
    refine ⟨_, h.flip (fun g hg => ?_) ?_, .inr rfl⟩
    · obtain ⟨leg, hleg, rfl⟩ := List.mem_map.1 hg
      exact ⟨hlegs.waits hleg, hcopies leg hleg⟩
    · -- before the set is renamed all its legs wait
      by_cases hf : flipped s
      · exact .inl hf
      · refine .inr fun r hr hrs => hlegs.all r hr hrs ?_
        exact (h.graphs r.graph).waiting r (mem_rows.2 ⟨hr, rfl⟩) s hrs hf
  have hswaps := renames_swaps w (legs.map AppendedGroup.graph) s
  have hstay : Swapping start w w := ⟨⟨flipped, h⟩, SwapsOnly.refl w⟩
  have hdone : Swapping start w ((legs.map AppendedGroup.graph).foldl (fun w g => w.rename s g) w) :=
    ⟨hrenamed.inv, hswaps⟩
  unfold flip
  refine ends_handle (F := Swapping start w) ?_ (fun e w' hw' => ?_) fun _ h => h
  · refine wp_call hstay fun fate => ?_
    cases fate with
    | done =>
      dsimp only
      split
      · exact ⟨hrenamed, hswaps⟩
      · exact hdone
    | lost => exact hdone
    | _ => exact hstay
  · cases e with
    | _ => exact wp_raise hw'

/-- **`_attempt`** renames all waiting legs of a set, or none. -/
theorem ends_swapAttempt (h : GatewayOk start flipped w) (hlegs : SwapLegs w s legs)
    {pending : List (AppendedGroup × List LogRow)} (hfst : pending.map Prod.fst = legs)
    (hrows : ∀ leg ∈ pending, leg.2 = (w.view leg.1.graph).pending.map rowOf) :
    wp (swapAttempt gw s pending)
      (Ends (fun _ w' => Renamed start s w' ∧ SwapsOnly w w') (Swapping start w)) w := by
  have hgraphs : (pending.map fun leg => leg.1.graph) = legs.map AppendedGroup.graph := by
    rw [← hfst, List.map_map]; rfl
  unfold swapAttempt
  dsimp only
  refine ends_bind (ends_mono (ends_discard h _ s) (fun _ _ h => h) fun w' hw' => ⟨⟨flipped, hw'.1⟩, hw'.2⟩) ?_
  rintro - w₁ ⟨hok₁, hswaps₁⟩
  refine ends_bind (R := fun _ w' => w₁ = w') (ends_graphRead rfl ⟨⟨flipped, hok₁⟩, hswaps₁⟩) ?_
  rintro _ _ rfl
  refine ends_bind (R := fun _ w' => GatewayOk start flipped w' ∧ SwapsOnly w w' ∧ ∀ leg ∈ pending,
    ∃ c, w'.staged leg.1.graph s = some c ∧ c.content = (w.view leg.1.graph).atLast (start leg.1.graph)) ?_ ?_
  · refine ends_forM (fun (done : List (AppendedGroup × List LogRow)) w' =>
      GatewayOk start flipped w' ∧ SwapsOnly w w' ∧ ∀ leg ∈ done,
      ∃ c, w'.staged leg.1.graph s = some c ∧ c.content = (w.view leg.1.graph).atLast (start leg.1.graph))
      (fun done leg todo hsplit w' hw' => ?_) ⟨hok₁, hswaps₁, by simp⟩
    obtain ⟨hok', hswaps', hcopies⟩ := hw'
    have hmem : leg ∈ pending := by rw [hsplit]; simp
    have hwaits : Waits w' s leg.1.graph :=
      (hlegs.of_swaps hswaps').waits (by rw [← hfst]; exact List.mem_map_of_mem hmem)
    refine ends_mono (ends_stageLeg gw hok' hwaits (by rw [hswaps'.pending]; exact hrows leg hmem)) ?_ ?_
    · rintro - w'' ⟨c, rfl, hc⟩
      have hstaging : Staging start leg.1.graph s w' (w'.setStaged leg.1.graph s (some c)) := by
        refine ⟨some c, rfl, fun c' hc' => ?_⟩
        cases hc'
        intro stamps rest hlog _
        rw [hc]
        have hsplit' : (w'.view leg.1.graph).atLast (start leg.1.graph) =
            applyAll ((w'.view leg.1.graph).atMarker (start leg.1.graph)) (stamps.map .stampEdgeIdentity ++ rest) := by
          rw [← hlog]
          unfold GraphView.atLast GraphView.atMarker
          rw [← applyAll_append, List.take_append_drop]
        rw [hsplit']
        exact partway_post
      refine ⟨hstaging.ok hok' hwaits, hswaps'.trans hstaging.swaps, fun leg' hleg' => ?_⟩
      by_cases hsame : leg'.1.graph = leg.1.graph
      · rw [hsame, setStaged_staged]
        exact ⟨c, rfl, by rw [hc, hswaps'.atLast]⟩
      · have hview := (setStaged_applies w' leg.1.graph s (some c)).others leg'.1.graph (by simpa using hsame)
        have hstaged : (w'.setStaged leg.1.graph s (some c)).staged leg'.1.graph = w'.staged leg'.1.graph :=
          congrArg GraphView.staged hview
        rw [hstaged]
        rcases List.mem_append.1 hleg' with hleg' | hleg'
        · exact hcopies leg' hleg'
        · rw [List.mem_singleton.1 hleg'] at hsame
          exact absurd rfl hsame
    · intro w'' hstaging
      exact ⟨⟨flipped, hstaging.ok hok' hwaits⟩, hswaps'.trans hstaging.swaps⟩
  · rintro - w₂ ⟨hok₂, hswaps₂, hcopies⟩
    rw [hgraphs]
    refine ends_mono (ends_flip hok₂ (hlegs.of_swaps hswaps₂) fun leg hleg => ?_) (fun _ w' hw' => ?_) fun w' hw' => ?_
    · rw [← hfst] at hleg
      obtain ⟨leg', hleg', rfl⟩ := List.mem_map.1 hleg
      rw [hswaps₂.atLast]
      exact hcopies leg' hleg'
    · exact ⟨hw'.1, hswaps₂.trans hw'.2⟩
    · exact ⟨hw'.1, hswaps₂.trans hw'.2⟩

theorem ends_swapTries (hI : Inv start w) (hlegs : SwapLegs w s legs)
    {pending : List (AppendedGroup × List LogRow)} (hfst : pending.map Prod.fst = legs)
    (hrows : ∀ leg ∈ pending, leg.2 = (w.view leg.1.graph).pending.map rowOf) (tries : ℕ) :
    wp (swapTries gw s pending tries)
      (Ends (fun _ w' => Renamed start s w' ∧ SwapsOnly w w') (Swapping start w)) w := by
  induction tries generalizing w with
  | zero => exact wp_raise ⟨hI, SwapsOnly.refl w⟩
  | succ tries ih =>
    obtain ⟨flipped, hok⟩ := hI
    unfold swapTries
    refine ends_handle (ends_swapAttempt gw hok hlegs hfst hrows) (fun e w₁ hw₁ => ?_) fun _ h => h
    obtain ⟨⟨flipped₁, hok₁⟩, hswaps₁⟩ := hw₁
    refine ends_bind (ends_mono (ends_discard hok₁ _ s) (fun _ _ h => h) fun w' hw' =>
      ⟨⟨flipped₁, hw'.1⟩, hswaps₁.trans hw'.2⟩) ?_
    rintro - w₂ ⟨hok₂, hswaps₂⟩
    have hswaps := hswaps₁.trans hswaps₂
    split
    · -- a refused rename starts over, over the same log and markers
      refine ends_mono (ih ⟨flipped₁, hok₂⟩ (hlegs.of_swaps hswaps) fun leg hleg => ?_) (fun _ w' hw' => ?_)
        fun w' hw' => ?_
      · rw [hswaps.pending]; exact hrows leg hleg
      · exact ⟨hw'.1, hswaps.trans hw'.2⟩
      · exact ⟨hw'.1, hswaps.trans hw'.2⟩
    · exact wp_raise ⟨⟨flipped₁, hok₂⟩, hswaps⟩

theorem ends_pendingOfLegs (hI : Inv start w) (legs : List AppendedGroup) :
    wp (pendingOfLegs gw legs) (Ends (fun pending w' => w = w' ∧ pending.map Prod.fst = legs ∧
      ∀ leg ∈ pending, leg.2 = (w.view leg.1.graph).pending.map rowOf) (w = ·)) w := by
  induction legs with
  | nil => exact wp_pure ⟨rfl, rfl, by simp⟩
  | cons leg legs ih =>
    obtain ⟨flipped, hok⟩ := hI
    unfold pendingOfLegs
    refine ends_bind (R := fun rows w' => w = w' ∧ rows = (w.view leg.graph).pending.map rowOf) ?_ ?_
    · refine ends_guardRead gw ?_ rfl
      refine ends_bind (R := fun applied w' => applied = w.applied leg.graph ∧ w = w') (ends_logRead ⟨rfl, rfl⟩ rfl) ?_
      rintro _ _ ⟨rfl, rfl⟩
      exact ends_logRead ⟨rfl, pendingRows_eq (hok.graphs leg.graph)⟩ rfl
    rintro rows _ ⟨rfl, hrows⟩
    refine ends_bind ih ?_
    rintro rest _ ⟨rfl, hrest, hrests⟩
    refine wp_pure ⟨rfl, by rw [List.map_cons, hrest], fun leg' hleg' => ?_⟩
    rcases List.mem_cons.1 hleg' with rfl | hleg'
    · exact hrows
    · exact hrests leg' hleg'

/-- **`SwapApplier.apply`**: all waiting legs of the set are renamed, or none. -/
theorem ends_swapApply (hI : Inv start w) (hlegs : SwapLegs w s legs) :
    wp (swapApply gw s legs) (Ends (fun _ w' => Renamed start s w' ∧ SwapsOnly w w') (Swapping start w)) w := by
  unfold swapApply
  refine ends_bind (ends_mono (ends_pendingOfLegs gw hI legs) (fun _ _ h => h) fun w' hw' => ?_) ?_
  · subst hw'
    exact ⟨hI, SwapsOnly.refl w⟩
  rintro pending _ ⟨rfl, hfst, hrows⟩
  exact ends_swapTries gw hI hlegs hfst hrows _

/-- The markers of the legs are at the end of their groups, or past it. -/
def Advanced (legs : List AppendedGroup) (w : World) : Prop := ∀ leg ∈ legs, leg.lastPosition ≤ w.applied leg.graph

theorem Advanced.forward (h : Advanced legs w) (hs : SameLog w w') : Advanced legs w' := fun leg hleg =>
  (h leg hleg).trans (hs.forward leg.graph)

/-- The markers of a renamed set follow, in whatever order they can. -/
theorem ends_advanceLegs (hR : Renamed start s w) (hlegs : ∀ leg ∈ legs, ∃ r ∈ w.groups, r.appended = leg ∧
      r.swapSet = some s) :
    wp (legs.forM fun leg => guardCall gw leg.graph (advanceAppliedPosition leg.graph leg.lastPosition))
      (Ends (fun _ w' => (Renamed start s w' ∧ SameLog w w') ∧ Advanced legs w')
        (fun w' => Renamed start s w' ∧ SameLog w w')) w := by
  refine ends_forM (fun done w' => (Renamed start s w' ∧ SameLog w w') ∧ Advanced done w')
    (fun done leg todo hsplit w' hw' => ?_) ⟨⟨hR, SameLog.refl w⟩, by simp [Advanced]⟩
  refine ends_guardCall gw (I := fun w' => (Renamed start s w' ∧ SameLog w w') ∧ Advanced done w')
    (fun w₁ hw₁ => ?_) (fun _ h => h.1) hw'
  obtain ⟨⟨⟨flipped, hok, hf⟩, hsame⟩, hdone⟩ := hw₁
  refine ends_logWrite (fun u w₂ hw₂ => ?_) ⟨⟨⟨flipped, hok, hf⟩, hsame⟩, hdone⟩
  split at hw₂
  · cases hw₂
  cases hw₂
  obtain ⟨r, hr, rfl, hrs⟩ := hlegs leg (by rw [hsplit]; simp)
  have hok₂ := hok.advanceSwapped (by rw [hsame.groups]; exact hr) hrs hf
  have hstep := (setApplied_applies w₁ (le_max_left (w₁.applied r.graph) r.lastPosition)).toSameLog
  have hdone₂ := hdone.forward hstep
  refine ⟨⟨⟨⟨flipped, hok₂, hf⟩, hsame.trans hstep⟩, fun leg hleg => ?_⟩, ⟨⟨flipped, hok₂, hf⟩, hsame.trans hstep⟩, hdone₂⟩
  rcases List.mem_append.1 hleg with hleg | hleg
  · exact hdone₂ leg hleg
  · cases List.mem_singleton.1 hleg
    show r.lastPosition ≤ Function.update w₁.applied r.graph (max (w₁.applied r.graph) r.lastPosition) r.graph
    rw [Function.update_self]
    exact le_max_right _ _

/-- The invariant holds over the log as it was. -/
def Same (start : String → Graph) (w w' : World) : Prop := Inv start w' ∧ SameLog w w'

theorem Same.process {w'' : World} (h : Same start w w') (hp : ProcessOnly w' w'') : Same start w w'' :=
  ⟨hp.inv h.1, h.2.trans hp.sameLog⟩

theorem ends_swapAndAdvance (hI : Inv start w) (hlegs : SwapLegs w s legs) :
    wp (swapAndAdvance gw s legs) (Ends (fun _ w' => Same start w w' ∧ Advanced legs w') (Same start w)) w := by
  unfold swapAndAdvance
  refine ends_bind (ends_mono (ends_swapApply gw hI hlegs) (fun _ _ h => h) fun w' hw' => ⟨hw'.1, hw'.2.toSameLog⟩) ?_
  rintro - w₁ ⟨hR, hswaps⟩
  refine ends_mono (ends_advanceLegs gw hR fun leg hleg => ?_) (fun _ w' hw' => ?_) fun w' hw' => ?_
  · obtain ⟨r, hr, hrl, hrs, -⟩ := hlegs.waiting leg hleg
    exact ⟨r, by rw [hswaps.groups]; exact hr, hrl, hrs⟩
  · exact ⟨⟨hw'.1.1.inv, hswaps.toSameLog.trans hw'.1.2⟩, hw'.2⟩
  · exact ⟨hw'.1.inv, hswaps.toSameLog.trans hw'.2⟩

theorem ends_registerAll (graphs : List String) {E : World → Prop} :
    wp (graphs.forM register) (Ends (fun _ => ProcessOnly w) E) w := by
  refine ends_forM (fun _ => ProcessOnly w) (fun _ g _ _ w' hw' => ?_) (ProcessOnly.refl w)
  exact ends_mono (register_ends g) (fun _ w'' hw'' => hw'.trans hw'') fun _ h => h

/-- **`_swap_unit`** keeps the invariant, whatever of it failed; where it answers that the set is applied, it is. -/
theorem ends_swapUnit (hI : Inv start w) (hlegs : SwapLegs w s legs) :
    wp (swapUnit gw s legs)
      (Ends (fun applied w' => Same start w w' ∧ (applied = true → Advanced legs w')) (Same start w)) w := by
  have hpending : ∀ w', Same start w w' → Same start w w' ∧ (false = true → Advanced legs w') := fun w' hw' =>
    ⟨hw', nofun⟩
  unfold swapUnit
  dsimp only
  refine ends_handle (F := Same start w) ?_ (fun e w' hw' => ?_) fun _ h => h
  · refine ends_bind (ends_swapAndAdvance gw hI hlegs) fun _ w' hw' => ?_
    refine ends_bind (R := fun _ => ProcessOnly w') (wp_modify ⟨_, rfl, rfl⟩) fun _ w'' hw'' => ?_
    exact wp_pure ⟨hw'.1.process hw'', fun _ => hw'.2.forward hw''.sameLog⟩
  · cases e with
    | swapConflict =>
      refine ends_bind (R := fun _ => ProcessOnly w') (wp_modify ⟨_, rfl, rfl⟩) fun _ w'' hw'' => ?_
      exact wp_pure (hpending _ (hw'.process hw''))
    | graphApply g =>
      refine ends_bind (R := fun _ => ProcessOnly w') (wp_modify ⟨_, rfl, rfl⟩) fun _ w'' hw'' => ?_
      exact wp_raise (hw'.process hw'')
    | graphUnavailable =>
      exact ends_bind (ends_registerAll _) fun _ w'' hw'' => wp_pure (hpending _ (hw'.process hw''))
    | logUnavailable =>
      exact ends_bind (ends_registerAll _) fun _ w'' hw'' => wp_pure (hpending _ (hw'.process hw''))
    | _ => exact wp_raise hw'

end Sets

end PolicySystem
