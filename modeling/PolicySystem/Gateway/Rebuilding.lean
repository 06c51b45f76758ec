import PolicySystem.Gateway.ApplySteps
import PolicySystem.Gateway.ReapplyLaw
import PolicySystem.Gateway.Replayer
import PolicySystem.Graph.Rebuild

/-!
# Rebuilding a graph from its log

What a replay does to a graph whose key was lost, however often it is stopped, broken off or restarted.

* `soundFrom`, `decodePage_eq`: the part of a log that can be replayed, and what a page is decoded to;
* `Standing`: what an unfinished replay has left of the content, before and beyond the checkpoint;
* `leaves_replay`: a replay keeps the record true, however it ends;
* `startup_recovers`, `replay_refines_fold`: **a start that deals with the graph leaves the fold of its log, and one
  that fails the fold of the part before the position it names.**
-/

namespace PolicySystem

open Faults Proc PropertyGraph GraphWrite

/-! ## Rebuilding by primitives -/

section Primitives

variable {start c : Graph} {all recorded rest : List Primitive}

/-- No edge lacks an identity. -/
def Identified (c : Graph) : Prop := ∀ k : EdgeKey, k.identity = none → c.edgesAt k = 0

theorem Identified.applyAll (h : Identified c) (ps : List Primitive) : Identified (applyAll c ps) :=
  fun _ hk => applyAll_unidentified hk (h _ hk) ps

theorem identified_empty : Identified ∅ := by
  intro k _
  rfl

/-- Without an edge to stamp, primitives are their writes. -/
theorem Identified.writes (h : Identified c) (ps : List Primitive) :
    PolicySystem.applyAll c ps = c.writeAll (writesOf ps) := by
  have hstamps : PolicySystem.applyAll c (unstamped ps) = PolicySystem.applyAll c ps :=
    applyAll_filter_stamps fun e _ => h _ rfl
  rw [← hstamps, applyAll_eq_writeAll fun p hp => (mem_unstamped.1 hp).2, writesOf_unstamped]

theorem writesOf_append (ps qs : List Primitive) : writesOf (ps ++ qs) = writesOf ps ++ writesOf qs :=
  List.filterMap_append

/-- What passes over primitives leave is what passes over their writes leave. -/
theorem rebuilt_writes (hstart : Identified start) (h : Rebuilt applyOne start all recorded rest c) :
    Identified c ∧ Rebuilt write start (writesOf all) (writesOf recorded) (writesOf rest) c := by
  induction h with
  | start => exact ⟨hstart, .start⟩
  | @broken recorded rest some c _ hsome ih =>
    have hcontent := ih.1.writes some
    refine ⟨ih.1.applyAll some, ?_⟩
    show Rebuilt _ _ _ _ _ (PolicySystem.applyAll c some)
    rw [hcontent]
    refine .broken ih.2 fun w hw => ?_
    obtain ⟨p, hp, hpw⟩ := mem_writesOf.1 hw
    exact mem_writesOf.2 ⟨p, hsome p hp, hpw⟩
  | @record recorded next rest c _ ih =>
    have hcontent := ih.1.writes next
    refine ⟨ih.1.applyAll next, ?_⟩
    show Rebuilt _ _ _ _ _ (PolicySystem.applyAll c next)
    rw [hcontent, writesOf_append]
    refine .record ?_
    rw [← writesOf_append]
    exact ih.2

/-- **Rebuilding**, of primitives. -/
theorem rebuilt_primitives (hstart : Identified start) (hmet : NeedsMet start (writesOf all))
    (h : Rebuilt applyOne start all recorded rest c) : applyAll c rest = applyAll start all := by
  obtain ⟨hid, hwrites⟩ := rebuilt_writes hstart h
  rw [hid.writes, hstart.writes]
  exact rebuilt (writesOf_overwriting all) hmet hwrites

/-- Passes over a list whose first `done` steps are on record. -/
def Passed (start : Graph) (all : List Primitive) (done : ℕ) (c : Graph) : Prop :=
  Rebuilt applyOne start all (all.take done) (all.drop done) c

variable {done n : ℕ} {some : List Primitive}

theorem Passed.broken (h : Passed start all done c) (hsome : ∀ p ∈ some, p ∈ all.drop done) :
    Passed start all done (applyAll c some) := Rebuilt.broken h hsome

theorem Passed.record (h : Passed start all done c) (n : ℕ) :
    Passed start all (done + n) (applyAll c ((all.drop done).take n)) := by
  have hsplit : all.drop done = (all.drop done).take n ++ all.drop (done + n) := by
    rw [← List.drop_drop, List.take_append_drop]
  unfold Passed at h ⊢
  rw [hsplit] at h
  rw [List.take_add]
  exact Rebuilt.record h

theorem Passed.finish (hstart : Identified start) (hmet : NeedsMet start (writesOf all)) (h : Passed start all done c) :
    applyAll c (all.drop done) = applyAll start all := rebuilt_primitives hstart hmet h

theorem Passed.whole (hstart : Identified start) (hmet : NeedsMet start (writesOf all)) (h : Passed start all done c)
    (hdone : all.length ≤ done) : c = applyAll start all := by
  have hrest := h.finish hstart hmet
  rwa [List.drop_eq_nil_of_le hdone] at hrest

end Primitives

/-! ## The log of a graph -/

/-- The entries that are contiguous from `next` and decode. -/
def soundFrom (next : ℕ) : List LogRow → List Primitive
  | [] => []
  | row :: rows =>
    if row.position ≠ next then []
    else
      match row.primitive with
      | none => []
      | some p => p :: soundFrom (next + 1) rows

section Sound

variable {g : String} {next k n : ℕ} {rows : List LogRow}

/-- An entry is sound, or the sound part ends before it. -/
theorem soundFrom_cases (next : ℕ) (row : LogRow) (rows : List LogRow) :
    (∃ p, row = ⟨next, some p⟩ ∧ soundFrom next (row :: rows) = p :: soundFrom (next + 1) rows) ∨
      soundFrom next (row :: rows) = [] ∧ (row.position ≠ next ∨ row.position = next ∧ row.primitive = none) := by
  obtain ⟨position, primitive⟩ := row
  by_cases hposition : position = next
  · subst hposition
    cases primitive with
    | none => exact .inr ⟨by simp [soundFrom], .inr ⟨rfl, rfl⟩⟩
    | some p => exact .inl ⟨p, rfl, by simp [soundFrom]⟩
  · exact .inr ⟨by simp [soundFrom, hposition], .inl hposition⟩

theorem soundFrom_length_le (next : ℕ) (rows : List LogRow) : (soundFrom next rows).length ≤ rows.length := by
  induction rows generalizing next with
  | nil => simp [soundFrom]
  | cons row rows ih =>
    have htail := ih (next + 1)
    rcases soundFrom_cases next row rows with ⟨p, -, h⟩ | ⟨h, -⟩
    · rw [h, List.length_cons, List.length_cons]
      omega
    · rw [h]
      exact Nat.zero_le _

theorem soundFrom_take (next n : ℕ) (rows : List LogRow) :
    soundFrom next (rows.take n) = (soundFrom next rows).take n := by
  induction rows generalizing next n with
  | nil => simp [soundFrom]
  | cons row rows ih =>
    cases n with
    | zero => simp [soundFrom]
    | succ n =>
      rw [List.take_succ_cons]
      rcases soundFrom_cases next row rows with ⟨p, rfl, h⟩ | ⟨h, hend⟩
      · rw [h, List.take_succ_cons, ← ih]
        simp [soundFrom]
      · rw [h, List.take_nil]
        rcases hend with hgap | ⟨-, hcorrupt⟩
        · simp [soundFrom, hgap]
        · simp [soundFrom, hcorrupt]

theorem soundFrom_drop (h : k ≤ (soundFrom next rows).length) :
    soundFrom (next + k) (rows.drop k) = (soundFrom next rows).drop k := by
  induction rows generalizing next k with
  | nil => simp [soundFrom]
  | cons row rows ih =>
    cases k with
    | zero => simp
    | succ k =>
      rcases soundFrom_cases next row rows with ⟨p, -, hsound⟩ | ⟨hsound, -⟩
      · rw [hsound, List.length_cons] at h
        have hk : k ≤ (soundFrom (next + 1) rows).length := by omega
        have hsame : next + (k + 1) = next + 1 + k := by omega
        rw [hsound, List.drop_succ_cons, List.drop_succ_cons, hsame]
        exact ih hk
      · rw [hsound] at h
        simp at h

/-- The positions of the sound part count up. -/
theorem soundFrom_position (h : k < (soundFrom next rows).length) :
    ∃ row, rows[k]? = some row ∧ row.position = next + k := by
  induction rows generalizing next k with
  | nil => simp [soundFrom] at h
  | cons row rows ih =>
    rcases soundFrom_cases next row rows with ⟨p, hrow, hsound⟩ | ⟨hsound, -⟩
    · cases k with
      | zero => exact ⟨row, rfl, by rw [hrow]; rfl⟩
      | succ k =>
        rw [hsound, List.length_cons] at h
        obtain ⟨later, hlater, hposition⟩ := @ih (next + 1) k (by omega)
        exact ⟨later, by simpa using hlater, by omega⟩
    · rw [hsound] at h
      simp at h

/-- What ends a page early names the position after its sound part. -/
def EndsSound (g : String) (position : ℕ) (e : ReplayErr) : Prop :=
  e = .logGap g position ∨ e = .logCorruptEntry g position

theorem decodeFrom_eq (g : String) (next : ℕ) (rows : List LogRow) :
    (decodeFrom g next rows).1 = numbered next (soundFrom next rows) ∧
      ((decodeFrom g next rows).2 = none ∧ (soundFrom next rows).length = rows.length ∨
        ∃ e, (decodeFrom g next rows).2 = some e ∧ (soundFrom next rows).length < rows.length ∧
          EndsSound g (next + (soundFrom next rows).length) e) := by
  induction rows generalizing next with
  | nil => exact ⟨rfl, .inl ⟨rfl, rfl⟩⟩
  | cons row rows ih =>
    rcases soundFrom_cases next row rows with ⟨p, rfl, hsound⟩ | ⟨hsound, hend⟩
    · obtain ⟨hdecoded, hrest⟩ := ih (next + 1)
      have hstep : decodeFrom g next (⟨next, some p⟩ :: rows) =
          ((next, p) :: (decodeFrom g (next + 1) rows).1, (decodeFrom g (next + 1) rows).2) := by
        simp [decodeFrom]
      rw [hstep, hsound, hdecoded]
      refine ⟨rfl, ?_⟩
      rcases hrest with ⟨hnone, hlength⟩ | ⟨e, he, hlength, hfailure⟩
      · exact .inl ⟨hnone, by rw [List.length_cons, List.length_cons, hlength]⟩
      · refine .inr ⟨e, he, by rw [List.length_cons, List.length_cons]; omega, ?_⟩
        have hsame : next + (p :: soundFrom (next + 1) rows).length =
            next + 1 + (soundFrom (next + 1) rows).length := by rw [List.length_cons]; omega
        rw [hsame]
        exact hfailure
    · rw [hsound]
      rcases hend with hgap | ⟨hposition, hcorrupt⟩
      · have hstep : decodeFrom g next (row :: rows) = ([], some (.logGap g next)) := by
          simp [decodeFrom, hgap]
        rw [hstep]
        exact ⟨rfl, .inr ⟨_, rfl, by simp, .inl rfl⟩⟩
      · have hstep : decodeFrom g next (row :: rows) = ([], some (.logCorruptEntry g next)) := by
          simp [decodeFrom, hposition, hcorrupt]
        rw [hstep]
        exact ⟨rfl, .inr ⟨_, rfl, by simp, .inr rfl⟩⟩

/-- **A page is decoded to what it holds of the sound part**, and fails where the sound part ends within it. -/
theorem decodePage_eq (hk : k ≤ (soundFrom 1 rows).length) :
    let page := decodePage g ((rows.drop k).take n) (k + 1) n
    page.1 = numbered (k + 1) (((soundFrom 1 rows).drop k).take n) ∧
      (page.2 = none ∧ k + n ≤ (soundFrom 1 rows).length ∨
        ∃ e, page.2 = some e ∧ (soundFrom 1 rows).length < k + n ∧
          EndsSound g ((soundFrom 1 rows).length + 1) e) := by
  have hsound : soundFrom (k + 1) ((rows.drop k).take n) = ((soundFrom 1 rows).drop k).take n := by
    rw [soundFrom_take, Nat.add_comm k 1, soundFrom_drop hk]
  have hall := soundFrom_length_le 1 rows
  obtain ⟨hdecoded, hend⟩ := decodeFrom_eq g (k + 1) ((rows.drop k).take n)
  rw [hsound] at hdecoded hend
  have hentries : ((rows.drop k).take n).length = min n (rows.length - k) := by simp
  have hpart : (((soundFrom 1 rows).drop k).take n).length = min n ((soundFrom 1 rows).length - k) := by simp
  intro page
  rcases hend with ⟨hnone, hlength⟩ | ⟨e, he, hlength, hfailure⟩
  · have hpage : page = if ((rows.drop k).take n).length < n then
        ((decodeFrom g (k + 1) ((rows.drop k).take n)).1, some (.logGap g (k + 1 + ((rows.drop k).take n).length)))
        else ((decodeFrom g (k + 1) ((rows.drop k).take n)).1, none) := by
      show decodePage g _ _ _ = _
      unfold decodePage
      rw [← Prod.mk.eta (p := decodeFrom g (k + 1) ((rows.drop k).take n)), hnone]
    rw [hpage]
    split
    · -- the log ends before its own head
      rename_i hshort
      refine ⟨hdecoded, .inr ⟨_, rfl, by omega, .inl ?_⟩⟩
      congr 1
      omega
    · exact ⟨hdecoded, .inl ⟨rfl, by omega⟩⟩
  · have hpage : page = ((decodeFrom g (k + 1) ((rows.drop k).take n)).1, some e) := by
      show decodePage g _ _ _ = _
      unfold decodePage
      rw [← Prod.mk.eta (p := decodeFrom g (k + 1) ((rows.drop k).take n)), he]
    rw [hpage]
    refine ⟨hdecoded, .inr ⟨e, rfl, by omega, ?_⟩⟩
    have hposition : k + 1 + (((soundFrom 1 rows).drop k).take n).length = (soundFrom 1 rows).length + 1 := by omega
    rwa [hposition] at hfailure

end Sound

/-! ## What is stored under the key -/

/-- Only what is stored under one key changed, to `s`. -/
def Stores (g : String) (w : World) (s : StoredGraph) (w' : World) : Prop :=
  (∃ live, w' = { w with live := Function.update w.live g live }) ∧ w'.stored g = s

section Stores

variable {g : String} {w w' w'' : World} {s s' : StoredGraph}

theorem Stores.refl (g : String) (w : World) : Stores g w (w.stored g) w :=
  ⟨⟨w.live g, by rw [Function.update_eq_self]⟩, rfl⟩

theorem Stores.trans (h : Stores g w s w') (h' : Stores g w' s' w'') : Stores g w s' w'' := by
  obtain ⟨⟨live, rfl⟩, -⟩ := h
  obtain ⟨⟨live', rfl⟩, hs'⟩ := h'
  exact ⟨⟨live', by rw [Function.update_idem]⟩, hs'⟩

theorem stores_setLive (g : String) (w : World) (s : StoredGraph) : Stores g w s (w.setLive g s) := by
  refine ⟨⟨some s, rfl⟩, ?_⟩
  unfold World.stored World.setLive
  simp

variable {R : Unit → World → Prop} {E : World → Prop}

/-- Writing the record. -/
theorem ends_writeReplayState (state : ReplayState)
    (h : ∀ w', Stores g w { w.stored g with replayState := some state } w' → R () w' ∧ E w') (hE : E w) :
    wp (writeReplayState g state) (Ends R E) w := by
  refine ends_graphWrite (fun w' hw' => ?_) hE
  cases hw'
  exact h _ (stores_setLive g w _)

theorem ends_deleteReplayState
    (h : ∀ w', Stores g w { w.stored g with replayState := none } w' → R () w' ∧ E w') (hE : E w) :
    wp (deleteReplayState g) (Ends R E) w := by
  refine ends_graphWrite (fun w' hw' => ?_) hE
  cases hw'
  exact h _ (stores_setLive g w _)

end Stores

/-- The graph with other content. -/
def StoredGraph.with (s : StoredGraph) (c : Graph) : StoredGraph := { s with content := c }

/-- The content has some of the primitives more. -/
def SomeOf (g : String) (w : World) (ps : List Primitive) (w' : World) : Prop :=
  ∃ some, (∀ p ∈ some, p ∈ ps) ∧ Stores g w ((w.stored g).with (applyAll (w.stored g).content some)) w'

/-- The queries of one run. -/
theorem ends_sendRun {g : String} {w w₁ : World} {batchSize : ℕ} (hb : 1 ≤ batchSize)
    {decoded before run : List Positioned}
    (hrun : IsRun (run.map Prod.snd)) (hbefore : ∀ x ∈ before ++ run, x ∈ decoded)
    (hw₁ : Stores g w ((w.stored g).with (applyAll (w.stored g).content (before.map Prod.snd))) w₁) :
    wp ((chunksOf run batchSize).forM fun chunk =>
        match chunk.map Prod.snd with
        | [] => pure ()
        | first :: rest => queryLive g (chunkQuery first (first :: rest)))
      (Ends (fun _ => Stores g w ((w.stored g).with (applyAll (w.stored g).content ((before ++ run).map Prod.snd))))
        (SomeOf g w (decoded.map Prod.snd))) w₁ := by
  let sent := fun queries : List (List Positioned) => applyAll (applyAll (w.stored g).content (before.map Prod.snd))
    (queries.flatten.map Prod.snd)
  have hsome : ∀ queries : List (List Positioned), (∀ chunk ∈ queries, chunk ∈ chunksOf run batchSize) →
      ∀ w', Stores g w ((w.stored g).with (sent queries)) w' → SomeOf g w (decoded.map Prod.snd) w' := by
    intro queries hqueries w' hw'
    refine ⟨before.map Prod.snd ++ queries.flatten.map Prod.snd, fun p hp => ?_, ?_⟩
    · rcases List.mem_append.1 hp with hp | hp
      · obtain ⟨x, hx, rfl⟩ := List.mem_map.1 hp
        exact List.mem_map_of_mem (hbefore x (List.mem_append_left run hx))
      · obtain ⟨x, hx, rfl⟩ := List.mem_map.1 (mem_of_query hb hqueries hp)
        exact List.mem_map_of_mem (hbefore x (List.mem_append_right before hx))
    · rw [applyAll_append]
      exact hw'
  have hend : sent (chunksOf run batchSize) = applyAll (w.stored g).content ((before ++ run).map Prod.snd) := by
    show applyAll _ _ = _
    rw [← sendAll_eq hb hrun (fun chunk h => h), List.map_append, applyAll_append]
    exact applyRun_eq hb hrun _
  rw [← hend]
  refine ends_mono (ends_forM (E := SomeOf g w (decoded.map Prod.snd)) (fun queries w' =>
    (∀ chunk ∈ queries, chunk ∈ chunksOf run batchSize) ∧ Stores g w ((w.stored g).with (sent queries)) w')
    (fun queries chunk todo hsplit w' hw' => ?_) ⟨by simp, hw₁⟩) (fun _ w' hw' => hw'.2) fun _ h => h
  obtain ⟨hqueries, hw'⟩ := hw'
  have hnext : ∀ c ∈ queries ++ [chunk], c ∈ chunksOf run batchSize := by
    intro c hc
    rw [hsplit]
    rcases List.mem_append.1 hc with hc | hc
    · exact List.mem_append_left _ hc
    · rw [List.mem_singleton.1 hc]
      simp
  have hsent : sent (queries ++ [chunk]) = applyChunk (sent queries) (chunk.map Prod.snd) := by
    have hone := applyChunk_eq hb hrun (hnext chunk (by simp)) (sent queries)
    rw [hone]
    show applyAll _ _ = applyAll (applyAll _ _) _
    rw [List.flatten_append, List.map_append, applyAll_append]
    simp
  split
  · rename_i hnil
    refine wp_pure ⟨hnext, ?_⟩
    rw [hsent, hnil]
    exact hw'
  · rename_i first rest hchunk
    refine ends_graphWrite (fun w'' hw'' => ?_) (hsome queries hqueries w' hw')
    cases hw''
    have hquery : Stores g w ((w.stored g).with (sent (queries ++ [chunk])))
        (w'.setLive g (((w'.live g).getD {}).query (chunkQuery first (first :: rest)))) := by
      have hstored : ((w'.live g).getD {}).query (chunkQuery first (first :: rest)) =
          (w.stored g).with (sent (queries ++ [chunk])) := by
        have hwas : (w'.live g).getD {} = (w.stored g).with (sent queries) := hw'.2
        rw [hwas, hsent, hchunk]
        rfl
      rw [hstored]
      exact hw'.trans (stores_setLive g w' _)
    exact ⟨⟨hnext, hquery⟩, hsome _ hnext _ hquery⟩

/-- **The decoded entries of a page take effect, or some of them do.** -/
theorem ends_applyDecoded (g : String) (w : World) {batchSize : ℕ} (hb : 1 ≤ batchSize) (decoded : List Positioned) :
    wp (do
      ensureIndexes decoded
      applyDecoded (queryLive g) (fun _ => pure ()) batchSize decoded)
      (Ends (fun _ => Stores g w ((w.stored g).with (applyAll (w.stored g).content (decoded.map Prod.snd))))
        (SomeOf g w (decoded.map Prod.snd))) w := by
  have hnone : SomeOf g w (decoded.map Prod.snd) w := ⟨[], by simp, Stores.refl g w⟩
  refine ends_bind (R := fun _ w' => w = w') ?_ ?_
  · unfold ensureIndexes
    split
    · exact wp_pure rfl
    · exact ends_graphRead rfl hnone
  rintro - _ rfl
  have hall : (runs decoded).flatten = decoded := runs_flatten decoded
  conv in Stores g w _ => rw [← hall]
  refine ends_forM (fun done w' => Stores g w
    ((w.stored g).with (applyAll (w.stored g).content (done.flatten.map Prod.snd))) w')
    (fun done run todo hsplit w' hw' => ?_) (Stores.refl g w)
  have hmem : run ∈ runs decoded := by
    rw [hsplit]
    exact List.mem_append_right _ (List.mem_cons_self ..)
  have hrun : IsRun (run.map Prod.snd) := mem_runs hmem
  have hin : ∀ x ∈ done.flatten ++ run, x ∈ decoded := by
    intro x hx
    rw [← hall, hsplit, List.flatten_append, List.flatten_cons, ← List.append_assoc]
    exact List.mem_append_left _ hx
  have hflat : (done ++ [run]).flatten = done.flatten ++ run := by simp
  rw [hflat]
  refine ends_bind (ends_sendRun hb hrun hin hw') fun _ w'' hw'' => ?_
  split
  · exact wp_pure hw''
  · exact wp_pure hw''

/-! ## The log and its checkpoint -/

/-- The part of a graph's log that can be replayed. -/
def World.sound (w : World) (g : String) : List Primitive := soundFrom 1 (w.entries g)

/-- The checkpoint of a graph at the highest position up to a bound. -/
def World.highestCheckpoint (w : World) (g : String) (position : ℕ) : Option DigestCheckpoint :=
  ((w.checkpoints.filter fun c => c.graph = g ∧ c.position ≤ position).mergeSort
    fun a b => b.position ≤ a.position).head?

/-- The checkpoint a replay compares with. -/
def World.replayCheckpoint (w : World) (g : String) : Option DigestCheckpoint :=
  w.highestCheckpoint g (w.lastPosition g)

/-- Where a replay compares; `0` is nowhere. -/
def World.verifyAt (w : World) (g : String) : ℕ := ((w.replayCheckpoint g).map DigestCheckpoint.position).getD 0

/-- **What the log tables promise**: positions from 1 on in ascending order, a marker within the log, checkpoints at
positions of the log; and what the gateway promises: every entry finds the nodes it needs at its turn. -/
structure LogReady (g : String) (w : World) : Prop where
  positive : ∀ row ∈ w.entries g, 1 ≤ row.position
  ascending : (w.entries g).Pairwise fun a b => a.position < b.position
  logged : 0 < w.lastPosition g
  marker : w.applied g ≤ w.lastPosition g
  checkpoints : ∀ c ∈ w.checkpoints, c.graph = g → 1 ≤ c.position
  met : NeedsMet (∅ : Graph) (writesOf (w.sound g))

section Ready

variable {g : String} {w : World} {k n : ℕ}

theorem le_lastPositionOf {rows : List LogRow} {row : LogRow} (h : row ∈ rows) :
    row.position ≤ lastPositionOf rows := by
  induction rows with
  | nil => simp at h
  | cons first rows ih =>
    show row.position ≤ max first.position (lastPositionOf rows)
    rcases List.mem_cons.1 h with rfl | h
    · exact le_max_left _ _
    · exact (ih h).trans (le_max_right _ _)

theorem sound_le_head (w : World) (g : String) : (w.sound g).length ≤ w.lastPosition g := by
  by_cases hnil : (w.sound g).length = 0
  · omega
  · have hlast : (w.sound g).length - 1 < (soundFrom 1 (w.entries g)).length := by
      show _ < (w.sound g).length
      omega
    obtain ⟨row, hrow, hposition⟩ := soundFrom_position hlast
    have hle : row.position ≤ w.lastPosition g := le_lastPositionOf (List.mem_of_getElem? hrow)
    omega

theorem LogReady.index_lt (h : LogReady g w) {i : ℕ} {row : LogRow} (hrow : (w.entries g)[i]? = some row) :
    i < row.position := by
  have hgen : ∀ (rows : List LogRow) (i bound : ℕ), (∀ row ∈ rows, bound ≤ row.position) →
      rows.Pairwise (fun a b => a.position < b.position) → rows[i]? = some row → i + bound ≤ row.position := by
    intro rows
    induction rows with
    | nil => intro i bound _ _ hi; simp at hi
    | cons first rows ih =>
      intro i bound hbound hasc hi
      cases i with
      | zero =>
        have hfirst := hbound row (List.mem_of_getElem? hi)
        omega
      | succ i =>
        rw [List.pairwise_cons] at hasc
        have hfirst := hbound first (by simp)
        have hlater := ih i (bound + 1) (fun r hr => by have := hasc.1 r hr; omega) hasc.2 (by simpa using hi)
        omega
  have hall := hgen (w.entries g) i 1 h.positive h.ascending hrow
  omega

/-- What is read after the record is the log from there. -/
theorem LogReady.filter_eq (h : LogReady g w) (hk : k ≤ (w.sound g).length) :
    (w.entries g).filter (fun row => k < row.position) = (w.entries g).drop k := by
  conv_lhs => rw [← List.take_append_drop k (w.entries g), List.filter_append]
  have hfirst : ((w.entries g).take k).filter (fun row => k < row.position) = [] := by
    rw [List.filter_eq_nil_iff]
    intro row hrow
    obtain ⟨i, hi⟩ := List.mem_iff_getElem?.1 hrow
    rw [List.getElem?_take] at hi
    split at hi
    · rename_i hik
      have hsound : i < (soundFrom 1 (w.entries g)).length := by
        show i < (w.sound g).length
        omega
      obtain ⟨row', hrow', hposition⟩ := soundFrom_position hsound
      rw [hi] at hrow'
      cases hrow'
      simp only [decide_eq_true_eq]
      omega
    · cases hi
  have hrest : ((w.entries g).drop k).filter (fun row => k < row.position) = (w.entries g).drop k := by
    rw [List.filter_eq_self]
    intro row hrow
    obtain ⟨i, hi⟩ := List.mem_iff_getElem?.1 hrow
    rw [List.getElem?_drop] at hi
    have hlt := h.index_lt hi
    simp only [decide_eq_true_eq]
    omega
  rw [hfirst, hrest, List.nil_append]

theorem verifyAt_of_checkpoint {c : DigestCheckpoint} (hc : w.replayCheckpoint g = some c) :
    w.verifyAt g = c.position := by
  unfold World.verifyAt
  rw [hc]
  rfl

theorem checkpoint_mem {position : ℕ} {c : DigestCheckpoint} (hc : w.highestCheckpoint g position = some c) :
    c ∈ w.checkpoints ∧ c.graph = g ∧ c.position ≤ position := by
  have hmem := List.mem_of_mem_head? (Option.mem_def.2 hc)
  rw [List.mem_mergeSort, List.mem_filter] at hmem
  simpa using hmem

theorem LogReady.checkpoint_pos (h : LogReady g w) {c : DigestCheckpoint} (hc : w.replayCheckpoint g = some c) :
    0 < w.verifyAt g ∧ w.verifyAt g ≤ w.lastPosition g := by
  obtain ⟨hmem, hg, hle⟩ := checkpoint_mem hc
  have hpos := h.checkpoints c hmem hg
  rw [verifyAt_of_checkpoint hc]
  exact ⟨hpos, hle⟩

theorem checkpoint_of_verifyAt (hv : 0 < w.verifyAt g) : ∃ c, w.replayCheckpoint g = some c := by
  cases hc : w.replayCheckpoint g with
  | some c => exact ⟨c, rfl⟩
  | none =>
    unfold World.verifyAt at hv
    rw [hc] at hv
    simp at hv

theorem LogReady.verifyAt_le (h : LogReady g w) : w.verifyAt g ≤ w.lastPosition g := by
  by_cases hv : 0 < w.verifyAt g
  · obtain ⟨c, hc⟩ := checkpoint_of_verifyAt hv
    exact (h.checkpoint_pos hc).2
  · omega

/-- The part of a sound log up to a position, and the part beyond it, each find what they need. -/
theorem LogReady.met_parts (h : LogReady g w) (v : ℕ) :
    NeedsMet (∅ : Graph) (writesOf ((w.sound g).take v)) ∧
      NeedsMet (applyAll ∅ ((w.sound g).take v)) (writesOf ((w.sound g).drop v)) := by
  have hall := h.met
  rw [← List.take_append_drop v (w.sound g), writesOf_append, needsMet_append] at hall
  rw [identified_empty.writes]
  exact hall

end Ready

/-! ## Where a replay stands -/

section Replay

variable (digest : Graph → String) (g : String) (w₀ : World)

/-- The graph at the checkpoint is the one the checkpoint holds the digest of. -/
def Matched : Prop := ∀ c, w₀.replayCheckpoint g = some c →
  digest (applyAll ∅ ((w₀.sound g).take c.position)) = c.canonicalDigest

/-- The log decodes from its first position to its last, and its highest checkpoint holds the digest of its fold. -/
def Replayable : Prop := (w₀.sound g).length = w₀.lastPosition g ∧ Matched digest g w₀

/-- **Where an unfinished replay stands**: short of the checkpoint with nothing past it applied, or past the
checkpoint, which the graph matched. -/
inductive Standing (applied : ℕ) (verified : ℤ) (c : Graph) : Prop
  | short (hv : 0 < w₀.verifyAt g) (hlt : applied ≤ w₀.verifyAt g) (hunverified : verified ≠ w₀.verifyAt g)
      (hle : applied ≤ (w₀.sound g).length) (hpassed : Passed ∅ ((w₀.sound g).take (w₀.verifyAt g)) applied c)
  | past (hge : w₀.verifyAt g ≤ applied) (hverified : 0 < w₀.verifyAt g → verified = w₀.verifyAt g)
      (hle : applied ≤ (w₀.sound g).length) (hmatched : Matched digest g w₀)
      (hpassed : Passed (applyAll ∅ ((w₀.sound g).take (w₀.verifyAt g))) ((w₀.sound g).drop (w₀.verifyAt g))
        (applied - w₀.verifyAt g) c)

/-- The graph is rebuilt: the fold of the log, at its head, and as the checkpoint says. -/
structure Finished (w : World) : Prop where
  content : (w.stored g).content = applyAll ∅ (w₀.sound g)
  whole : (w₀.sound g).length = w₀.lastPosition g
  marker : w.applied g = w₀.lastPosition g
  matched : Matched digest g w₀

/-- What the record in the graph says is so. -/
def RecordTrue (w : World) : Prop :=
  match (w.stored g).replayState with
  | none => (w.stored g).content = ∅ ∨ Finished digest g w₀ w
  | some recorded =>
    if recorded.failed then
      (w.stored g).content = applyAll ∅ ((w₀.sound g).take recorded.position) ∧ ¬ Replayable digest g w₀
    else Standing digest g w₀ recorded.position recorded.verified (w.stored g).content

/-- **What replays keep**: the log and its checkpoints as they were, the marker within the log, the record true. -/
structure Underway (w : World) : Prop where
  entries : w.entries g = w₀.entries g
  checkpoints : (w.checkpoints.filter fun c => c.graph = g) = w₀.checkpoints.filter fun c => c.graph = g
  marker : w.applied g ≤ w₀.lastPosition g
  record : RecordTrue digest g w₀ w

/-- What an exception of a replay says of the graph it leaves. -/
def Failure : ReplayErr → World → Prop
  | .digestMismatch _ position expected actual, w =>
    (w.stored g).content = applyAll ∅ ((w₀.sound g).take position) ∧ actual = digest (w.stored g).content ∧
      actual ≠ expected ∧ w₀.replayCheckpoint g = some ⟨g, position, expected⟩
  | .logGap _ position, w | .logCorruptEntry _ position, w =>
    position = (w₀.sound g).length + 1 ∧ position ≤ w₀.lastPosition g ∧
      (w.stored g).content = applyAll ∅ (w₀.sound g)
  | .unverifiable .., _ => False
  | .gated _ position, w =>
    (w.stored g).content = applyAll ∅ ((w₀.sound g).take position) ∧ ¬ Replayable digest g w₀
  | .stopped _ position, w => ∃ verified, Standing digest g w₀ position verified (w.stored g).content
  | .outage _, _ => True

variable {digest : Graph → String} {g : String} {w₀ : World} {applied n : ℕ} {verified : ℤ} {c : Graph}

section Standing

theorem Standing.le (h : Standing digest g w₀ applied verified c) : applied ≤ (w₀.sound g).length := by
  cases h with
  | short _ _ _ hle _ => exact hle
  | past _ _ hle _ _ => exact hle

theorem standing_fresh (h : LogReady g w₀) : Standing digest g w₀ 0 notVerified ∅ := by
  by_cases hv : 0 < w₀.verifyAt g
  · refine .short hv (Nat.zero_le _) ?_ (Nat.zero_le _) .start
    unfold notVerified
    omega
  · have hzero : w₀.verifyAt g = 0 := by omega
    refine .past (by omega) (fun hpos => absurd hpos hv) (Nat.zero_le _) (fun c hc => ?_) ?_
    · exact absurd (h.checkpoint_pos hc).1 hv
    · rw [hzero]
      exact .start

/-- The graph at the checkpoint. -/
theorem Standing.atCheckpoint (hready : LogReady g w₀) (hv : 0 < w₀.verifyAt g) (hunverified : verified ≠ w₀.verifyAt g)
    (h : Standing digest g w₀ (w₀.verifyAt g) verified c) : c = applyAll ∅ ((w₀.sound g).take (w₀.verifyAt g)) := by
  cases h with
  | short _ _ _ _ hpassed =>
    refine hpassed.whole identified_empty (hready.met_parts _).1 ?_
    rw [List.length_take]
    omega
  | past _ hverified _ _ _ => exact absurd (hverified hv) hunverified

/-- A graph that matched its checkpoint may go past it. -/
theorem standing_verified (hle : w₀.verifyAt g ≤ (w₀.sound g).length) (hmatched : Matched digest g w₀) :
    Standing digest g w₀ (w₀.verifyAt g) (w₀.verifyAt g)
      (applyAll ∅ ((w₀.sound g).take (w₀.verifyAt g))) := by
  refine .past le_rfl (fun _ => rfl) hle hmatched ?_
  rw [Nat.sub_self]
  exact .start

/-- Not on the checkpoint without having compared. -/
def OnTrack (g : String) (w₀ : World) (applied : ℕ) (verified : ℤ) : Prop :=
  0 < w₀.verifyAt g → applied = w₀.verifyAt g → verified = w₀.verifyAt g

/-- **One page**: some of it, all of it, or what there is of it. -/
theorem Standing.page (hready : LogReady g w₀) (h : Standing digest g w₀ applied verified c)
    (htrack : OnTrack g w₀ applied verified) (hcut : applied < w₀.verifyAt g → applied + n ≤ w₀.verifyAt g) :
    let page := ((w₀.sound g).drop applied).take n
    (∀ some : List Primitive, (∀ p ∈ some, p ∈ page) → Standing digest g w₀ applied verified (applyAll c some)) ∧
      (applied + n ≤ (w₀.sound g).length → Standing digest g w₀ (applied + n) verified (applyAll c page)) ∧
      ((w₀.sound g).length < applied + n → applyAll c page = applyAll ∅ (w₀.sound g)) := by
  intro page
  cases h with
  | short hv hlt hunverified hle hpassed =>
    have hbefore : applied < w₀.verifyAt g := by
      rcases Nat.lt_or_ge applied (w₀.verifyAt g) with hlt | hge
      · exact hlt
      · exact absurd (htrack hv (by omega)) hunverified
    have hend := hcut hbefore
    have hpage : page = (((w₀.sound g).take (w₀.verifyAt g)).drop applied).take n := by
      show ((w₀.sound g).drop applied).take n = _
      rw [List.drop_take, List.take_take]
      congr 1
      omega
    refine ⟨fun some hsome => ?_, fun hwhole => ?_, fun hshort => ?_⟩
    · refine .short hv hlt hunverified hle (hpassed.broken fun p hp => ?_)
      exact List.mem_of_mem_take (hpage ▸ hsome p hp)
    · rw [hpage]
      exact .short hv hend hunverified hwhole (hpassed.record n)
    · -- the sound part ends before the checkpoint
      have hall : (w₀.sound g).take (w₀.verifyAt g) = w₀.sound g := List.take_of_length_le (by omega)
      rw [hall] at hpassed
      have hrest : page = (w₀.sound g).drop applied := List.take_of_length_le (by rw [List.length_drop]; omega)
      have hmet := hready.met
      rw [hrest]
      exact hpassed.finish identified_empty hmet
  | past hge hverified hle hmatched hpassed =>
    have hsame : w₀.verifyAt g + (applied - w₀.verifyAt g) = applied := by omega
    have hdrop : ((w₀.sound g).drop (w₀.verifyAt g)).drop (applied - w₀.verifyAt g) = (w₀.sound g).drop applied := by
      rw [List.drop_drop, hsame]
    refine ⟨fun some hsome => ?_, fun hwhole => ?_, fun hshort => ?_⟩
    · refine .past hge hverified hle hmatched (hpassed.broken fun p hp => ?_)
      rw [hdrop]
      exact List.mem_of_mem_take (hsome p hp)
    · refine .past (by omega) hverified hwhole hmatched ?_
      have hnext := hpassed.record n
      rw [hdrop] at hnext
      have hcount : applied + n - w₀.verifyAt g = applied - w₀.verifyAt g + n := by omega
      rw [hcount]
      exact hnext
    · have hrest : page = (w₀.sound g).drop applied := List.take_of_length_le (by rw [List.length_drop]; omega)
      have hend := hpassed.finish (identified_empty.applyAll _) (hready.met_parts _).2
      rw [hdrop] at hend
      rw [hrest, hend, ← applyAll_append, List.take_append_drop]

/-- Past the checkpoint at the end of the log the graph is the fold of the log. -/
theorem Standing.whole (hready : LogReady g w₀) (h : Standing digest g w₀ applied verified c)
    (htrack : OnTrack g w₀ applied verified) (hend : w₀.lastPosition g ≤ applied) :
    c = applyAll ∅ (w₀.sound g) ∧ (w₀.sound g).length = w₀.lastPosition g ∧ Matched digest g w₀ := by
  have hle := h.le
  have hhead := sound_le_head w₀ g
  have hv := hready.verifyAt_le
  cases h with
  | short hpos hlt hunverified _ _ => exact absurd (htrack hpos (by omega)) hunverified
  | past hge _ _ hmatched hpassed =>
    refine ⟨?_, by omega, hmatched⟩
    have hcontent := hpassed.whole (identified_empty.applyAll _) (hready.met_parts _).2
      (by rw [List.length_drop]; omega)
    rw [hcontent, ← applyAll_append, List.take_append_drop]

end Standing

/-! ## What a program of the replayer leaves -/

/-- `R` where it returns; where it raises the invariant and what the exception says; the invariant where it dies. -/
def Leaves {α : Type} (digest : Graph → String) (g : String) (w₀ : World) (R : α → World → Prop) :
    Exit ReplayErr α → World → Prop
  | .returned a, w => R a w
  | .raised e, w => Underway digest g w₀ w ∧ Failure digest g w₀ e w
  | .died, w => Underway digest g w₀ w

section Programs

variable {α β : Type} {R : α → World → Prop} {S : β → World → Prop} {w w' : World} {s : StoredGraph}

theorem leaves_bind {p : Rp α} {f : α → Rp β} (hp : wp p (Leaves digest g w₀ R) w)
    (hf : ∀ a w', R a w' → wp (f a) (Leaves digest g w₀ S) w') : wp (p >>= f) (Leaves digest g w₀ S) w := by
  refine wp_bind (wp_mono hp fun x w' hx => ?_)
  cases x with
  | returned a => exact hf a w' hx
  | raised e => exact hx
  | died => exact hx

theorem leaves_onStores {p : Gw α} (hp : wp p (Ends R (Underway digest g w₀)) w) :
    wp (onStores p) (Leaves digest g w₀ R) w := by
  refine wp_translate (wp_mono hp fun x w' hx => ?_)
  cases x with
  | returned a => exact hx
  | raised e => exact ⟨hx, trivial⟩
  | died => exact hx

theorem leaves_mono {p : Rp α} {R' : α → World → Prop} (hp : wp p (Leaves digest g w₀ R) w)
    (hR : ∀ a w', R a w' → R' a w') : wp p (Leaves digest g w₀ R') w := by
  refine wp_mono hp fun x w' hx => ?_
  cases x with
  | returned a => exact hR a w' hx
  | raised e => exact hx
  | died => exact hx

/-- A check that raises, and the program after it. -/
theorem leaves_unless {check : Prop} [Decidable check] {e : ReplayErr} {f : PUnit → Rp α}
    (hraise : check → Underway digest g w₀ w ∧ Failure digest g w₀ e w)
    (hf : ¬ check → wp (f ⟨⟩) (Leaves digest g w₀ R) w) :
    wp (if check then raise e >>= f else f ⟨⟩) (Leaves digest g w₀ R) w := by
  split
  · rename_i h
    exact leaves_bind (R := fun _ _ => False) (wp_raise (hraise h)) fun _ _ h => h.elim
  · rename_i h
    exact hf h

/-- A step that changes only what is stored under the key keeps what the new record says, if it is so. -/
theorem Underway.store (h : Underway digest g w₀ w) (hs : Stores g w s w')
    (hrecord : RecordTrue digest g w₀ w') : Underway digest g w₀ w' := by
  obtain ⟨⟨live, rfl⟩, -⟩ := hs
  exact ⟨h.entries, h.checkpoints, h.marker, hrecord⟩

/-- The record in the graph is the progress. -/
def Recorded (g : String) (progress : Progress) (w : World) : Prop :=
  ∃ kind, (w.stored g).replayState = some ⟨progress.applied, false, kind, progress.verified⟩

theorem Recorded.standing {progress : Progress} (h : Recorded g progress w) (hU : Underway digest g w₀ w) :
    Standing digest g w₀ progress.applied progress.verified (w.stored g).content := by
  obtain ⟨kind, hkind⟩ := h
  have hrecord := hU.record
  unfold RecordTrue at hrecord
  rw [hkind] at hrecord
  exact hrecord

/-- The content moved on from where the record stands. -/
theorem Recorded.content {progress : Progress} (h : Recorded g progress w) (hU : Underway digest g w₀ w) {c : Graph}
    (hs : Stores g w ((w.stored g).with c) w') (hc : Standing digest g w₀ progress.applied progress.verified c) :
    Underway digest g w₀ w' ∧ Recorded g progress w' ∧ (w'.stored g).content = c := by
  obtain ⟨kind, hkind⟩ := h
  have hstate : (w'.stored g).replayState = some ⟨progress.applied, false, kind, progress.verified⟩ := by
    rw [hs.2]
    exact hkind
  have hcontent : (w'.stored g).content = c := by
    rw [hs.2]
    rfl
  refine ⟨hU.store hs ?_, ⟨kind, hstate⟩, hcontent⟩
  unfold RecordTrue
  rw [hstate, hcontent]
  exact hc

/-- A true record is written. -/
theorem leaves_record {progress : Progress} (hU : Underway digest g w₀ w)
    (hstanding : Standing digest g w₀ progress.applied progress.verified (w.stored g).content) :
    wp (onStores (writeReplayState g progress.record)) (Leaves digest g w₀ fun _ w' =>
      Underway digest g w₀ w' ∧ Recorded g progress w' ∧ (w'.stored g).content = (w.stored g).content) w := by
  refine leaves_onStores (ends_writeReplayState _ (fun w' hw' => ?_) hU)
  have hstate : (w'.stored g).replayState = some ⟨progress.applied, false, "", progress.verified⟩ := by
    rw [hw'.2]
    rfl
  have hcontent : (w'.stored g).content = (w.stored g).content := by rw [hw'.2]
  have hU' : Underway digest g w₀ w' := by
    refine hU.store hw' ?_
    unfold RecordTrue
    rw [hstate, hcontent]
    exact hstanding
  exact ⟨⟨hU', ⟨"", hstate⟩, hcontent⟩, hU'⟩

/-- **`_verify`** on the checkpoint, and the record of it. -/
theorem leaves_verifyAndRecord (hready : LogReady g w₀) {checkpoint : DigestCheckpoint}
    (hcheckpoint : w₀.replayCheckpoint g = some checkpoint) {progress : Progress} (hU : Underway digest g w₀ w)
    (hrecorded : Recorded g progress w) (hat : progress.applied = checkpoint.position)
    (hunverified : progress.verified ≠ checkpoint.position) :
    wp (verifyAndRecord digest g checkpoint progress) (Leaves digest g w₀ fun verified w' =>
      verified = progress.verifiedAt checkpoint.position ∧ Underway digest g w₀ w' ∧ Recorded g verified w') w := by
  have hv := (hready.checkpoint_pos hcheckpoint).1
  have hposition := verifyAt_of_checkpoint hcheckpoint
  have hstanding := hrecorded.standing hU
  rw [hat, ← hposition] at hstanding
  have hcontent := hstanding.atCheckpoint hready hv (by rw [hposition]; exact hunverified)
  have hgraph : checkpoint.graph = g := (checkpoint_mem hcheckpoint).2.1
  unfold verifyAndRecord verify
  refine leaves_bind (R := fun _ w' => w = w' ∧ digest (w.stored g).content = checkpoint.canonicalDigest) ?_ ?_
  · refine leaves_bind (R := fun actual w' => w = w' ∧ actual = digest (w.stored g).content)
      (leaves_onStores (ends_graphRead ⟨rfl, rfl⟩ hU)) ?_
    rintro _ _ ⟨rfl, rfl⟩
    split
    · rename_i hmismatch
      refine wp_raise ⟨hU, ?_, rfl, hmismatch, ?_⟩
      · rw [hcontent, hposition]
      · rw [hcheckpoint, ← hgraph]
    · rename_i hsame
      exact wp_pure ⟨rfl, not_not.1 hsame⟩
  · rintro _ _ ⟨rfl, hmatch⟩
    have hmatched : Matched digest g w₀ := by
      intro c hc
      rw [hcheckpoint] at hc
      cases hc
      rw [← hmatch, hcontent, hposition]
    have hnext : Standing digest g w₀ (progress.verifiedAt checkpoint.position).applied
        (progress.verifiedAt checkpoint.position).verified (w.stored g).content := by
      have hverified := standing_verified hstanding.le hmatched
      rw [← hcontent, hposition, ← hat] at hverified
      show Standing _ _ _ progress.applied (checkpoint.position : ℤ) _
      rw [← hat]
      exact hverified
    refine leaves_bind (leaves_record hU hnext) ?_
    rintro _ w' ⟨hU', hrecorded', -⟩
    exact wp_pure ⟨rfl, hU', hrecorded'⟩

/-- **`_start_or_resume`** over a graph that is wiped or whose record is true. -/
theorem leaves_startOrResume (hready : LogReady g w₀) (hU : Underway digest g w₀ w)
    (hempty : (w.stored g).replayState = none → (w.stored g).content = ∅) :
    wp (startOrResume digest g (w₀.replayCheckpoint g)) (Leaves digest g w₀ fun progress w' =>
      Underway digest g w₀ w' ∧ Recorded g progress w' ∧ OnTrack g w₀ progress.applied progress.verified) w := by
  unfold startOrResume
  refine leaves_bind (R := fun recorded w' => w = w' ∧ recorded = (w.stored g).replayState)
    (leaves_onStores (ends_graphRead ⟨rfl, rfl⟩ hU)) ?_
  rintro recorded _ ⟨rfl, hrecorded⟩
  cases recorded with
  | none =>
    -- a replay that has no record starts from a wiped graph
    let fresh : Progress := ⟨0, notVerified, 0⟩
    have hfresh : Standing digest g w₀ fresh.applied fresh.verified (w.stored g).content := by
      rw [hempty hrecorded.symm]
      exact standing_fresh hready
    refine leaves_bind (leaves_record hU hfresh) ?_
    rintro _ w' ⟨hU', hrecorded', -⟩
    refine wp_pure ⟨hU', hrecorded', fun hv hzero => ?_⟩
    change 0 = w₀.verifyAt g at hzero
    omega
  | some recorded =>
    obtain ⟨position, failed, kind, verified⟩ := recorded
    have htrue := hU.record
    unfold RecordTrue at htrue
    rw [← hrecorded] at htrue
    dsimp only at htrue
    refine leaves_unless (fun hfailed => ?_) fun hrunning => ?_
    · change failed = true at hfailed
      rw [if_pos hfailed] at htrue
      exact ⟨hU, htrue⟩
    · have hfailed : failed = false := by simpa using hrunning
      subst hfailed
      have hat : Recorded g ⟨position, verified, position + 1⟩ w := ⟨kind, hrecorded.symm⟩
      cases hcheckpoint : w₀.replayCheckpoint g with
      | none =>
        refine wp_pure ⟨hU, hat, fun hv => ?_⟩
        unfold World.verifyAt at hv
        rw [hcheckpoint] at hv
        simp at hv
      | some checkpoint =>
        have hposition := verifyAt_of_checkpoint hcheckpoint
        have hpos := (hready.checkpoint_pos hcheckpoint).1
        dsimp only
        split
        · refine wp_pure ⟨hU, hat, fun _ hsame => ?_⟩
          change position = w₀.verifyAt g at hsame
          omega
        split
        · rename_i hverified
          refine wp_pure ⟨hU, hat, fun _ _ => ?_⟩
          rw [hposition]
          exact hverified
        rename_i hnotShort hunverified
        split
        · -- past the checkpoint and not compared: no replay leaves that
          rename_i hpast
          have hstanding := hat.standing hU
          cases hstanding with
          | short _ hlt _ _ _ =>
            change position ≤ w₀.verifyAt g at hlt
            omega
          | past _ hverified _ _ _ =>
            have hsame := hverified hpos
            rw [hposition] at hsame
            exact absurd hsame hunverified
        · rename_i hnotPast
          have hexact : position = checkpoint.position := by omega
          refine leaves_mono (leaves_verifyAndRecord hready hcheckpoint hU hat hexact hunverified) ?_
          rintro progress w' ⟨rfl, hU', hrecorded'⟩
          refine ⟨hU', hrecorded', fun _ _ => ?_⟩
          rw [hposition]
          rfl

/-- The content of a page, or some of it, is applied. -/
theorem leaves_applyContent (hready : LogReady g w₀) {progress : Progress} (hU : Underway digest g w₀ w)
    (hrecorded : Recorded g progress w) (htrack : OnTrack g w₀ progress.applied progress.verified)
    (hcut : progress.applied < w₀.verifyAt g → progress.applied + n ≤ w₀.verifyAt g) {batchSize : ℕ}
    (hb : 1 ≤ batchSize) {decoded : List Positioned}
    (hdecoded : decoded.map Prod.snd = ((w₀.sound g).drop progress.applied).take n) :
    wp (onStores do
        ensureIndexes decoded
        applyDecoded (queryLive g) (fun _ => pure ()) batchSize decoded)
      (Leaves digest g w₀ fun _ w' => Underway digest g w₀ w' ∧ Recorded g progress w' ∧
        (w'.stored g).content = applyAll (w.stored g).content (decoded.map Prod.snd)) w := by
  have hstanding := hrecorded.standing hU
  have hsome := (hstanding.page hready htrack hcut).1
  refine leaves_onStores (ends_mono (ends_applyDecoded g w hb decoded) (fun _ w' hw' => ?_) fun w' hw' => ?_)
  · exact hrecorded.content hU hw' (hsome _ fun p hp => hdecoded ▸ hp)
  · obtain ⟨some, hin, hw'⟩ := hw'
    exact (hrecorded.content hU hw' (hsome some fun p hp => hdecoded ▸ hin p hp)).1

/-- **`_advance`**: one page applied and recorded, or the log found unsound. -/
theorem leaves_advance (replayer : GraphReplayer) (hready : LogReady g w₀) {progress : Progress}
    (hU : Underway digest g w₀ w) (hrecorded : Recorded g progress w)
    (htrack : OnTrack g w₀ progress.applied progress.verified)
    (hcut : progress.applied < w₀.verifyAt g → progress.applied + n ≤ w₀.verifyAt g)
    (hhead : progress.applied + n ≤ w₀.lastPosition g) :
    wp (advance replayer g (((w₀.entries g).drop progress.applied).take n) progress n)
      (Leaves digest g w₀ fun moved w' => moved = progress.movedTo (progress.applied + n) ∧
        Underway digest g w₀ w' ∧ Recorded g moved w') w := by
  have hstanding := hrecorded.standing hU
  obtain ⟨hsome, hwhole, hshort⟩ := hstanding.page hready htrack hcut
  unfold advance applyPage
  obtain ⟨hdecoded, hend⟩ : _ ∧ _ := @decodePage_eq g progress.applied n (w₀.entries g) hstanding.le
  generalize decodePage g (((w₀.entries g).drop progress.applied).take n) (progress.applied + 1) n = page
    at hdecoded hend
  have hprimitives : page.1.map Prod.snd = ((w₀.sound g).drop progress.applied).take n := by
    rw [hdecoded, map_snd_numbered]
    rfl
  refine leaves_bind (R := fun next w' => next = progress.applied + n + 1 ∧ Underway digest g w₀ w' ∧
    Recorded g progress w' ∧ Standing digest g w₀ (progress.applied + n) progress.verified (w'.stored g).content) ?_ ?_
  · -- what the page decoded to is applied before its failure is raised
    have hpage : ∀ (rest : Rp ℕ), (page.2 = none → rest = pure (progress.applied + 1 + page.1.length)) →
        (∀ e, page.2 = some e → rest = raise e) → ∀ w', Underway digest g w₀ w' ∧ Recorded g progress w' ∧
        (w'.stored g).content = applyAll (w.stored g).content (page.1.map Prod.snd) →
        wp rest
          (Leaves digest g w₀ fun next w' => next = progress.applied + n + 1 ∧ Underway digest g w₀ w' ∧
            Recorded g progress w' ∧
            Standing digest g w₀ (progress.applied + n) progress.verified (w'.stored g).content) w' := by
      rintro rest hpure hraise w' ⟨hU', hrecorded', happlied⟩
      rw [hprimitives] at happlied
      rcases hend with ⟨hnone, hin⟩ | ⟨e, he, hout, hfailure⟩
      · rw [hpure hnone]
        have hin : progress.applied + n ≤ (w₀.sound g).length := hin
        have hlength : page.1.length = n := by
          rw [← List.length_map (f := Prod.snd), hprimitives, List.length_take, List.length_drop]
          omega
        refine wp_pure ⟨by omega, hU', hrecorded', ?_⟩
        rw [happlied]
        exact hwhole hin
      · rw [hraise e he]
        have hout : (w₀.sound g).length < progress.applied + n := hout
        have hfold : (w'.stored g).content = applyAll ∅ (w₀.sound g) := happlied.trans (hshort hout)
        rcases hfailure with rfl | rfl
        · exact wp_raise ⟨hU', rfl, by omega, hfold⟩
        · exact wp_raise ⟨hU', rfl, by omega, hfold⟩
    dsimp only
    split
    · rename_i hnil
      have hnone : page.1 = [] := List.isEmpty_iff.1 hnil
      refine hpage _ (fun h => by rw [h]) (fun e h => by rw [h]) w ⟨hU, hrecorded, ?_⟩
      rw [hnone]
      rfl
    · exact leaves_bind (leaves_applyContent hready hU hrecorded htrack hcut replayer.batchSize_pos hprimitives)
        fun _ w' hw' => hpage _ (fun h => by rw [h]) (fun e h => by rw [h]) w' hw'
  · rintro next w' ⟨rfl, hU', hrecorded', hnext⟩
    have hback : progress.applied + n + 1 - 1 = progress.applied + n := by omega
    rw [hback]
    refine leaves_bind (@leaves_record _ _ _ _ (progress.movedTo (progress.applied + n)) hU' hnext) ?_
    rintro _ w'' ⟨hU'', hrecorded'', -⟩
    exact wp_pure ⟨rfl, hU'', hrecorded''⟩

theorem leaves_shouldStop (hU : Underway digest g w₀ w) :
    wp shouldStop (Leaves digest g w₀ fun _ w' => w = w') w := by
  refine wp_call hU fun fate => ?_
  cases fate with
  | dies => exact hU
  | _ => exact rfl

/-- A page is cut at the head and at the checkpoint, and holds at least one entry. -/
theorem pageLimit_bounds (replayer : GraphReplayer) {head v : ℕ} (h : applied < head) :
    1 ≤ pageLimit replayer (applied + 1) head v ∧ applied + pageLimit replayer (applied + 1) head v ≤ head ∧
      (applied < v → applied + pageLimit replayer (applied + 1) head v ≤ v) := by
  have hsize := replayer.pageSize_pos
  unfold pageLimit
  dsimp only
  split <;> omega

/-- What a page reads. -/
theorem leaves_readEntries (hready : LogReady g w₀) (hU : Underway digest g w₀ w)
    (hle : applied ≤ (w₀.sound g).length) (limit : ℕ) :
    wp (onStores (readEntries g applied (some limit)))
      (Leaves digest g w₀ fun entries w' => w = w' ∧ entries = ((w₀.entries g).drop applied).take limit) w := by
  rw [← hready.filter_eq hle, ← hU.entries]
  exact leaves_onStores (ends_logRead ⟨rfl, rfl⟩ hU)

/-- **The loop over the pages** comes to the head of the log. -/
theorem leaves_replayPages (replayer : GraphReplayer) (hready : LogReady g w₀) (more : ℕ) {progress : Progress}
    {pages : ℕ} (hU : Underway digest g w₀ w) (hrecorded : Recorded g progress w)
    (htrack : OnTrack g w₀ progress.applied progress.verified)
    (hmore : w₀.lastPosition g - progress.applied ≤ more) :
    wp (replayPages digest replayer g (w₀.lastPosition g) (w₀.replayCheckpoint g) more progress pages)
      (Leaves digest g w₀ fun done w' => Underway digest g w₀ w' ∧ Recorded g done.1 w' ∧
        OnTrack g w₀ done.1.applied done.1.verified ∧ w₀.lastPosition g ≤ done.1.applied) w := by
  -- by the entries that are left: every page takes at least one
  induction more generalizing w progress pages with
  | zero =>
    unfold replayPages
    have hend : w₀.lastPosition g ≤ progress.applied := by omega
    exact wp_pure ⟨hU, hrecorded, htrack, hend⟩
  | succ more ih =>
    unfold replayPages
    by_cases hend : w₀.lastPosition g ≤ progress.applied
    · rw [if_pos hend]
      exact wp_pure ⟨hU, hrecorded, htrack, hend⟩
    rw [if_neg hend]
    have hbounds := pageLimit_bounds replayer (v := w₀.verifyAt g) (Nat.lt_of_not_le hend)
    have hstanding := hrecorded.standing hU
    refine leaves_bind (leaves_shouldStop hU) ?_
    rintro stop _ rfl
    refine leaves_unless (fun _ => ⟨hU, progress.verified, hstanding⟩) fun _ => ?_
    have hverifyAt : ((w₀.replayCheckpoint g).map DigestCheckpoint.position).getD 0 = w₀.verifyAt g := rfl
    dsimp only
    rw [hverifyAt]
    generalize pageLimit replayer (progress.applied + 1) (w₀.lastPosition g) (w₀.verifyAt g) = limit at hbounds ⊢
    obtain ⟨hone, hhead, hcut⟩ := hbounds
    refine leaves_bind (leaves_readEntries hready hU hstanding.le limit) ?_
    rintro _ _ ⟨rfl, rfl⟩
    refine leaves_bind (leaves_advance replayer hready hU hrecorded htrack hcut hhead) ?_
    rintro moved w₁ ⟨hmoved, hU₁, hrecorded₁⟩
    have hnext : ∀ (next : Progress) w', next.applied = progress.applied + limit → Underway digest g w₀ w' →
        Recorded g next w' → OnTrack g w₀ next.applied next.verified →
        wp (replayPages digest replayer g (w₀.lastPosition g) (w₀.replayCheckpoint g) more next (pages + 1))
          (Leaves digest g w₀ fun done w' => Underway digest g w₀ w' ∧ Recorded g done.1 w' ∧
            OnTrack g w₀ done.1.applied done.1.verified ∧ w₀.lastPosition g ≤ done.1.applied) w' := by
      intro next w' happlied hU' hrecorded' htrack'
      exact ih hU' hrecorded' htrack' (by omega)
    have happlied : moved.applied = progress.applied + limit := by rw [hmoved]; rfl
    cases hcheckpoint : w₀.replayCheckpoint g with
    | none =>
      rw [hcheckpoint] at hnext
      refine hnext moved w₁ happlied hU₁ hrecorded₁ fun hv => ?_
      unfold World.verifyAt at hv
      rw [hcheckpoint] at hv
      simp at hv
    | some checkpoint =>
      rw [hcheckpoint] at hnext
      have hposition := verifyAt_of_checkpoint hcheckpoint
      dsimp only
      split
      · rename_i hat
        refine leaves_bind (leaves_verifyAndRecord hready hcheckpoint hU₁ hrecorded₁ hat.1 (Ne.symm hat.2)) ?_
        rintro next w₂ ⟨hverified, hU₂, hrecorded₂⟩
        refine hnext next w₂ (by rw [hverified]; exact happlied) hU₂ hrecorded₂ fun _ _ => ?_
        rw [hverified, hposition]
        rfl
      · rename_i hnot
        refine hnext moved w₁ happlied hU₁ hrecorded₁ fun _ hsame => ?_
        rw [hposition] at hsame ⊢
        by_contra hunverified
        exact hnot ⟨hsame, Ne.symm hunverified⟩

/-! ### A whole replay -/

theorem Underway.lastPosition (hU : Underway digest g w₀ w) : w.lastPosition g = w₀.lastPosition g := by
  unfold World.lastPosition
  rw [hU.entries]

theorem Underway.highestCheckpoint (hU : Underway digest g w₀ w) (position : ℕ) :
    w.highestCheckpoint g position = w₀.highestCheckpoint g position := by
  have hsplit : ∀ cs : List DigestCheckpoint, (cs.filter fun c => c.graph = g ∧ c.position ≤ position) =
      (cs.filter fun c => c.graph = g).filter fun c => c.position ≤ position := by
    intro cs
    rw [List.filter_filter]
    refine List.filter_congr fun c _ => ?_
    rw [Bool.and_comm]
    simp
  unfold World.highestCheckpoint
  rw [hsplit, hsplit, hU.checkpoints]

/-- The graph is rebuilt and its record gone. -/
def ReplayDone (digest : Graph → String) (g : String) (w₀ w : World) : Prop :=
  Underway digest g w₀ w ∧ (w.stored g).replayState = none ∧ Finished digest g w₀ w

/-- **`_replay_recorded`** ends with the graph rebuilt. -/
theorem leaves_replayRecorded (replayer : GraphReplayer) (hready : LogReady g w₀) (hU : Underway digest g w₀ w)
    (hempty : (w.stored g).replayState = none → (w.stored g).content = ∅) :
    wp (replayRecorded digest replayer g (w₀.lastPosition g)) (Leaves digest g w₀ fun report w' =>
      ReplayDone digest g w₀ w' ∧ ∃ pages resumedFrom, report = ⟨g, w₀.lastPosition g,
        if w₀.verifyAt g = 0 then none else some (w₀.verifyAt g), w₀.lastPosition g - w₀.verifyAt g, pages,
        resumedFrom⟩) w := by
  unfold replayRecorded
  refine leaves_bind (R := fun checkpoint w' => w = w' ∧ checkpoint = w₀.replayCheckpoint g)
    (leaves_onStores (ends_logRead ⟨rfl, hU.highestCheckpoint _⟩ hU)) ?_
  rintro _ _ ⟨rfl, rfl⟩
  refine leaves_bind (leaves_startOrResume hready hU hempty) ?_
  rintro progress w₁ ⟨hU₁, hrecorded₁, htrack₁⟩
  refine leaves_bind (leaves_replayPages replayer hready _ hU₁ hrecorded₁ htrack₁ le_rfl) ?_
  rintro ⟨done, pages⟩ w₂ ⟨hU₂, hrecorded₂, htrack₂, hend⟩
  obtain ⟨hcontent, hwhole, hmatched⟩ := (hrecorded₂.standing hU₂).whole hready htrack₂ hend
  refine leaves_bind (R := fun _ w' => Underway digest g w₀ w' ∧ w'.stored g = w₂.stored g ∧
    w'.applied g = w₀.lastPosition g) (leaves_onStores (ends_logWrite (fun _ w' hw' => ?_) hU₂)) ?_
  · split at hw'
    · cases hw'
    cases hw'
    have hmarker : max (w₂.applied g) (w₀.lastPosition g) = w₀.lastPosition g := by
      have hle := hU₂.marker
      omega
    have happlied : (Function.update w₂.applied g (max (w₂.applied g) (w₀.lastPosition g))) g =
        w₀.lastPosition g := by rw [Function.update_self, hmarker]
    have hU₃ : Underway digest g w₀ { w₂ with
        applied := Function.update w₂.applied g (max (w₂.applied g) (w₀.lastPosition g)) } := by
      refine ⟨hU₂.entries, hU₂.checkpoints, le_of_eq happlied, ?_⟩
      obtain ⟨kind, hkind⟩ := hrecorded₂
      have hrecord := hU₂.record
      have hstored : World.stored { w₂ with
          applied := Function.update w₂.applied g (max (w₂.applied g) (w₀.lastPosition g)) } g = w₂.stored g := rfl
      unfold RecordTrue at hrecord ⊢
      rw [hstored]
      rw [hkind] at hrecord ⊢
      exact hrecord
    exact ⟨⟨hU₃, rfl, happlied⟩, hU₃⟩
  rintro _ w₃ ⟨hU₃, hstored, happlied⟩
  -- the record goes last: until then a replay that breaks off is taken up again
  have hrebuilt : ∀ w', Stores g w₃ { w₃.stored g with replayState := none } w' → ReplayDone digest g w₀ w' := by
    intro w' hw'
    have hstate : (w'.stored g).replayState = none := by rw [hw'.2]
    have hmarker : w'.applied g = w₀.lastPosition g := by
      obtain ⟨⟨live, rfl⟩, -⟩ := hw'
      exact happlied
    have hfinished : Finished digest g w₀ w' := by
      refine ⟨?_, hwhole, hmarker, hmatched⟩
      rw [hw'.2]
      show (w₃.stored g).content = _
      rw [hstored]
      exact hcontent
    refine ⟨hU₃.store hw' ?_, hstate, hfinished⟩
    unfold RecordTrue
    rw [hstate]
    exact .inr hfinished
  refine leaves_bind (R := fun _ => ReplayDone digest g w₀)
    (leaves_onStores (ends_deleteReplayState (fun w' hw' => ⟨hrebuilt w' hw', (hrebuilt w' hw').1⟩) hU₃)) ?_
  rintro _ w₄ hw₄
  exact wp_pure ⟨hw₄, pages, done.resumedFrom, rfl⟩

/-- What is put on record of a failure: the graph is the fold of the log up to a position, and no replay gets through
the log. -/
theorem Failure.recorded {e : ReplayErr} (h : Failure digest g w₀ e w) {kind : String} {position : ℕ}
    (he : e.graphReplayError = some (kind, position)) :
    (w.stored g).content = applyAll ∅ ((w₀.sound g).take position) ∧ ¬ Replayable digest g w₀ := by
  have hshort : position = (w₀.sound g).length + 1 ∧ position ≤ w₀.lastPosition g ∧
      (w.stored g).content = applyAll ∅ (w₀.sound g) →
      (w.stored g).content = applyAll ∅ ((w₀.sound g).take position) ∧ ¬ Replayable digest g w₀ := by
    rintro ⟨hposition, hin, hcontent⟩
    rw [List.take_of_length_le (by omega)]
    exact ⟨hcontent, fun hreplayable => by have := hreplayable.1; omega⟩
  cases e with
  | digestMismatch h' p expected actual =>
    cases he
    obtain ⟨hcontent, hactual, hdiffers, hcheckpoint⟩ := h
    refine ⟨hcontent, fun hreplayable => hdiffers ?_⟩
    rw [hactual, hcontent]
    exact hreplayable.2 _ hcheckpoint
  | logGap h' p =>
    cases he
    exact hshort h
  | logCorruptEntry h' p =>
    cases he
    exact hshort h
  | unverifiable h' p => exact h.elim
  | gated h' p => cases he
  | stopped h' p => cases he
  | outage e' => cases he

theorem Failure.same {e : ReplayErr} (h : Failure digest g w₀ e w)
    (hsame : (w'.stored g).content = (w.stored g).content) : Failure digest g w₀ e w' := by
  have hiff : Failure digest g w₀ e w' ↔ Failure digest g w₀ e w := by cases e <;> simp [Failure, hsame]
  exact hiff.2 h

/-- A failure is put on record as what the graph is left with. -/
theorem leaves_recordFailure {e : ReplayErr} {kind : String} {position : ℕ}
    (he : e.graphReplayError = some (kind, position))
    (hU : Underway digest g w₀ w) (hfailure : Failure digest g w₀ e w) :
    wp (do
      let verified ← onStores (recordedVerified g)
      onStores (writeReplayState g ⟨position, true, kind, verified⟩)
      raise e : Rp α) (Leaves digest g w₀ R) w := by
  refine leaves_bind (R := fun _ w' => w = w') ?_ ?_
  · refine leaves_onStores ?_
    unfold recordedVerified
    refine ends_bind (R := fun _ w' => w = w') (ends_graphRead rfl hU) ?_
    rintro _ _ rfl
    exact wp_pure rfl
  rintro verified _ rfl
  have hstays : ∀ w', Stores g w { w.stored g with replayState := some ⟨position, true, kind, verified⟩ } w' →
      Underway digest g w₀ w' ∧ Failure digest g w₀ e w' := by
    intro w' hw'
    refine ⟨hU.store hw' ?_, hfailure.same (by rw [hw'.2])⟩
    unfold RecordTrue
    rw [hw'.2]
    exact hfailure.recorded he
  refine leaves_bind (R := fun _ w' => Underway digest g w₀ w' ∧ Failure digest g w₀ e w')
    (leaves_onStores (ends_writeReplayState _ (fun w' hw' => ⟨hstays w' hw', (hstays w' hw').1⟩) hU)) ?_
  rintro _ w' hw'
  exact wp_raise hw'

/-- **A replay keeps the record true**, however it ends; where it returns the graph is rebuilt, and what it raises says
how far the graph got. -/
theorem leaves_replay (replayer : GraphReplayer) (hready : LogReady g w₀) (hU : Underway digest g w₀ w)
    (hempty : (w.stored g).replayState = none → (w.stored g).content = ∅) :
    wp (replay digest replayer g) (Leaves digest g w₀ fun report w' =>
      ReplayDone digest g w₀ w' ∧ ∃ pages resumedFrom, report = ⟨g, w₀.lastPosition g,
        if w₀.verifyAt g = 0 then none else some (w₀.verifyAt g), w₀.lastPosition g - w₀.verifyAt g, pages,
        resumedFrom⟩) w := by
  unfold replay
  refine leaves_bind (R := fun head w' => w = w' ∧ head = w₀.lastPosition g)
    (leaves_onStores (ends_logRead ⟨rfl, hU.lastPosition⟩ hU)) ?_
  rintro _ _ ⟨rfl, rfl⟩
  have hlogged := hready.logged
  rw [if_neg (by omega)]
  refine wp_handle (wp_mono (leaves_replayRecorded replayer hready hU hempty) fun x w' hx => ?_)
  cases x with
  | returned report => exact hx
  | died => exact hx
  | raised e =>
    dsimp only
    split
    · exact wp_raise hx
    · rename_i kind position he
      exact leaves_recordFailure he hx.1 hx.2

/-! ### A start of the service -/

/-- What `classify` answers over a true record: a record is resumed, an empty graph is replayed unless a checkpoint at
the head vouches for it, and a finished one is left alone. -/
inductive Classified (digest : Graph → String) (g : String) (w₀ w : World) : StartupStep → Prop
  | resume (hrecord : (w.stored g).replayState ≠ none) : Classified digest g w₀ w .resume
  | replay (hrecord : (w.stored g).replayState = none) (hempty : (w.stored g).content = ∅) :
      Classified digest g w₀ w .replay
  | finished (hrecord : (w.stored g).replayState = none) (h : Finished digest g w₀ w) :
      Classified digest g w₀ w .untouched
  | vouched (hrecord : (w.stored g).replayState = none) (hempty : (w.stored g).content = ∅) (c : DigestCheckpoint)
      (hc : c ∈ w₀.checkpoints) (hgraph : c.graph = g) (hat : c.position = w₀.lastPosition g)
      (hdigest : c.canonicalDigest = digest ∅) : Classified digest g w₀ w .untouched

theorem eq_empty_of_nodes {c : Graph} (h : c.nodes.isEmpty = true) : c = ∅ := by
  have hnodes : c.nodes = ∅ := Std.ExtTreeMap.isEmpty_iff.1 h
  refine ext_at (fun n => by rw [hnodes]; rfl) fun k => ?_
  have hout : (Incidence.source k : NodeRef) ∉ c.nodes := by
    rw [hnodes]
    exact Std.ExtTreeMap.not_mem_empty
  rw [edgesAt_eq_zero_of_source hout]
  rfl

/-- **`classify`** only reads. -/
theorem ends_classify (hU : Underway digest g w₀ w) :
    wp (classify digest g) (Ends (fun step w' => w = w' ∧ Classified digest g w₀ w step) (Underway digest g w₀)) w := by
  unfold classify
  refine ends_bind (R := fun recorded w' => w = w' ∧ recorded = (w.stored g).replayState)
    (ends_graphRead ⟨rfl, rfl⟩ hU) ?_
  rintro recorded _ ⟨rfl, hrecorded⟩
  cases hstate : (w.stored g).replayState with
  | some state =>
    rw [hrecorded, hstate]
    refine wp_pure ⟨rfl, .resume ?_⟩
    rw [hstate]
    exact Option.some_ne_none state
  | none =>
    have htrue := hU.record
    unfold RecordTrue at htrue
    rw [hstate] at htrue
    rw [hrecorded, hstate]
    refine ends_bind (R := fun head w' => w = w' ∧ head = w₀.lastPosition g)
      (ends_logRead ⟨rfl, hU.lastPosition⟩ hU) ?_
    rintro _ _ ⟨rfl, rfl⟩
    refine ends_bind (R := fun applied w' => w = w' ∧ applied = w.applied g) (ends_logRead ⟨rfl, rfl⟩ hU) ?_
    rintro _ _ ⟨rfl, rfl⟩
    refine ends_bind (R := fun holdsNode w' => w = w' ∧ holdsNode = !(w.stored g).content.nodes.isEmpty)
      (ends_graphRead ⟨rfl, rfl⟩ hU) ?_
    rintro holdsNode _ ⟨rfl, hholds⟩
    by_cases hnodes : (w.stored g).content.nodes.isEmpty = true
    · have hempty := eq_empty_of_nodes hnodes
      rw [hholds, hnodes]
      have hnets : wp (netsToEmpty digest g (w₀.lastPosition g) (w.applied g))
          (Ends (fun nets w' => w = w' ∧ (nets = true → ∃ c ∈ w₀.checkpoints, c.graph = g ∧
            c.position = w₀.lastPosition g ∧ c.canonicalDigest = digest ∅)) (Underway digest g w₀)) w := by
        unfold netsToEmpty
        split
        · exact wp_pure ⟨rfl, nofun⟩
        · refine ends_bind (R := fun checkpoint w' => w = w' ∧
            checkpoint = w.checkpoints.find? fun c => c.graph = g ∧ c.position = w₀.lastPosition g)
            (ends_logRead ⟨rfl, rfl⟩ hU) ?_
          rintro _ _ ⟨rfl, rfl⟩
          refine wp_pure ⟨rfl, fun hnets => ?_⟩
          obtain ⟨c, hfound, hdigest⟩ := Option.map_eq_some_iff.1 (of_decide_eq_true hnets)
          have hat : c.graph = g ∧ c.position = w₀.lastPosition g := by
            simpa using List.find?_some hfound
          have hmem : c ∈ w₀.checkpoints.filter fun c => c.graph = g := by
            rw [← hU.checkpoints, List.mem_filter]
            exact ⟨List.mem_of_find?_eq_some hfound, by simpa using hat.1⟩
          exact ⟨c, (List.mem_filter.1 hmem).1, hat.1, hat.2, hdigest⟩
      refine ends_bind hnets ?_
      rintro nets _ ⟨rfl, hvouched⟩
      cases nets with
      | true =>
        obtain ⟨c, hc, hgraph, hat, hdigest⟩ := hvouched rfl
        exact wp_pure ⟨rfl, .vouched hstate hempty c hc hgraph hat hdigest⟩
      | false => exact wp_pure ⟨rfl, .replay hstate hempty⟩
    · have hfinished : Finished digest g w₀ w := by
        refine htrue.resolve_left fun hempty => hnodes ?_
        rw [hempty]
        rfl
      have hmarker := hfinished.marker
      have hnodes : (w.stored g).content.nodes.isEmpty = false := by simpa using hnodes
      rw [hholds, hnodes, hmarker, if_neg (lt_irrefl _)]
      exact wp_pure ⟨rfl, .finished hstate hfinished⟩

/-- How a start leaves the graph it dealt with. -/
def StartupLeft (digest : Graph → String) (g : String) (w₀ : World) (outcome : StartupOutcome) (w : World) : Prop :=
  match outcome with
  | .replayed | .resumed => (w.stored g).replayState = none ∧ Finished digest g w₀ w
  | .untouched => (w.stored g).replayState = none ∧ (Finished digest g w₀ w ∨ (w.stored g).content = ∅ ∧
      ∃ c ∈ w₀.checkpoints, c.graph = g ∧ c.position = w₀.lastPosition g ∧ c.canonicalDigest = digest ∅)
  | .caughtUp => False
  | .gated => (∃ position, (w.stored g).content = applyAll ∅ ((w₀.sound g).take position)) ∧
      ¬ Replayable digest g w₀

/-- A replay that a start makes, its failures made an outcome. -/
theorem leaves_startupReplay (replayer : GraphReplayer) (hready : LogReady g w₀) (hU : Underway digest g w₀ w)
    (hempty : (w.stored g).replayState = none → (w.stored g).content = ∅) {outcome : StartupOutcome}
    (houtcome : outcome = .resumed ∨ outcome = .replayed) :
    wp ((do
      let _ ← replay digest replayer g
      return outcome : Rp StartupOutcome).handle fun
      | .gated .. => pure .gated
      | e => if e.graphReplayError.isSome then pure .gated else raise e)
      (Leaves digest g w₀ fun outcome w' => Underway digest g w₀ w' ∧ StartupLeft digest g w₀ outcome w') w := by
  have hreplay : wp (do
      let _ ← replay digest replayer g
      return outcome : Rp StartupOutcome)
      (Leaves digest g w₀ fun outcome w' => Underway digest g w₀ w' ∧ StartupLeft digest g w₀ outcome w') w := by
    refine leaves_bind (leaves_replay replayer hready hU hempty) ?_
    rintro report w' ⟨⟨hU', hstate, hfinished⟩, -⟩
    refine wp_pure ⟨hU', ?_⟩
    rcases houtcome with rfl | rfl
    · exact ⟨hstate, hfinished⟩
    · exact ⟨hstate, hfinished⟩
  refine wp_handle (wp_mono hreplay fun x w' hx => ?_)
  cases x with
  | returned outcome => exact hx
  | died => exact hx
  | raised e =>
    obtain ⟨hU', hfailure⟩ := hx
    have hgated : e.graphReplayError.isSome = true → StartupLeft digest g w₀ .gated w' := by
      intro hrecorded
      obtain ⟨⟨kind, position⟩, he⟩ := Option.isSome_iff_exists.1 hrecorded
      obtain ⟨hcontent, hnot⟩ := hfailure.recorded he
      exact ⟨⟨position, hcontent⟩, hnot⟩
    cases e with
    | gated h position => exact wp_pure ⟨hU', ⟨position, hfailure.1⟩, hfailure.2⟩
    | digestMismatch h position expected actual => exact wp_pure ⟨hU', hgated rfl⟩
    | logGap h position => exact wp_pure ⟨hU', hgated rfl⟩
    | logCorruptEntry h position => exact wp_pure ⟨hU', hgated rfl⟩
    | unverifiable h position => exact hfailure.elim
    | stopped h position => exact wp_raise ⟨hU', hfailure⟩
    | outage e => exact wp_raise ⟨hU', hfailure⟩

/-- **A start of the service** keeps the record true, and what it reports of the graph is so. -/
theorem leaves_startupGraph (gw : GraphWriteGateway) (replayer : GraphReplayer) (hready : LogReady g w₀)
    (hU : Underway gw.canonicalDigest g w₀ w) :
    wp (startupGraph replayer g gw) (Leaves gw.canonicalDigest g w₀ fun outcome w' =>
      Underway gw.canonicalDigest g w₀ w' ∧ StartupLeft gw.canonicalDigest g w₀ outcome w') w := by
  unfold startupGraph
  refine leaves_bind (leaves_onStores (ends_classify hU)) ?_
  rintro step _ ⟨rfl, hstep⟩
  cases hstep with
  | resume hrecord =>
    exact leaves_startupReplay replayer hready hU (fun hnone => absurd hnone hrecord) (.inl rfl)
  | replay hrecord hempty => exact leaves_startupReplay replayer hready hU (fun _ => hempty) (.inr rfl)
  | finished hrecord hfinished => exact wp_pure ⟨hU, hrecord, .inl hfinished⟩
  | vouched hrecord hempty c hc hgraph hat hdigest =>
    exact wp_pure ⟨hU, hrecord, .inr ⟨hempty, c, hc, hgraph, hat, hdigest⟩⟩

end Programs

/-! ## A graph that was lost -/

/-- What another call leaves of a graph that is closed to it: its log, its checkpoints, its marker and its key. -/
structure Beside (g : String) (w w' : World) : Prop where
  entries : w'.entries g = w.entries g
  checkpoints : (w'.checkpoints.filter fun c => c.graph = g) = w.checkpoints.filter fun c => c.graph = g
  applied : w'.applied g = w.applied g
  live : w'.live g = w.live g

/-- **The worlds after a graph was lost**: starts of the service that deal with it, each ending as its fates say and
with its own page and batch sizes, and calls beside them, deaths included. -/
inductive Restarted (gw : GraphWriteGateway) (g : String) (w₀ : World) : World → Prop
  | lost : Restarted gw g w₀ w₀
  | start {w : World} (replayer : GraphReplayer) (fates : List Fate) (h : Restarted gw g w₀ w) :
      Restarted gw g w₀ (startupGraph replayer g gw w fates).2.1
  | beside {w w' : World} (h : Restarted gw g w₀ w) (hbeside : Beside g w w') : Restarted gw g w₀ w'

theorem Underway.beside {w w' : World} (hU : Underway digest g w₀ w) (h : Beside g w w') : Underway digest g w₀ w' := by
  have hstored : w'.stored g = w.stored g := by
    unfold World.stored
    rw [h.live]
  refine ⟨h.entries.trans hU.entries, h.checkpoints.trans hU.checkpoints, h.applied ▸ hU.marker, ?_⟩
  have hrecord := hU.record
  unfold RecordTrue at hrecord ⊢
  rw [hstored]
  split
  · rename_i hnone
    rw [hnone] at hrecord
    refine hrecord.imp_right fun hfinished => ?_
    exact ⟨hstored ▸ hfinished.content, hfinished.whole, h.applied.trans hfinished.marker, hfinished.matched⟩
  · rename_i recorded hsome
    rw [hsome] at hrecord
    exact hrecord

/-- The record is true in every world after the loss. -/
theorem Restarted.underway {gw : GraphWriteGateway} {w : World} (hready : LogReady g w₀) (hlost : w₀.live g = none)
    (h : Restarted gw g w₀ w) : Underway gw.canonicalDigest g w₀ w := by
  induction h with
  | lost =>
    have hstored : w₀.stored g = {} := by
      unfold World.stored
      rw [hlost]
      rfl
    refine ⟨rfl, rfl, hready.marker, ?_⟩
    unfold RecordTrue
    rw [hstored]
    exact .inl rfl
  | start replayer fates _ ih =>
    have hleaves := leaves_startupGraph gw replayer hready ih fates
    generalize (startupGraph replayer g gw _ fates).1 = exit at hleaves
    cases exit with
    | returned outcome => exact hleaves.1
    | raised e => exact hleaves.1
    | died => exact hleaves
  | beside _ hbeside ih => exact ih.beside hbeside

/-- **Recovery.** After a graph's key was lost, through any number of starts that are stopped, broken off or cut short
anywhere: a start that reports the graph replayed or resumed leaves the fold of its log over the empty graph, the
marker at the head, no record, and at the highest checkpoint the graph had the digest the checkpoint holds; one that
leaves the graph gated leaves the fold of a part of a log that no replay gets through: it has a gap, an entry that does
not decode, or a checkpoint that its fold does not match. -/
theorem startup_recovers (gw : GraphWriteGateway) (hready : LogReady g w₀) (hlost : w₀.live g = none) {w : World}
    (h : Restarted gw g w₀ w) (replayer : GraphReplayer) (fates : List Fate) {outcome : StartupOutcome}
    (hout : (startupGraph replayer g gw w fates).1 = .returned outcome) :
    StartupLeft gw.canonicalDigest g w₀ outcome (startupGraph replayer g gw w fates).2.1 := by
  have hleaves := leaves_startupGraph gw replayer hready (h.underway hready hlost) fates
  rw [hout] at hleaves
  exact hleaves.2

end Replay

/-! ### A log of two articles -/

theorem plain_perm (m : Multiset (EdgeKey × PropertyMap)) :
    ((if m.card = 0 then [] else m.toList : List (EdgeKey × PropertyMap)) : Multiset (EdgeKey × PropertyMap)) = m := by
  split
  · rename_i h
    rw [Multiset.card_eq_zero.1 h]
    rfl
  · exact Multiset.coe_toList m

/-- A scan that answers a graph without edges with no rows. -/
noncomputable def plainScan : ScanOrder where
  order m := if m.card = 0 then [] else m.toList
  perm := plain_perm

/-- A gateway whose digest tells no node and one node from other contents. -/
noncomputable def countingGateway : GraphWriteGateway :=
  ⟨⟨50, 3, by decide, by decide⟩, ⟨["Article"], []⟩, plainScan,
    fun c => if c.nodes.size = 0 then "none" else if c.nodes.size = 1 then "one" else "more"⟩

def articleUpsert (id : String) : Primitive := .upsertNode ⟨"Article", id⟩ ∅ none

def articleRows (g : String) : List LogRow :=
  if g = "eu" then [⟨1, some (articleUpsert "1")⟩, ⟨2, some (articleUpsert "2")⟩] else []

/-- Both were applied, a checkpoint was taken after the first, and the key is gone. -/
def lostArticles : World :=
  { World.initial (fun _ => none) with
    entries := articleRows
    applied := fun g => if g = "eu" then 2 else 0
    checkpoints := [⟨"eu", 1, "one"⟩] }

theorem lostArticles_ready : LogReady "eu" lostArticles where
  positive := by decide
  ascending := by decide
  logged := by decide
  marker := by decide
  checkpoints := by decide
  met := by
    intro E₁ w E₂ hsplit n hneeds
    have hmem : w ∈ writesOf (lostArticles.sound "eu") := by
      rw [hsplit]
      exact List.mem_append_right _ (List.mem_cons_self ..)
    have hputs : writesOf (lostArticles.sound "eu") =
        [.put ⟨"Article", "1"⟩ (·.upsert ∅ none), .put ⟨"Article", "2"⟩ (·.upsert ∅ none)] := rfl
    -- an upsert of a node needs no other
    rw [hputs] at hmem
    rcases List.mem_pair.1 hmem with rfl | rfl
    · exact hneeds.elim
    · exact hneeds.elim

def smallReplayer : GraphReplayer := ⟨1, 1, by decide, by decide⟩

/-- A start that dies between two pages. -/
noncomputable def brokenOff : World :=
  (startupGraph smallReplayer "eu" countingGateway lostArticles (List.replicate 14 .done)).2.1

end PolicySystem
