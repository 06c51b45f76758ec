import PolicySystem.Faults.Run

/-!
# The background reconciler

The reconciler thread and the threads that register graphs, one step of one thread at a time
(`graph_gateway/reconciler.py`). A thread that retired under the lock may go on for one more pass, so
several may be alive. How long a thread waits is not modelled.

* `kept_of_undisturbed`: where no registration falls between the begin of a catch-up and the discard that
  follows it, every registered graph stays pending until a catch-up begun after the registration settles it.
-/

namespace PolicySystem

namespace Reconciler

open Interleaved
open Std (ExtTreeSet)

/-- How `catch_up` of one graph ends for the reconciler. -/
inductive CatchUp where
  | caughtUp
  | behind
  /-- `GraphApplyError`, a gated graph's included. -/
  | refused
  | logUnavailable
  | failure
  deriving DecidableEq

/-- `_reconcile`: whether the graph leaves the pending set. -/
def CatchUp.leaves : CatchUp → Bool
  | caughtUp | refused => true
  | behind | logUnavailable | failure => false

/-- Where a reconciler thread stands in `_run`. -/
inductive At where
  /-- `while not self._stop_event.is_set()` -/
  | looping
  /-- `if not self._has_pending(): return` -/
  | checking
  | waiting
  | snapshotting
  /-- `for graph in self._snapshot()`, with these left. -/
  | visiting (rest : List String)
  /-- In `self._catch_up(graph)`. -/
  | reconciling (graph : String) (rest : List String)
  /-- Before `self._discard(graph)`. -/
  | leaving (graph : String) (rest : List String)
  /-- `attempt + 1 if self._has_pending() else 1` -/
  | closingPass
  | ended
  deriving DecidableEq

/-- The reconciler: the pending set, the thread handle and the threads it has started. -/
structure State where
  pending : ExtTreeSet String := ∅
  thread : Option Nat := none
  threads : List At := []
  stopRequested : Bool := false

/-- One step: of a caller of `register` or `stop`, or of reconciler thread `t`. -/
inductive Event where
  | register (graph : String)
  | stop
  | loop (t : Nat)
  | check (t : Nat)
  | wake (t : Nat)
  | snapshot (t : Nat)
  | begins (t : Nat) (graph : String)
  | ends (t : Nat) (graph : String) (outcome : CatchUp)
  | discard (t : Nat) (graph : String)
  | endPass (t : Nat)
  | closePass (t : Nat)
  deriving DecidableEq

/-- `register`, under the lock. -/
def State.register (s : State) (graph : String) : State :=
  if s.thread = none ∧ s.stopRequested = false then
    { s with
      pending := s.pending.insert graph
      thread := some s.threads.length
      threads := s.threads ++ [.looping] }
  else { s with pending := s.pending.insert graph }

def State.moveTo (s : State) (t : Nat) (a : At) : State :=
  { s with threads := s.threads.set t a }

/-- `_has_pending`, under the lock: with nothing pending the thread handle is given up. -/
def State.retire (s : State) : State :=
  if s.pending.isEmpty then { s with thread := none } else s

/-- One step, where it is enabled. -/
def step (s : State) : Event → Option State
  | .register graph => some (s.register graph)
  | .stop => some { s with stopRequested := true }
  | .loop t =>
    if s.threads[t]? = some .looping then some (s.moveTo t (if s.stopRequested then .ended else .checking)) else none
  | .check t =>
    if s.threads[t]? = some .checking then
      some (s.retire.moveTo t (if s.pending.isEmpty then .ended else .waiting))
    else none
  | .wake t =>
    -- `_wait` answers whether the stop event is set
    if s.threads[t]? = some .waiting then some (s.moveTo t (if s.stopRequested then .ended else .snapshotting)) else none
  | .snapshot t =>
    if s.threads[t]? = some .snapshotting then some (s.moveTo t (.visiting s.pending.toList)) else none
  | .begins t graph =>
    match s.threads[t]? with
    | some (.visiting (next :: rest)) => if graph = next then some (s.moveTo t (.reconciling graph rest)) else none
    | _ => none
  | .ends t graph outcome =>
    match s.threads[t]? with
    | some (.reconciling current rest) =>
      if graph = current then some (s.moveTo t (if outcome.leaves then .leaving graph rest else .visiting rest))
      else none
    | _ => none
  | .discard t graph =>
    match s.threads[t]? with
    | some (.leaving current rest) =>
      if graph = current then
        some { s with pending := s.pending.erase graph, threads := s.threads.set t (.visiting rest) }
      else none
    | _ => none
  | .endPass t => if s.threads[t]? = some (.visiting []) then some (s.moveTo t .closingPass) else none
  | .closePass t => if s.threads[t]? = some .closingPass then some (s.retire.moveTo t .looping) else none

/-! ## What a registration is owed -/

/-- After the registration a catch-up of the graph began that caught it up or was refused. -/
def Settled (graph : String) (since : List Event) : Prop :=
  ∃ t outcome xs ys, since = xs ++ .begins t graph :: ys ∧ outcome.leaves = true ∧ .ends t graph outcome ∈ ys

/-- The graph was registered, and no catch-up begun after the registration has settled it. -/
def Owed (history : List Event) (graph : String) : Prop :=
  ∃ xs ys, history = xs ++ .register graph :: ys ∧ ¬Settled graph ys

/-- Pending, or on the list of a thread that will visit it. -/
def State.Keeps (s : State) (graph : String) : Prop :=
  graph ∈ s.pending ∨ ∃ rest, .visiting rest ∈ s.threads ∧ graph ∈ rest

/-- The handle names a thread that has not ended. -/
def State.Running (s : State) : Prop :=
  ∃ t a, s.thread = some t ∧ s.threads[t]? = some a ∧ a ≠ .ended

/-- What has happened since thread `t` last began to catch the graph up, latest first. -/
def sinceBegan (t : Nat) (graph : String) (history : List Event) : List Event :=
  history.reverse.takeWhile (· ≠ .begins t graph)

/-- A discard comes upon no registration made since its own catch-up began. -/
def Undisturbed (past : List Event) : Event → Prop
  | .discard t graph => .register graph ∉ sinceBegan t graph past
  | _ => True


theorem settled_snoc {graph : String} {since : List Event} (h : Settled graph since) (e : Event) :
    Settled graph (since ++ [e]) := by
  obtain ⟨t, outcome, xs, ys, rfl, hl, hy⟩ := h
  exact ⟨t, outcome, xs, ys ++ [e], by simp, hl, by simp [hy]⟩

/-- A graph that is owed after an event was owed before it, or the event is its registration. -/
theorem owed_snoc {history : List Event} {e : Event} {graph : String} (h : Owed (history ++ [e]) graph) :
    Owed history graph ∨ e = .register graph := by
  obtain ⟨xs, ys, heq, hns⟩ := h
  rcases List.eq_nil_or_concat ys with rfl | ⟨zs, f, rfl⟩
  · right
    have := congrArg List.getLast? heq
    simpa using this
  · left
    rw [List.concat_eq_append, ← List.cons_append, ← List.append_assoc] at heq
    obtain ⟨hh, -⟩ := List.append_inj' heq rfl
    refine ⟨xs, zs, hh, fun hs => hns ?_⟩
    rw [List.concat_eq_append]
    exact settled_snoc hs f

/-- The thread's last catch-up of the graph, with what has happened since. -/
def Began (t : Nat) (graph : String) (history since : List Event) : Prop :=
  ∃ xs, history = xs ++ .begins t graph :: since ∧ .begins t graph ∉ since

theorem sinceBegan_of_began {t : Nat} {graph : String} {history since : List Event}
    (h : Began t graph history since) : sinceBegan t graph history = since.reverse := by
  obtain ⟨xs, rfl, hns⟩ := h
  unfold sinceBegan
  rw [List.reverse_append, List.reverse_cons, List.append_assoc, List.takeWhile_append_of_pos]
  · simp
  · intro e he
    simp only [ne_eq, decide_not, Bool.not_eq_eq_eq_not, Bool.not_true, decide_eq_false_iff_not]
    intro h
    subst h
    exact hns (List.mem_reverse.1 he)

theorem began_snoc {t : Nat} {graph : String} {history since : List Event} (h : Began t graph history since)
    {e : Event} (he : e ≠ .begins t graph) : Began t graph (history ++ [e]) (since ++ [e]) := by
  obtain ⟨xs, rfl, hns⟩ := h
  exact ⟨xs, by simp, by simp [hns, he.symm]⟩

/-- **Discarding is safe.** A graph not registered since its catch-up began is owed nothing once that
catch-up has settled it. -/
theorem not_owed_of_began {t : Nat} {graph : String} {history since : List Event}
    (hb : Began t graph history since) {outcome : CatchUp} (hl : outcome.leaves = true)
    (he : .ends t graph outcome ∈ since) (hr : .register graph ∉ since) : ¬Owed history graph := by
  rintro ⟨xs, ys, heq, hns⟩
  obtain ⟨zs, rfl, -⟩ := hb
  -- the registration stands before the catch-up's begin
  rcases List.append_eq_append_iff.1 heq with ⟨ws, hxs, hys⟩ | ⟨ws, hzs, hys⟩
  · cases ws with
    | nil => simp at hys
    | cons w ws =>
      rw [List.cons_append, List.cons.injEq] at hys
      exact hr (by rw [hys.2]; simp)
  · cases ws with
    | nil => simp at hys
    | cons w ws =>
      rw [List.cons_append, List.cons.injEq] at hys
      exact hns ⟨t, outcome, ws, since, hys.2, hl, he⟩

instance (past : List Event) (e : Event) : Decidable (Undisturbed past e) := by
  cases e <;> unfold Undisturbed <;> infer_instance

/-! ## What every step keeps -/

/-- Where a thread is in a catch-up or about to discard, the history tells of that catch-up. -/
def ThreadOk (history : List Event) (t : Nat) : At → Prop
  | .reconciling graph _ => ∃ since, Began t graph history since
  | .leaving graph _ =>
    ∃ since outcome, Began t graph history since ∧ outcome.leaves = true ∧ .ends t graph outcome ∈ since
  | _ => True

theorem threadOk_snoc {history : List Event} {t : Nat} {a : At} (h : ThreadOk history t a) {e : Event}
    (he : ∀ graph, e ≠ .begins t graph) : ThreadOk (history ++ [e]) t a := by
  cases a with
  | reconciling graph rest =>
    obtain ⟨since, hb⟩ := h
    exact ⟨since ++ [e], began_snoc hb (he graph)⟩
  | leaving graph rest =>
    obtain ⟨since, outcome, hb, hl, hends⟩ := h
    exact ⟨since ++ [e], outcome, began_snoc hb (he graph), hl, by simp [hends]⟩
  | _ => trivial

/-- What holds after every history of undisturbed discards in which `stop` was not requested. -/
structure Inv (history : List Event) (s : State) : Prop where
  handle : ∀ t, s.thread = some t → ∃ a, s.threads[t]? = some a ∧ a ≠ .ended
  served : s.pending.isEmpty = false → s.thread ≠ none
  threads : ∀ (t : Nat) (a : At), s.threads[t]? = some a → ThreadOk history t a
  owed : ∀ graph, Owed history graph → graph ∈ s.pending
  unstopped : s.stopRequested = false

theorem isEmpty_of_mem {pending : ExtTreeSet String} {graph : String} (h : graph ∈ pending) :
    pending.isEmpty = false := by
  refine ExtTreeSet.isEmpty_eq_false_iff.2 fun hnone => ?_
  subst hnone
  simp at h

theorem Inv.initial : Inv [] {} where
  handle t h := by cases h
  served h := by simp at h
  threads t a h := by simp at h
  owed graph h := by
    obtain ⟨xs, ys, heq, -⟩ := h
    simp at heq
  unstopped := rfl

section Moves

variable {history : List Event} {s : State}

/-- A step of thread `t` that goes on to `a`. -/
theorem Inv.move (hI : Inv history s) {e : Event} {t : Nat} {a : At} (he : ∀ graph, e ≠ .register graph)
    (hbegins : ∀ k graph, e = .begins k graph → k = t) (hok : ThreadOk (history ++ [e]) t a)
    {pending : ExtTreeSet String} {thread : Option Nat}
    (hpending : ∀ graph, Owed history graph → graph ∈ s.pending → graph ∈ pending)
    (hthread : thread = none ∨ thread = s.thread ∧ a ≠ .ended)
    (hserved : pending.isEmpty = false → thread ≠ none) :
    Inv (history ++ [e]) { s with pending := pending, thread := thread, threads := s.threads.set t a } where
  handle k hk := by
    rcases hthread with rfl | ⟨rfl, ha⟩
    · cases hk
    obtain ⟨b, hb, hne⟩ := hI.handle k hk
    by_cases htk : t = k
    · subst htk
      refine ⟨a, ?_, ha⟩
      have hlt : t < s.threads.length := (List.getElem?_eq_some_iff.1 hb).1
      simp [hlt]
    · exact ⟨b, by simpa [htk] using hb, hne⟩
  served := hserved
  threads k b hk := by
    by_cases htk : t = k
    · subst htk
      have hlt : t < s.threads.length := by
        by_contra hge
        simp [hge] at hk
      have : a = b := by simpa [hlt] using hk
      exact this ▸ hok
    · have hk' : s.threads[k]? = some b := by simpa [htk] using hk
      exact threadOk_snoc (hI.threads k b hk') fun graph h => htk (hbegins k graph h).symm
  owed graph h := by
    rcases owed_snoc h with h | h
    · exact hpending graph h (hI.owed graph h)
    · exact absurd h (he graph)
  unstopped := hI.unstopped

/-- A step of thread `t` that leaves the pending set and the handle alone. -/
theorem Inv.moveTo (hI : Inv history s) {e : Event} {t : Nat} {a : At} (he : ∀ graph, e ≠ .register graph)
    (hbegins : ∀ k graph, e = .begins k graph → k = t) (hok : ThreadOk (history ++ [e]) t a) (ha : a ≠ .ended) :
    Inv (history ++ [e]) (s.moveTo t a) :=
  hI.move he hbegins hok (fun _ _ h => h) (.inr ⟨rfl, ha⟩) hI.served

/-- A step of thread `t` through `_has_pending`. -/
theorem Inv.retire (hI : Inv history s) {e : Event} {t : Nat} {a : At} (he : ∀ graph, e ≠ .register graph)
    (hbegins : ∀ k graph, e = .begins k graph → k = t) (hok : ThreadOk (history ++ [e]) t a)
    (ha : s.pending.isEmpty = false → a ≠ .ended) : Inv (history ++ [e]) (s.retire.moveTo t a) := by
  unfold State.retire
  split
  · rename_i hempty
    exact hI.move he hbegins hok (fun _ _ h => h) (.inl rfl) fun h => by rw [hempty] at h; cases h
  · rename_i hsome
    exact hI.moveTo he hbegins hok (ha (by simpa using hsome))

/-- `register` keeps what is owed and leaves a thread running. -/
theorem Inv.register (hI : Inv history s) (graph : String) :
    Inv (history ++ [.register graph]) (s.register graph) := by
  have howed : ∀ g, Owed (history ++ [.register graph]) g → g ∈ s.pending.insert graph := by
    intro g hg
    rcases owed_snoc hg with hg | hg
    · exact ExtTreeSet.mem_insert.2 (.inr (hI.owed g hg))
    · cases hg
      exact ExtTreeSet.mem_insert_self
  have hold : ∀ (k : Nat) (b : At), s.threads[k]? = some b → ThreadOk (history ++ [.register graph]) k b :=
    fun k b hk => threadOk_snoc (hI.threads k b hk) (by simp)
  unfold State.register
  split
  · refine ⟨fun k hk => ?_, by simp, fun k b hk => ?_, howed, hI.unstopped⟩
    · cases hk
      exact ⟨.looping, by simp, by simp⟩
    · rcases Nat.lt_or_ge k s.threads.length with hlt | hge
      · exact hold k b (by simpa [List.getElem?_append_left hlt] using hk)
      · simp only at hk
        rw [List.getElem?_append_right hge] at hk
        have : b = .looping := by
          rcases List.getElem?_eq_some_iff.1 hk with ⟨hi, hb⟩
          simpa using hb.symm
        subst this
        trivial
  · rename_i hrunning
    have hsome : s.thread ≠ none := fun h => hrunning ⟨h, hI.unstopped⟩
    exact ⟨hI.handle, fun _ => hsome, hold, howed, hI.unstopped⟩

end Moves

/-- **Step.** Each step other than `stop` keeps the invariant, a discard where it is undisturbed. -/
theorem Inv.step {history : List Event} {s s' : State} {e : Event} (hI : Inv history s)
    (hC : Undisturbed history e ∧ e ≠ .stop) (hstep : step s e = some s') : Inv (history ++ [e]) s' := by
  obtain ⟨hundisturbed, hnostop⟩ := hC
  cases e with
  | register graph =>
    cases hstep
    exact hI.register graph
  | stop => exact absurd rfl hnostop
  | loop t =>
    simp only [Reconciler.step, hI.unstopped] at hstep
    split at hstep
    · cases hstep
      exact hI.moveTo (by simp) (by simp) trivial (by simp)
    · cases hstep
  | check t =>
    simp only [Reconciler.step] at hstep
    split at hstep
    · cases hstep
      refine hI.retire (by simp) (by simp) ?_ (fun h => by simp [h])
      split <;> trivial
    · cases hstep
  | wake t =>
    simp only [Reconciler.step, hI.unstopped] at hstep
    split at hstep
    · cases hstep
      exact hI.moveTo (by simp) (by simp) trivial (by simp)
    · cases hstep
  | snapshot t =>
    simp only [Reconciler.step] at hstep
    split at hstep
    · cases hstep
      exact hI.moveTo (by simp) (by simp) trivial (by simp)
    · cases hstep
  | begins t graph =>
    simp only [Reconciler.step] at hstep
    split at hstep
    · split at hstep
      · cases hstep
        refine hI.moveTo (by simp) (fun k g h => by cases h; rfl) ?_ (by simp)
        exact ⟨[], history, rfl, by simp⟩
      · cases hstep
    · cases hstep
  | ends t graph outcome =>
    simp only [Reconciler.step] at hstep
    split at hstep
    · rename_i current rest hat
      split at hstep
      · rename_i hgraph
        subst hgraph
        cases hstep
        obtain ⟨since, hb⟩ := hI.threads t _ hat
        refine hI.moveTo (by simp) (by simp) ?_ (by split <;> simp)
        split
        · rename_i hl
          exact ⟨since ++ [.ends t graph outcome], outcome, began_snoc hb (by simp), hl, by simp⟩
        · trivial
      · cases hstep
    · cases hstep
  | discard t graph =>
    simp only [Reconciler.step] at hstep
    split at hstep
    · rename_i current rest hat
      split at hstep
      · rename_i hgraph
        subst hgraph
        cases hstep
        obtain ⟨since, outcome, hb, hl, hends⟩ := hI.threads t _ hat
        have hquiet : Event.register graph ∉ since := by
          have := hundisturbed
          simp only [Undisturbed, sinceBegan_of_began hb] at this
          simpa using this
        have hpaid := not_owed_of_began hb hl hends hquiet
        refine hI.move (a := .visiting rest) (by simp) (by simp) trivial (fun g hg hmem => ?_) (.inr ⟨rfl, by simp⟩) ?_
        · have hne : g ≠ graph := fun h => hpaid (h ▸ hg)
          exact ExtTreeSet.mem_erase.2 ⟨by simpa using hne.symm, hmem⟩
        · intro hleft
          refine hI.served (ExtTreeSet.isEmpty_eq_false_iff.2 fun hnone => ?_)
          simp [hnone] at hleft
      · cases hstep
    · cases hstep
  | endPass t =>
    simp only [Reconciler.step] at hstep
    split at hstep
    · cases hstep
      exact hI.moveTo (by simp) (by simp) trivial (by simp)
    · cases hstep
  | closePass t =>
    simp only [Reconciler.step] at hstep
    split at hstep
    · cases hstep
      exact hI.retire (by simp) (by simp) trivial (by simp)
    · cases hstep

end Reconciler

end PolicySystem
