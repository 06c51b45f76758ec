import PolicySystem.Faults.Run

/-!
# Transactions of the log store

Appending transactions and marker advances, one SQL statement at a time
(`graph_gateway/store.py`, `graph_gateway/migrations/0001_graph_mutation_log.sql`). Every
transaction runs under READ COMMITTED: a statement sees the committed rows and its own. A check that fails, in
the code or in a trigger, disables the step; rolling back is always possible.

* `log_positions_sound`: the positions of each graph are 1..n, each group owns one range of them, and markers
  only advance, up to n.
-/

namespace PolicySystem

namespace LogTransactions

open Interleaved
open Std (ExtTreeMap)

/-! ## Tables and transactions -/

/-- A row of `graph_log.entries`: where it stands. -/
structure Entry where
  graph : String
  position : Nat
  groupId : Nat
  deriving DecidableEq

/-- A row of `graph_log.groups`. -/
structure Group where
  groupId : Nat
  graph : String
  first : Nat
  last : Nat
  deriving DecidableEq

/-- Where an appending transaction stands. -/
inductive Phase where
  /-- Between two groups. -/
  | idle
  /-- Holding the graph's advisory lock, in the savepoint. -/
  | locked (graph : String)
  /-- The graph's last position is read. -/
  | positioned (graph : String) (lastLogged : Nat)
  /-- The group row is inserted, and these of its entries. -/
  | inserting (group : Group) (entries : List Entry)
  | ended
  deriving DecidableEq

/-- An appending transaction: its advisory locks, and its rows of the groups whose savepoint is released. -/
structure Tx where
  locks : List Int := []
  groups : List Group := []
  entries : List Entry := []
  phase : Phase := .idle
  deriving DecidableEq

/-- Where a marker advance stands; `wrote` holds the marker's row lock. -/
inductive MarkerTx where
  | checked (graph : String) (position : Nat)
  | wrote (graph : String) (applied : Nat)
  | ended
  deriving DecidableEq

/-- The marker row a marker advance holds locked. -/
def MarkerTx.row : MarkerTx → Option String
  | wrote graph _ => some graph
  | _ => none

/-- The committed tables and the transactions that have begun. -/
structure Db where
  groups : List Group := []
  entries : List Entry := []
  markers : ExtTreeMap String Nat := ∅
  txs : List Tx := []
  markerTxs : List MarkerTx := []

def Phase.group : Phase → List Group
  | inserting group _ => [group]
  | _ => []

def Phase.entries : Phase → List Entry
  | inserting _ entries => entries
  | _ => []

/-- The group rows a transaction has inserted, the unfinished group's included. -/
def Tx.allGroups (tx : Tx) : List Group := tx.groups ++ tx.phase.group

/-- `coalesce(max(position), 0)` over the rows of a graph. -/
def lastPosition (graph : String) (entries : List Entry) : Nat :=
  ((entries.filter (·.graph = graph)).map (·.position)).foldl max 0

/-- The entry rows a statement of the transaction sees. -/
def Db.visible (db : Db) (tx : Tx) : List Entry := db.entries ++ tx.entries ++ tx.phase.entries

/-- `groups_match_entries`: the recorded range is the range of the group's entries. -/
def groupsMatchEntries (entries : List Entry) (group : Group) : Bool :=
  let positions := (entries.filter (·.groupId = group.groupId)).map (·.position)
  positions.min? = some group.first && positions.max? = some group.last &&
    positions.length = group.last - group.first + 1

/-- One statement of appending transaction `t` or of marker advance `m`. -/
inductive Event where
  | begins (t : Nat)
  | locks (t : Nat) (graph : String)
  | readsLast (t : Nat)
  | insertsGroup (t : Nat) (groupId : Nat) (count : Nat)
  | insertsEntry (t : Nat)
  | releasesSavepoint (t : Nat)
  | rollsBackToSavepoint (t : Nat)
  | commits (t : Nat)
  | rollsBack (t : Nat)
  | markerChecks (m : Nat) (graph : String) (position : Nat)
  | markerWrites (m : Nat)
  | markerCommits (m : Nat)
  | markerRollsBack (m : Nat)
  deriving DecidableEq

def Db.setTx (db : Db) (t : Nat) (tx : Tx) : Db := { db with txs := db.txs.set t tx }

def Db.setMarkerTx (db : Db) (m : Nat) (tx : MarkerTx) : Db := { db with markerTxs := db.markerTxs.set m tx }

/-- One statement, where it is enabled. `hashtext` gives the advisory lock key of a graph. -/
def step (hashtext : String → Int) (db : Db) : Event → Option Db
  | .begins t => if t = db.txs.length then some { db with txs := db.txs ++ [{}] } else none
  | .locks t graph => do
    let tx ← db.txs[t]?
    -- `pg_advisory_xact_lock` waits while another transaction holds the key
    if tx.phase = .idle ∧ ∀ other ∈ db.txs.eraseIdx t, hashtext graph ∉ other.locks then
      some (db.setTx t { tx with locks := hashtext graph :: tx.locks, phase := .locked graph })
    else none
  | .readsLast t => do
    let tx ← db.txs[t]?
    match tx.phase with
    | .locked graph => some (db.setTx t { tx with phase := .positioned graph (lastPosition graph (db.visible tx)) })
    | _ => none
  | .insertsGroup t groupId count => do
    let tx ← db.txs[t]?
    match tx.phase with
    | .positioned graph lastLogged =>
      let group : Group := ⟨groupId, graph, lastLogged + 1, lastLogged + count⟩
      -- the primary key, and `groups_range_valid`
      if groupId ∉ db.groups.map (·.groupId) ∧ (∀ other ∈ db.txs, groupId ∉ other.allGroups.map (·.groupId)) ∧
          group.first ≤ group.last then
        some (db.setTx t { tx with phase := .inserting group [] })
      else none
    | _ => none
  | .insertsEntry t => do
    let tx ← db.txs[t]?
    match tx.phase with
    | .inserting group entries =>
      let position := group.first + entries.length
      -- `entries_next_position`
      if position ≤ group.last ∧ position = lastPosition group.graph (db.visible tx) + 1 then
        some (db.setTx t { tx with phase := .inserting group (entries ++ [⟨group.graph, position, group.groupId⟩]) })
      else none
    | _ => none
  | .releasesSavepoint t => do
    let tx ← db.txs[t]?
    match tx.phase with
    | .inserting group entries =>
      if group.first + entries.length = group.last + 1 then
        some (db.setTx t { tx with groups := tx.groups ++ [group], entries := tx.entries ++ entries, phase := .idle })
      else none
    | _ => none
  | .rollsBackToSavepoint t => do
    let tx ← db.txs[t]?
    -- the lock was taken before the savepoint and stays
    if tx.phase = .idle ∨ tx.phase = .ended then none else some (db.setTx t { tx with phase := .idle })
  | .commits t => do
    let tx ← db.txs[t]?
    if tx.phase = .idle ∧ tx.groups.all (groupsMatchEntries (db.visible tx)) = true then
      some { db.setTx t { phase := .ended } with groups := db.groups ++ tx.groups, entries := db.entries ++ tx.entries }
    else none
  | .rollsBack t => do
    let tx ← db.txs[t]?
    if tx.phase = .ended then none else some (db.setTx t { phase := .ended })
  | .markerChecks m graph position =>
    if m = db.markerTxs.length ∧ position ≤ lastPosition graph db.entries then
      some { db with markerTxs := db.markerTxs ++ [.checked graph position] }
    else none
  | .markerWrites m => do
    match ← db.markerTxs[m]? with
    | .checked graph position =>
      -- the row lock, and `applied_marker_guard`
      if (∀ other ∈ db.markerTxs, other.row ≠ some graph) ∧ position ≤ lastPosition graph db.entries then
        let applied := match db.markers[graph]? with
          | some stored => if stored < position then position else stored
          | none => position
        some (db.setMarkerTx m (.wrote graph applied))
      else none
    | _ => none
  | .markerCommits m => do
    match ← db.markerTxs[m]? with
    | .wrote graph applied => some { db.setMarkerTx m .ended with markers := db.markers.insert graph applied }
    | _ => none
  | .markerRollsBack m => do
    match ← db.markerTxs[m]? with
    | .ended => none
    | _ => some (db.setMarkerTx m .ended)

/-! ## Ranges -/

/-- The entry rows of a whole group. -/
def Group.rows (group : Group) : List Entry :=
  (List.range' group.first (group.last + 1 - group.first)).map fun position =>
    ⟨group.graph, position, group.groupId⟩

/-- Groups whose ranges follow each other without a gap, after position `n`. -/
def Consecutive : Nat → List Group → Prop
  | _, [] => True
  | n, group :: groups => group.first = n + 1 ∧ group.first ≤ group.last ∧ Consecutive group.last groups

/-- Where the ranges end, starting after `n`. -/
def endOf (n : Nat) (groups : List Group) : Nat := groups.foldl (fun _ group => group.last) n

/-- The groups of one graph. -/
def ofGraph (graph : String) (groups : List Group) : List Group := groups.filter (·.graph = graph)

@[simp] theorem ofGraph_append (graph : String) (gs hs : List Group) :
    ofGraph graph (gs ++ hs) = ofGraph graph gs ++ ofGraph graph hs := by
  simp [ofGraph]

@[simp] theorem endOf_append (n : Nat) (gs hs : List Group) : endOf n (gs ++ hs) = endOf (endOf n gs) hs := by
  simp [endOf]

theorem consecutive_append {n : Nat} {gs hs : List Group} :
    Consecutive n (gs ++ hs) ↔ Consecutive n gs ∧ Consecutive (endOf n gs) hs := by
  induction gs generalizing n with
  | nil => simp [Consecutive, endOf]
  | cons g gs ih => simp [Consecutive, ih, endOf, and_assoc]

theorem le_endOf {n : Nat} {gs : List Group} (h : Consecutive n gs) : n ≤ endOf n gs := by
  induction gs generalizing n with
  | nil => exact le_rfl
  | cons g gs ih =>
    obtain ⟨hfirst, hle, hrest⟩ := h
    have := ih hrest
    simp only [endOf, List.foldl_cons] at this ⊢
    omega

@[simp] theorem rows_graph {group : Group} {e : Entry} (h : e ∈ group.rows) : e.graph = group.graph := by
  obtain ⟨p, -, rfl⟩ := List.mem_map.1 h
  rfl

@[simp] theorem rows_groupId {group : Group} {e : Entry} (h : e ∈ group.rows) : e.groupId = group.groupId := by
  obtain ⟨p, -, rfl⟩ := List.mem_map.1 h
  rfl

@[simp] theorem rows_positions (group : Group) :
    group.rows.map (·.position) = List.range' group.first (group.last + 1 - group.first) := by
  simp [Group.rows, Function.comp_def]

/-- The entries of a graph are the entries of its groups. -/
theorem filter_rows (graph : String) (groups : List Group) :
    (groups.flatMap Group.rows).filter (·.graph = graph) = (ofGraph graph groups).flatMap Group.rows := by
  induction groups with
  | nil => rfl
  | cons g gs ih =>
    rw [List.flatMap_cons, List.filter_append, ih]
    unfold ofGraph
    rw [List.filter_cons]
    by_cases h : g.graph = graph
    · rw [if_pos (by simpa using h), List.flatMap_cons, List.filter_eq_self.2 fun e he => by simp [rows_graph he, h]]
    · rw [if_neg (by simpa using h), List.filter_eq_nil_iff.2 fun e he => by simp [rows_graph he, h],
        List.nil_append]

/-- Consecutive groups hold consecutive positions. -/
theorem positions_of_consecutive {n : Nat} {groups : List Group} (h : Consecutive n groups) :
    (groups.flatMap Group.rows).map (·.position) = List.range' (n + 1) (endOf n groups - n) := by
  induction groups generalizing n with
  | nil => simp [endOf]
  | cons g gs ih =>
    obtain ⟨hfirst, hle, hrest⟩ := h
    have hend := le_endOf hrest
    rw [List.flatMap_cons, List.map_append, rows_positions, ih hrest, hfirst]
    have hsplit : endOf n (g :: gs) - n = (g.last + 1 - (n + 1)) + (endOf g.last gs - g.last) := by
      change endOf g.last gs - n = _
      omega
    rw [hsplit, ← List.range'_append_1]
    congr 2
    omega

theorem foldl_max_range' (n k m : Nat) (h : m ≤ n) : (List.range' (n + 1) k).foldl max m = if k = 0 then m else n + k := by
  induction k with
  | zero => rfl
  | succ k ih =>
    rw [List.range'_1_concat, List.foldl_append, ih]
    simp only [List.foldl_cons, List.foldl_nil]
    split <;> simp <;> omega

/-- **The maximum is the end of the last range.** -/
theorem lastPosition_rows {graph : String} {groups : List Group} (h : Consecutive 0 (ofGraph graph groups)) :
    lastPosition graph (groups.flatMap Group.rows) = endOf 0 (ofGraph graph groups) := by
  unfold lastPosition
  rw [filter_rows, positions_of_consecutive h, foldl_max_range' 0 _ 0 le_rfl]
  split <;> omega

theorem rows_take_succ (group : Group) {k : Nat} (h : group.first + k ≤ group.last) :
    group.rows.take k ++ [⟨group.graph, group.first + k, group.groupId⟩] = group.rows.take (k + 1) := by
  have hk : k < group.rows.length := by
    simp [Group.rows]
    omega
  rw [List.take_succ_eq_append_getElem hk]
  simp [Group.rows]

/-! ## The invariant -/

variable {hashtext : String → Int}

/-- The last position the group rows record for a graph. -/
def logEnd (graph : String) (groups : List Group) : Nat := endOf 0 (ofGraph graph groups)

/-- What a transaction's phase means, over the rows before it. -/
def PhaseOk (hashtext : String → Int) (locks : List Int) (before : List Group) : Phase → Prop
  | .idle | .ended => True
  | .locked graph => hashtext graph ∈ locks
  | .positioned graph lastLogged => hashtext graph ∈ locks ∧ lastLogged = logEnd graph before
  | .inserting group entries =>
    hashtext group.graph ∈ locks ∧ group.first = logEnd group.graph before + 1 ∧ group.first ≤ group.last ∧
      ∃ k, entries = group.rows.take k

/-- What a transaction has written fits on the end of the committed log. -/
structure TxOk (hashtext : String → Int) (committed : List Group) (tx : Tx) : Prop where
  entries : tx.entries = tx.groups.flatMap Group.rows
  chain : ∀ graph, Consecutive (logEnd graph committed) (ofGraph graph tx.groups)
  locked : ∀ group ∈ tx.groups, hashtext group.graph ∈ tx.locks
  fresh : ((committed ++ tx.allGroups).map (·.groupId)).Nodup
  phase : PhaseOk hashtext tx.locks (committed ++ tx.groups) tx.phase

/-- Two transactions share no lock and no group id. -/
def Apart (tx other : Tx) : Prop :=
  (∀ key ∈ tx.locks, key ∉ other.locks) ∧
    ∀ group ∈ tx.allGroups, group.groupId ∉ other.allGroups.map (·.groupId)

theorem Apart.symm {tx other : Tx} (h : Apart tx other) : Apart other tx :=
  ⟨fun key hk hk' => h.1 key hk' hk, fun group hg hm => by
    obtain ⟨group', hg', heq⟩ := List.mem_map.1 hm
    exact h.2 group' hg' (heq ▸ List.mem_map_of_mem hg)⟩

/-- What a marker advance is about to store is in the log and not behind the stored marker. -/
def MarkerTxOk (db : Db) : MarkerTx → Prop
  | .wrote graph applied => applied ≤ logEnd graph db.groups ∧ ∀ stored, db.markers[graph]? = some stored → stored ≤ applied
  | _ => True

structure Inv (hashtext : String → Int) (db : Db) : Prop where
  entries : db.entries = db.groups.flatMap Group.rows
  chain : ∀ graph, Consecutive 0 (ofGraph graph db.groups)
  ids : (db.groups.map (·.groupId)).Nodup
  txs : ∀ tx ∈ db.txs, TxOk hashtext db.groups tx
  apart : ∀ (t u : Nat) (tx other : Tx), t ≠ u → db.txs[t]? = some tx → db.txs[u]? = some other → Apart tx other
  markers : ∀ (graph : String) (stored : Nat), db.markers[graph]? = some stored → stored ≤ logEnd graph db.groups
  markerTxs : ∀ tx ∈ db.markerTxs, MarkerTxOk db tx
  rowLocks : ∀ (m k : Nat) (tx other : MarkerTx) (graph : String), m ≠ k → db.markerTxs[m]? = some tx →
    db.markerTxs[k]? = some other → tx.row = some graph → other.row ≠ some graph

theorem Inv.initial : Inv hashtext {} := by
  constructor <;> simp [Consecutive, ofGraph]

section Steps

variable {db : Db} {t : Nat} {tx tx' : Tx}

/-- The last position a transaction reads is where the groups before it end. -/
theorem Inv.lastPosition (hI : Inv hashtext db) (htx : TxOk hashtext db.groups tx) (hphase : tx.phase.entries = [])
    (graph : String) : lastPosition graph (db.visible tx) = logEnd graph (db.groups ++ tx.groups) := by
  have hchain : Consecutive 0 (ofGraph graph (db.groups ++ tx.groups)) := by
    rw [ofGraph_append, consecutive_append]
    exact ⟨hI.chain graph, htx.chain graph⟩
  unfold Db.visible
  rw [hphase, List.append_nil, hI.entries, htx.entries, ← List.flatMap_append]
  exact lastPosition_rows hchain

theorem Inv.lastPosition_committed (hI : Inv hashtext db) (graph : String) :
    LogTransactions.lastPosition graph db.entries = logEnd graph db.groups := by
  rw [hI.entries]
  exact lastPosition_rows (hI.chain graph)

/-- Replace transaction `t`. -/
theorem Inv.setTx (hI : Inv hashtext db) (ht : db.txs[t]? = some tx) (hok : TxOk hashtext db.groups tx')
    (hapart : ∀ u other, t ≠ u → db.txs[u]? = some other → Apart tx' other) :
    Inv hashtext (db.setTx t tx') where
  entries := hI.entries
  chain := hI.chain
  ids := hI.ids
  txs other hmem := by
    rcases List.mem_or_eq_of_mem_set hmem with hmem | rfl
    · exact hI.txs other hmem
    · exact hok
  apart u v a b huv hu hv := by
    have hlt : t < db.txs.length := (List.getElem?_eq_some_iff.1 ht).1
    simp only [Db.setTx, List.getElem?_set] at hu hv
    by_cases htu : t = u
    · subst htu
      rw [if_pos rfl, if_pos hlt] at hu
      rw [if_neg huv] at hv
      cases hu
      exact hapart v b huv hv
    · rw [if_neg htu] at hu
      by_cases htv : t = v
      · subst htv
        rw [if_pos rfl, if_pos hlt] at hv
        cases hv
        exact (hapart u a htu hu).symm
      · rw [if_neg htv] at hv
        exact hI.apart u v a b huv hu hv
  markers := hI.markers
  markerTxs := hI.markerTxs
  rowLocks := hI.rowLocks

/-- A transaction that has ended is in nobody's way. -/
theorem txOk_ended (ids : (db.groups.map (·.groupId)).Nodup) (phase : Phase) (h : phase = .idle ∨ phase = .ended) :
    TxOk hashtext db.groups { phase := phase } := by
  refine ⟨rfl, fun _ => trivial, by simp, ?_, ?_⟩ <;> rcases h with rfl | rfl <;>
    simp [Tx.allGroups, Phase.group, PhaseOk, ids]

theorem apart_ended (phase : Phase) (h : phase = .idle ∨ phase = .ended) (other : Tx) :
    Apart { phase := phase } other := by
  rcases h with rfl | rfl <;> exact ⟨by simp, by simp [Tx.allGroups, Phase.group]⟩

theorem Inv.begins (hI : Inv hashtext db) : Inv hashtext { db with txs := db.txs ++ [{}] } where
  entries := hI.entries
  chain := hI.chain
  ids := hI.ids
  txs tx hmem := by
    rcases List.mem_append.1 hmem with hmem | hmem
    · exact hI.txs tx hmem
    · cases List.mem_singleton.1 hmem
      exact txOk_ended hI.ids .idle (.inl rfl)
  apart t u tx other htu ht hu := by
    have hsplit : ∀ (v : Nat) (a : Tx), (db.txs ++ [({} : Tx)])[v]? = some a →
        db.txs[v]? = some a ∨ a = {} := by
      intro v a hv
      rcases Nat.lt_or_ge v db.txs.length with hlt | hge
      · exact .inl (by rwa [List.getElem?_append_left hlt] at hv)
      · rw [List.getElem?_append_right hge] at hv
        exact .inr (List.mem_singleton.1 (List.mem_of_getElem? hv))
    rcases hsplit t tx ht with ht | rfl
    · rcases hsplit u other hu with hu | rfl
      · exact hI.apart t u tx other htu ht hu
      · exact (apart_ended .idle (.inl rfl) tx).symm
    · exact apart_ended .idle (.inl rfl) other
  markers := hI.markers
  markerTxs := hI.markerTxs
  rowLocks := hI.rowLocks

/-- Transaction `t` goes on to a phase in which it holds the same locks and group rows. -/
theorem Inv.setPhase (hI : Inv hashtext db) (ht : db.txs[t]? = some tx) {phase : Phase}
    (hgroup : phase.group ⊆ tx.phase.group) (hsub : phase.group.length ≤ 1)
    (hphase : PhaseOk hashtext tx.locks (db.groups ++ tx.groups) phase) :
    Inv hashtext (db.setTx t { tx with phase := phase }) := by
  have htx := hI.txs tx (List.mem_of_getElem? ht)
  refine hI.setTx ht ⟨htx.entries, htx.chain, htx.locked, ?_, hphase⟩ fun u other htu hu => ?_
  · have hfresh := htx.fresh
    simp only [Tx.allGroups] at hfresh ⊢
    have hsublist : phase.group.Sublist tx.phase.group := by
      match hpg : phase.group, hgroup, hsub with
      | [], _, _ => exact List.nil_sublist _
      | [g], hgroup, _ => exact List.singleton_sublist.2 (hgroup (by simp))
    exact hfresh.sublist (((List.Sublist.refl _).append ((List.Sublist.refl _).append hsublist)).map _)
  · obtain ⟨hlocks, hids⟩ := hI.apart t u tx other htu ht hu
    refine ⟨hlocks, fun group hg => hids group ?_⟩
    simp only [Tx.allGroups, List.mem_append] at hg ⊢
    exact hg.imp_right fun h => hgroup h

/-- The advisory lock is granted. -/
theorem Inv.locks (hI : Inv hashtext db) (ht : db.txs[t]? = some tx) {graph : String} (hidle : tx.phase = .idle)
    (hfree : ∀ other ∈ db.txs.eraseIdx t, hashtext graph ∉ other.locks) :
    Inv hashtext (db.setTx t { tx with locks := hashtext graph :: tx.locks, phase := .locked graph }) := by
  have htx := hI.txs tx (List.mem_of_getElem? ht)
  have hgroups : tx.phase.group = [] := by rw [hidle]; rfl
  refine hI.setTx ht ⟨htx.entries, htx.chain, ?_, ?_, by simp [PhaseOk]⟩ fun u other htu hu => ?_
  · intro group hg
    exact List.mem_cons_of_mem _ (htx.locked group hg)
  · have hfresh := htx.fresh
    simp only [Tx.allGroups, hgroups] at hfresh
    simpa only [Tx.allGroups, Phase.group] using hfresh
  · obtain ⟨hlocks, hids⟩ := hI.apart t u tx other htu ht hu
    refine ⟨fun key hk => ?_, fun group hg => hids group ?_⟩
    · rcases List.mem_cons.1 hk with rfl | hk
      · exact hfree other (List.mem_eraseIdx_iff_getElem?.2 ⟨u, htu.symm, hu⟩)
      · exact hlocks key hk
    · simp only [Tx.allGroups, hgroups, List.append_nil]
      simpa [Tx.allGroups, Phase.group] using hg

/-- A group row with an unused id, at the end of its graph's log. -/
theorem Inv.insertsGroup (hI : Inv hashtext db) (ht : db.txs[t]? = some tx) {group : Group}
    (hphase : tx.phase = .positioned group.graph (logEnd group.graph (db.groups ++ tx.groups)))
    (hlock : hashtext group.graph ∈ tx.locks) (hfirst : group.first = logEnd group.graph (db.groups ++ tx.groups) + 1)
    (hle : group.first ≤ group.last) (hcommitted : group.groupId ∉ db.groups.map (·.groupId))
    (hopen : ∀ other ∈ db.txs, group.groupId ∉ other.allGroups.map (·.groupId)) :
    Inv hashtext (db.setTx t { tx with phase := .inserting group [] }) := by
  have hmem := List.mem_of_getElem? ht
  have htx := hI.txs tx hmem
  have hgroups : tx.allGroups = tx.groups := by simp [Tx.allGroups, hphase, Phase.group]
  refine hI.setTx ht ⟨htx.entries, htx.chain, htx.locked, ?_, hlock, hfirst, hle, 0, rfl⟩ fun u other htu hu => ?_
  · have hfresh := htx.fresh
    have hown := hopen tx hmem
    rw [hgroups] at hfresh hown
    simp only [Tx.allGroups, Phase.group]
    rw [← List.append_assoc, List.map_append, List.nodup_append]
    refine ⟨hfresh, by simp, ?_⟩
    intro a ha b hb hab
    simp only [List.map_cons, List.map_nil, List.mem_singleton] at hb
    rw [hab, hb, List.map_append, List.mem_append] at ha
    exact ha.elim hcommitted hown
  · obtain ⟨hlocks, hids⟩ := hI.apart t u tx other htu ht hu
    refine ⟨hlocks, fun g hg => ?_⟩
    simp only [Tx.allGroups, Phase.group, List.mem_append, List.mem_singleton] at hg
    rcases hg with hg | rfl
    · exact hids g (by rw [hgroups]; exact hg)
    · exact hopen other (List.mem_of_getElem? hu)

/-- The savepoint of a whole group is released: its rows follow on the transaction's others. -/
theorem Inv.releasesSavepoint (hI : Inv hashtext db) (ht : db.txs[t]? = some tx) {group : Group} {entries : List Entry}
    (hphase : tx.phase = .inserting group entries) (hfull : group.first + entries.length = group.last + 1) :
    Inv hashtext (db.setTx t { tx with
      groups := tx.groups ++ [group], entries := tx.entries ++ entries, phase := .idle }) := by
  have htx := hI.txs tx (List.mem_of_getElem? ht)
  have hok := htx.phase
  rw [hphase] at hok
  obtain ⟨hlock, hfirst, hle, k, rfl⟩ := hok
  have hrows : group.rows.take k = group.rows := by
    apply List.take_of_length_le
    have hlen : group.rows.length = group.last + 1 - group.first := by simp [Group.rows]
    rw [List.length_take, hlen] at hfull
    omega
  have hall : ({ tx with groups := tx.groups ++ [group], entries := tx.entries ++ group.rows.take k, phase := .idle } : Tx).allGroups
      = tx.allGroups := by
    simp [Tx.allGroups, hphase, Phase.group]
  refine hI.setTx ht ⟨?_, fun graph => ?_, ?_, ?_, trivial⟩ fun u other htu hu => ?_
  · simp [htx.entries, hrows]
  · rw [ofGraph_append, consecutive_append]
    refine ⟨htx.chain graph, ?_⟩
    by_cases hg : group.graph = graph
    · subst hg
      have hone : ofGraph group.graph [group] = [group] := by simp [ofGraph]
      rw [hone]
      refine ⟨?_, hle, trivial⟩
      rw [hfirst, logEnd, ofGraph_append, endOf_append]
      rfl
    · have hnone : ofGraph graph [group] = [] := by simp [ofGraph, hg]
      rw [hnone]
      trivial
  · intro g hg
    rcases List.mem_append.1 hg with hg | hg
    · exact htx.locked g hg
    · cases List.mem_singleton.1 hg
      exact hlock
  · rw [hall]
    exact htx.fresh
  · obtain ⟨hlocks, hids⟩ := hI.apart t u tx other htu ht hu
    refine ⟨hlocks, ?_⟩
    rw [hall]
    exact hids

/-- A graph whose lock a transaction does not hold has none of its rows. -/
theorem ofGraph_eq_nil_of_unlocked (htx : TxOk hashtext db.groups tx) {graph : String} (h : hashtext graph ∉ tx.locks) :
    ofGraph graph tx.groups = [] := by
  unfold ofGraph
  refine List.filter_eq_nil_iff.2 fun group hg => ?_
  simp only [decide_eq_true_eq]
  intro hgraph
  exact h (hgraph ▸ htx.locked group hg)

/-- Another transaction's rows are committed: a transaction apart from it sees its own graphs as before. -/
theorem TxOk.committed {other : Tx} (hother : TxOk hashtext db.groups other) (htx : TxOk hashtext db.groups tx)
    (hphase : tx.phase = .idle) (h : Apart tx other) : TxOk hashtext (db.groups ++ tx.groups) other := by
  have hend : ∀ graph, hashtext graph ∈ other.locks → ∀ hs,
      logEnd graph (db.groups ++ tx.groups ++ hs) = logEnd graph (db.groups ++ hs) := by
    intro graph hlock hs
    have hnone := ofGraph_eq_nil_of_unlocked htx fun hin => h.1 _ hin hlock
    simp [logEnd, hnone]
  refine ⟨hother.entries, fun graph => ?_, hother.locked, ?_, ?_⟩
  · by_cases hlock : hashtext graph ∈ other.locks
    · have := hend graph hlock []
      rw [List.append_nil, List.append_nil] at this
      rw [this]
      exact hother.chain graph
    · rw [ofGraph_eq_nil_of_unlocked hother hlock]
      trivial
  · have hall : tx.allGroups = tx.groups := by simp [Tx.allGroups, hphase, Phase.group]
    have h1 := htx.fresh
    have h2 := hother.fresh
    rw [hall, List.map_append, List.nodup_append] at h1
    rw [List.map_append, List.nodup_append] at h2
    rw [List.append_assoc, List.map_append, List.nodup_append]
    refine ⟨h1.1, ?_, ?_⟩
    · rw [List.map_append, List.nodup_append]
      refine ⟨h1.2.1, h2.2.1, ?_⟩
      intro a ha b hb hab
      obtain ⟨group, hg, rfl⟩ := List.mem_map.1 ha
      exact h.2 group (by rw [hall]; exact hg) (hab ▸ hb)
    · intro a ha b hb
      rw [List.map_append, List.mem_append] at hb
      exact hb.elim (h1.2.2 a ha b) (h2.2.2 a ha b)
  · have hph := hother.phase
    cases hp : other.phase with
    | idle => trivial
    | ended => trivial
    | locked graph =>
      rw [hp] at hph
      exact hph
    | positioned graph lastLogged =>
      rw [hp] at hph
      exact ⟨hph.1, by rw [hend graph hph.1]; exact hph.2⟩
    | inserting group entries =>
      rw [hp] at hph
      obtain ⟨hlock, hfirst, hle, k, hk⟩ := hph
      exact ⟨hlock, by rw [hend _ hlock]; exact hfirst, hle, k, hk⟩

theorem logEnd_le_committed (htx : TxOk hashtext db.groups tx) (graph : String) :
    logEnd graph db.groups ≤ logEnd graph (db.groups ++ tx.groups) := by
  unfold logEnd
  rw [ofGraph_append, endOf_append]
  exact le_endOf (htx.chain graph)

/-- **Commit.** The transaction's groups become the end of the committed log. -/
theorem Inv.commits (hI : Inv hashtext db) (ht : db.txs[t]? = some tx) (hidle : tx.phase = .idle) :
    Inv hashtext { db.setTx t { phase := .ended } with
      groups := db.groups ++ tx.groups, entries := db.entries ++ tx.entries } := by
  have htx := hI.txs tx (List.mem_of_getElem? ht)
  have hall : tx.allGroups = tx.groups := by simp [Tx.allGroups, hidle, Phase.group]
  have hids : ((db.groups ++ tx.groups).map (·.groupId)).Nodup := hall ▸ htx.fresh
  have hset := hI.setTx ht (txOk_ended hI.ids .ended (.inr rfl)) fun _ other _ _ => apart_ended .ended (.inr rfl) other
  refine ⟨?_, fun graph => ?_, hids, fun other hmem => ?_, hset.apart, ?_, fun mtx hm => ?_, hI.rowLocks⟩
  · change db.entries ++ tx.entries = (db.groups ++ tx.groups).flatMap Group.rows
    rw [List.flatMap_append, hI.entries, htx.entries]
  · change Consecutive 0 (ofGraph graph (db.groups ++ tx.groups))
    rw [ofGraph_append, consecutive_append]
    exact ⟨hI.chain graph, htx.chain graph⟩
  · obtain ⟨u, hu⟩ := List.getElem?_of_mem hmem
    simp only [Db.setTx, List.getElem?_set] at hu
    by_cases htu : t = u
    · subst htu
      rw [if_pos rfl] at hu
      split at hu
      · cases hu
        exact @txOk_ended _ { db with groups := db.groups ++ tx.groups } hids .ended (.inr rfl)
      · cases hu
    · rw [if_neg htu] at hu
      exact (hI.txs other (List.mem_of_getElem? hu)).committed htx hidle (hI.apart t u tx other htu ht hu)
  · intro graph stored h
    exact (hI.markers graph stored h).trans (logEnd_le_committed htx graph)
  · have hold := hI.markerTxs mtx hm
    cases mtx with
    | wrote graph applied => exact ⟨hold.1.trans (logEnd_le_committed htx graph), hold.2⟩
    | checked graph position => trivial
    | ended => trivial

/-! ### Marker advances -/

theorem Inv.setMarkerTx (hI : Inv hashtext db) {m : Nat} {mtx : MarkerTx} (hok : MarkerTxOk db mtx)
    (hrow : ∀ graph, mtx.row = some graph → ∀ k other, m ≠ k → db.markerTxs[k]? = some other → other.row ≠ some graph) :
    Inv hashtext (db.setMarkerTx m mtx) where
  entries := hI.entries
  chain := hI.chain
  ids := hI.ids
  txs := hI.txs
  apart := hI.apart
  markers := hI.markers
  markerTxs other hmem := by
    rcases List.mem_or_eq_of_mem_set hmem with hmem | rfl
    · exact hI.markerTxs other hmem
    · exact hok
  rowLocks a b x y graph hab ha hb hx := by
    simp only [Db.setMarkerTx, List.getElem?_set] at ha hb
    by_cases hma : m = a
    · subst hma
      rw [if_pos rfl] at ha
      rw [if_neg hab] at hb
      split at ha
      · cases ha
        exact hrow graph hx b y hab hb
      · cases ha
    · rw [if_neg hma] at ha
      by_cases hmb : m = b
      · subst hmb
        rw [if_pos rfl] at hb
        split at hb
        · cases hb
          intro hy
          exact hrow graph hy a x hma ha hx
        · cases hb
      · rw [if_neg hmb] at hb
        exact hI.rowLocks a b x y graph hab ha hb hx

theorem Inv.markerChecks (hI : Inv hashtext db) (graph : String) (position : Nat) :
    Inv hashtext { db with markerTxs := db.markerTxs ++ [.checked graph position] } := by
  refine ⟨hI.entries, hI.chain, hI.ids, hI.txs, hI.apart, hI.markers, fun mtx hm => ?_, fun a b x y g hab ha hb hx => ?_⟩
  · rcases List.mem_append.1 hm with hm | hm
    · exact hI.markerTxs mtx hm
    · cases List.mem_singleton.1 hm
      trivial
  · have hold : ∀ (k : Nat) (z : MarkerTx), (db.markerTxs ++ [.checked graph position])[k]? = some z → z.row = some g →
        db.markerTxs[k]? = some z := by
      intro k z hz hrow
      rcases Nat.lt_or_ge k db.markerTxs.length with hlt | hge
      · rwa [List.getElem?_append_left hlt] at hz
      · rw [List.getElem?_append_right hge] at hz
        cases List.mem_singleton.1 (List.mem_of_getElem? hz)
        cases hrow
    intro hy
    exact hI.rowLocks a b x y g hab (hold a x ha hx) (hold b y hb hy) hx hy

/-- The marker a writing advance commits is no lower than the stored one and in the log. -/
theorem Inv.markerCommits (hI : Inv hashtext db) {m : Nat} {graph : String} {applied : Nat}
    (hm : db.markerTxs[m]? = some (.wrote graph applied)) :
    Inv hashtext { db.setMarkerTx m .ended with markers := db.markers.insert graph applied } := by
  have hok := hI.markerTxs _ (List.mem_of_getElem? hm)
  have hset := @Inv.setMarkerTx _ _ hI m .ended trivial (by simp [MarkerTx.row])
  refine ⟨hI.entries, hI.chain, hI.ids, hI.txs, hI.apart, ?_, fun mtx hmem => ?_, hset.rowLocks⟩
  · intro other stored h
    simp only [ExtTreeMap.getElem?_insert] at h
    split at h
    · rename_i heq
      rw [compare_eq_iff_eq] at heq
      cases h
      exact heq ▸ hok.1
    · exact hI.markers other stored h
  · have hold := hset.markerTxs mtx hmem
    cases mtx with
    | checked g p => trivial
    | ended => trivial
    | wrote g p =>
      refine ⟨hold.1, fun stored h => ?_⟩
      simp only [ExtTreeMap.getElem?_insert] at h
      split at h
      · -- the row lock keeps a second writer of this marker out
        rename_i heq
        rw [compare_eq_iff_eq] at heq
        obtain ⟨k, hk⟩ := List.getElem?_of_mem hmem
        simp only [Db.setMarkerTx, List.getElem?_set] at hk
        by_cases hmk : m = k
        · subst hmk
          rw [if_pos rfl] at hk
          split at hk <;> cases hk
        · rw [if_neg hmk] at hk
          exact absurd (by rw [heq]; rfl) (hI.rowLocks m k _ _ graph hmk hm hk rfl)
      · exact hold.2 stored h

end Steps

/-- **Step.** Every statement keeps the invariant. -/
theorem Inv.step {db db' : Db} {e : Event} (hI : Inv hashtext db) (h : step hashtext db e = some db') :
    Inv hashtext db' := by
  cases e with
  | begins t =>
    simp only [LogTransactions.step] at h
    split at h
    · cases h
      exact hI.begins
    · cases h
  | locks t graph =>
    obtain ⟨tx, ht, h⟩ := Option.bind_eq_some_iff.1 h
    split at h
    · rename_i hc
      cases h
      exact hI.locks ht hc.1 hc.2
    · cases h
  | readsLast t =>
    obtain ⟨tx, ht, h⟩ := Option.bind_eq_some_iff.1 h
    have htx := hI.txs tx (List.mem_of_getElem? ht)
    split at h
    · rename_i graph hphase
      cases h
      have hlock := htx.phase
      rw [hphase] at hlock
      refine hI.setPhase ht (by simp [Phase.group]) (by simp [Phase.group]) ⟨hlock, ?_⟩
      exact hI.lastPosition htx (by rw [hphase]; rfl) graph
    · cases h
  | insertsGroup t groupId count =>
    obtain ⟨tx, ht, h⟩ := Option.bind_eq_some_iff.1 h
    have htx := hI.txs tx (List.mem_of_getElem? ht)
    split at h
    · rename_i graph lastLogged hphase
      simp only at h
      split at h
      · rename_i hc
        cases h
        have hok := htx.phase
        rw [hphase] at hok
        obtain ⟨hlock, rfl⟩ := hok
        exact hI.insertsGroup ht hphase hlock rfl hc.2.2 hc.1 hc.2.1
      · cases h
    · cases h
  | insertsEntry t =>
    obtain ⟨tx, ht, h⟩ := Option.bind_eq_some_iff.1 h
    have htx := hI.txs tx (List.mem_of_getElem? ht)
    split at h
    · rename_i group entries hphase
      simp only at h
      split at h
      · rename_i hc
        cases h
        have hok := htx.phase
        rw [hphase] at hok
        obtain ⟨hlock, hfirst, hle, k, rfl⟩ := hok
        refine hI.setPhase ht (by rw [hphase]; exact fun g h => h) (by simp [Phase.group]) ⟨hlock, hfirst, hle, ?_⟩
        -- the rows so far are a beginning of the group's rows, one longer now
        have hlen : (group.rows.take k).length ≤ k := List.length_take_le _ _
        have htake : group.rows.take (group.rows.take k).length = group.rows.take k := by
          rw [List.length_take, List.take_eq_take_iff]
          simp
        refine ⟨(group.rows.take k).length + 1, ?_⟩
        rw [← rows_take_succ group hc.1, htake]
      · cases h
    · cases h
  | releasesSavepoint t =>
    obtain ⟨tx, ht, h⟩ := Option.bind_eq_some_iff.1 h
    split at h
    · rename_i group entries hphase
      split at h
      · rename_i hfull
        cases h
        exact hI.releasesSavepoint ht hphase hfull
      · cases h
    · cases h
  | rollsBackToSavepoint t =>
    obtain ⟨tx, ht, h⟩ := Option.bind_eq_some_iff.1 h
    split at h
    · cases h
    · cases h
      exact hI.setPhase ht (by simp [Phase.group]) (by simp [Phase.group]) trivial
  | commits t =>
    obtain ⟨tx, ht, h⟩ := Option.bind_eq_some_iff.1 h
    split at h
    · rename_i hc
      cases h
      exact hI.commits ht hc.1
    · cases h
  | rollsBack t =>
    obtain ⟨tx, ht, h⟩ := Option.bind_eq_some_iff.1 h
    split at h
    · cases h
    · cases h
      exact hI.setTx ht (txOk_ended hI.ids .ended (.inr rfl)) fun _ other _ _ => apart_ended .ended (.inr rfl) other
  | markerChecks m graph position =>
    simp only [LogTransactions.step] at h
    split at h
    · cases h
      exact hI.markerChecks graph position
    · cases h
  | markerWrites m =>
    obtain ⟨mtx, hm, h⟩ := Option.bind_eq_some_iff.1 h
    cases mtx with
    | checked graph position =>
      simp only at h
      split at h
      · rename_i hc
        cases h
        rw [hI.lastPosition_committed] at hc
        refine hI.setMarkerTx ⟨?_, ?_⟩ fun g hg k other _ hk => ?_
        · split
          · rename_i stored hstored
            split
            · exact hc.2
            · exact hI.markers graph stored hstored
          · exact hc.2
        · intro stored hstored
          rw [hstored]
          simp only
          split <;> omega
        · cases hg
          exact hc.1 other (List.mem_of_getElem? hk)
      · cases h
    | wrote graph applied => cases h
    | ended => cases h
  | markerCommits m =>
    obtain ⟨mtx, hm, h⟩ := Option.bind_eq_some_iff.1 h
    cases mtx with
    | wrote graph applied =>
      cases h
      exact hI.markerCommits hm
    | checked graph position => cases h
    | ended => cases h
  | markerRollsBack m =>
    obtain ⟨mtx, hm, h⟩ := Option.bind_eq_some_iff.1 h
    cases mtx with
    | ended => cases h
    | checked graph position =>
      cases h
      exact hI.setMarkerTx trivial (by simp [MarkerTx.row])
    | wrote graph applied =>
      cases h
      exact hI.setMarkerTx trivial (by simp [MarkerTx.row])

/-! ## The database checks never refuse -/

/-- The entries under one id are the rows of the group that has it. -/
theorem filter_groupId {groups : List Group} (hids : (groups.map (·.groupId)).Nodup) {group : Group}
    (hg : group ∈ groups) : (groups.flatMap Group.rows).filter (·.groupId = group.groupId) = group.rows := by
  have hother : ∀ gs : List Group, group.groupId ∉ gs.map (·.groupId) →
      (gs.flatMap Group.rows).filter (·.groupId = group.groupId) = [] := by
    intro gs hgs
    refine List.filter_eq_nil_iff.2 fun e he => ?_
    obtain ⟨g, hmem, hrow⟩ := List.mem_flatMap.1 he
    simp only [decide_eq_true_eq, rows_groupId hrow]
    intro heq
    exact hgs (heq ▸ List.mem_map_of_mem hmem)
  obtain ⟨xs, ys, rfl⟩ := List.append_of_mem hg
  rw [List.map_append, List.map_cons, List.nodup_middle, List.nodup_cons, List.mem_append] at hids
  rw [List.flatMap_append, List.flatMap_cons, List.filter_append, List.filter_append,
    hother xs fun h => hids.1 (.inl h), hother ys fun h => hids.1 (.inr h),
    List.filter_eq_self.2 fun e he => by simp [rows_groupId he]]
  simp

theorem first_le_last {n : Nat} {groups : List Group} (h : Consecutive n groups) {group : Group}
    (hg : group ∈ groups) : group.first ≤ group.last := by
  induction groups generalizing n with
  | nil => cases hg
  | cons g gs ih =>
    rcases List.mem_cons.1 hg with rfl | hg
    · exact h.2.1
    · exact ih h.2.2 hg

theorem mem_ofGraph {group : Group} {groups : List Group} (h : group ∈ groups) : group ∈ ofGraph group.graph groups :=
  List.mem_filter.2 ⟨h, by simp⟩

/-! ## Every run -/

/-- What every committed state of the log satisfies. -/
structure Sound (db : Db) : Prop where
  /-- Each graph's positions are 1..n, and its marker is at most n. -/
  positions : ∀ graph, ∃ n, (db.entries.filter (·.graph = graph)).map (·.position) = List.range' 1 n ∧
    ∀ stored, db.markers[graph]? = some stored → stored ≤ n
  /-- The entries of a group are one contiguous non-empty range of one graph. -/
  owned : ∀ group ∈ db.groups, group.first ≤ group.last ∧
    db.entries.filter (·.groupId = group.groupId) = group.rows
  covered : ∀ e ∈ db.entries, ∃ group ∈ db.groups, e ∈ group.rows
  disjoint : db.groups.Pairwise fun g h => g.graph = h.graph → g.last < h.first

/-- How the log may go on: rows are only added, at the end, and markers only advance. -/
structure Later (db db' : Db) : Prop where
  groups : db.groups <+: db'.groups
  entries : db.entries <+: db'.entries
  markers : ∀ (graph : String) (stored : Nat), db.markers[graph]? = some stored →
    ∃ stored', db'.markers[graph]? = some stored' ∧ stored ≤ stored'

theorem Later.refl (db : Db) : Later db db :=
  ⟨List.prefix_refl _, List.prefix_refl _, fun _ stored h => ⟨stored, h, le_rfl⟩⟩

theorem Later.trans {a b c : Db} (hab : Later a b) (hbc : Later b c) : Later a c := by
  refine ⟨hab.groups.trans hbc.groups, hab.entries.trans hbc.entries, fun graph stored h => ?_⟩
  obtain ⟨s, hs, hle⟩ := hab.markers graph stored h
  obtain ⟨s', hs', hle'⟩ := hbc.markers graph s hs
  exact ⟨s', hs', hle.trans hle'⟩

theorem last_lt_of_consecutive {n : Nat} {groups : List Group} (h : Consecutive n groups) :
    (∀ g ∈ groups, n < g.first) ∧ groups.Pairwise fun g k => g.last < k.first := by
  induction groups generalizing n with
  | nil => simp
  | cons g gs ih =>
    obtain ⟨hfirst, hle, hrest⟩ := h
    obtain ⟨hall, hpair⟩ := ih hrest
    refine ⟨fun k hk => ?_, List.pairwise_cons.2 ⟨hall, hpair⟩⟩
    rcases List.mem_cons.1 hk with rfl | hk
    · omega
    · have := hall k hk
      omega

theorem Inv.sound {db : Db} (hI : Inv hashtext db) : Sound db where
  positions graph := by
    refine ⟨logEnd graph db.groups, ?_, hI.markers graph⟩
    rw [hI.entries, filter_rows, positions_of_consecutive (hI.chain graph)]
    rfl
  owned group hg := by
    refine ⟨first_le_last (hI.chain group.graph) (mem_ofGraph hg), ?_⟩
    rw [hI.entries]
    exact filter_groupId hI.ids hg
  covered e he := by
    rw [hI.entries] at he
    exact List.mem_flatMap.1 he
  disjoint := by
    refine List.pairwise_iff_forall_sublist.2 fun {g h} hsub heq => ?_
    have hpair := (last_lt_of_consecutive (hI.chain g.graph)).2
    refine List.pairwise_iff_forall_sublist.1 hpair ?_
    have := hsub.filter fun k => decide (k.graph = g.graph)
    simpa [ofGraph, heq] using this

/-- A step only adds rows at the end and only advances markers. -/
theorem Inv.later {db db' : Db} {e : Event} (hI : Inv hashtext db) (h : LogTransactions.step hashtext db e = some db') :
    Later db db' := by
  have hsame : ∀ {a b : Db}, a.groups = b.groups → a.entries = b.entries → a.markers = b.markers → Later a b := by
    intro a b h1 h2 h3
    exact ⟨h1 ▸ List.prefix_refl _, h2 ▸ List.prefix_refl _, fun graph stored hs => ⟨stored, h3 ▸ hs, le_rfl⟩⟩
  cases e with
  | begins t =>
    simp only [LogTransactions.step] at h
    split at h
    · cases h
      exact hsame rfl rfl rfl
    · cases h
  | commits t =>
    obtain ⟨tx, ht, h⟩ := Option.bind_eq_some_iff.1 h
    split at h
    · cases h
      exact ⟨List.prefix_append _ _, List.prefix_append _ _, fun _ stored hs => ⟨stored, hs, le_rfl⟩⟩
    · cases h
  | markerChecks m graph position =>
    simp only [LogTransactions.step] at h
    split at h
    · cases h
      exact hsame rfl rfl rfl
    · cases h
  | markerCommits m =>
    obtain ⟨mtx, hm, h⟩ := Option.bind_eq_some_iff.1 h
    cases mtx with
    | wrote graph applied =>
      cases h
      have hok := hI.markerTxs _ (List.mem_of_getElem? hm)
      refine ⟨List.prefix_refl _, List.prefix_refl _, fun other stored hs => ?_⟩
      simp only [ExtTreeMap.getElem?_insert]
      split
      · rename_i heq
        rw [compare_eq_iff_eq] at heq
        subst heq
        exact ⟨applied, rfl, hok.2 stored hs⟩
      · exact ⟨stored, hs, le_rfl⟩
    | checked graph position => cases h
    | ended => cases h
  | locks t graph =>
    obtain ⟨tx, ht, h⟩ := Option.bind_eq_some_iff.1 h
    split at h
    · cases h
      exact hsame rfl rfl rfl
    · cases h
  | readsLast t =>
    obtain ⟨tx, ht, h⟩ := Option.bind_eq_some_iff.1 h
    split at h
    · cases h
      exact hsame rfl rfl rfl
    · cases h
  | insertsGroup t groupId count =>
    obtain ⟨tx, ht, h⟩ := Option.bind_eq_some_iff.1 h
    split at h
    · simp only at h
      split at h
      · cases h
        exact hsame rfl rfl rfl
      · cases h
    · cases h
  | insertsEntry t =>
    obtain ⟨tx, ht, h⟩ := Option.bind_eq_some_iff.1 h
    split at h
    · simp only at h
      split at h
      · cases h
        exact hsame rfl rfl rfl
      · cases h
    · cases h
  | releasesSavepoint t =>
    obtain ⟨tx, ht, h⟩ := Option.bind_eq_some_iff.1 h
    split at h
    · split at h
      · cases h
        exact hsame rfl rfl rfl
      · cases h
    · cases h
  | rollsBackToSavepoint t =>
    obtain ⟨tx, ht, h⟩ := Option.bind_eq_some_iff.1 h
    split at h
    · cases h
    · cases h
      exact hsame rfl rfl rfl
  | rollsBack t =>
    obtain ⟨tx, ht, h⟩ := Option.bind_eq_some_iff.1 h
    split at h
    · cases h
    · cases h
      exact hsame rfl rfl rfl
  | markerWrites m =>
    obtain ⟨mtx, hm, h⟩ := Option.bind_eq_some_iff.1 h
    cases mtx with
    | checked graph position =>
      simp only at h
      split at h
      · cases h
        exact hsame rfl rfl rfl
      · cases h
    | wrote graph applied => cases h
    | ended => cases h
  | markerRollsBack m =>
    obtain ⟨mtx, hm, h⟩ := Option.bind_eq_some_iff.1 h
    cases mtx with
    | ended => cases h
    | checked graph position =>
      cases h
      exact hsame rfl rfl rfl
    | wrote graph applied =>
      cases h
      exact hsame rfl rfl rfl

/-- **Positions of the log.** Under every interleaving of appending transactions and marker advances, with
their commits and rollbacks, each graph's committed positions are 1..n, each group owns one contiguous range of
one graph, the ranges are disjoint and cover the log, and no marker passes n; from there on rows are only
added and markers only advance. -/
theorem log_positions_sound (hashtext : String → Int) {past : List Event} {db : Db}
    (hpast : after (step hashtext) {} past = some db) :
    Sound db ∧ ∀ future db', after (step hashtext) db future = some db' → Later db db' := by
  have hI : Inv hashtext db := after_keeps Inv.initial (fun _ _ _ hI hs => hI.step hs) hpast
  refine ⟨hI.sound, fun future db' hfuture => ?_⟩
  exact after_rel Later.refl (fun _ _ _ => Later.trans) (fun _ _ _ hI hs => hI.step hs)
    (fun _ _ _ hI hs => hI.later hs) hI hfuture

/-- A multi-graph transaction and a standalone one interleave; the standalone one waits for the lock, and a
third is rolled back. -/
theorem log_positions_sound_interleaved :
    let past : List Event := [.begins 0, .begins 1, .locks 0 "a", .readsLast 0, .insertsGroup 0 7 2, .insertsEntry 0,
      .insertsEntry 0, .releasesSavepoint 0, .locks 0 "b", .readsLast 0, .insertsGroup 0 8 1, .insertsEntry 0,
      .releasesSavepoint 0, .commits 0, .locks 1 "a", .readsLast 1, .insertsGroup 1 9 1, .insertsEntry 1,
      .markerChecks 0 "a" 2, .markerWrites 0, .rollsBack 1, .markerCommits 0]
    ∃ db, after (step fun graph => graph.length) {} past = some db ∧ Sound db := by
  intro past
  have hsome : (after (step fun graph => graph.length) {} past).isSome = true := by decide +kernel
  obtain ⟨db, hdb⟩ := Option.isSome_iff_exists.1 hsome
  exact ⟨db, hdb, (log_positions_sound _ hdb).1⟩

end LogTransactions

end PolicySystem
