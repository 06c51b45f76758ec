import PolicySystem.Gateway.Redo

/-!
# The invariant of the gateway

* `numbered`: entries at consecutive positions, as the log holds them;
* `GraphView`, `GraphOk`: one graph's log, groups, marker, content and staged copies, and what holds of them;
* `GatewayOk`: what holds of the world, given the swap sets that are renamed;
* `GatewayOk.append`, `.query`, `.advance`, `.stage`, `.flip`, ...: **each move of the gateway keeps it**.
-/

namespace PolicySystem

open PropertyGraph GraphWrite

/-! ## Positions -/

/-- Primitives at consecutive positions. -/
def numbered (first : ℕ) : List Primitive → List Positioned
  | [] => []
  | p :: ps => (first, p) :: numbered (first + 1) ps

def rowOf (entry : Positioned) : LogRow := ⟨entry.1, some entry.2⟩

@[simp] theorem map_snd_numbered (first : ℕ) (ps : List Primitive) : (numbered first ps).map Prod.snd = ps := by
  induction ps generalizing first with
  | nil => rfl
  | cons p ps ih => rw [numbered, List.map_cons, ih]

@[simp] theorem numbered_length (first : ℕ) (ps : List Primitive) : (numbered first ps).length = ps.length := by
  rw [← List.length_map (f := Prod.snd), map_snd_numbered]

theorem numbered_append (first : ℕ) (ps qs : List Primitive) :
    numbered first (ps ++ qs) = numbered first ps ++ numbered (first + ps.length) qs := by
  induction ps generalizing first with
  | nil => simp [numbered]
  | cons p ps ih =>
    rw [List.cons_append, numbered, ih, numbered, List.cons_append, List.length_cons, Nat.add_assoc, Nat.add_comm 1]

/-- A prefix of consecutive entries, and what follows it. -/
theorem numbered_split {first : ℕ} {ps : List Primitive} {xs ys : List Positioned} (h : numbered first ps = xs ++ ys) :
    xs = numbered first (ps.take xs.length) ∧ ys = numbered (first + xs.length) (ps.drop xs.length) := by
  have hlen : xs.length ≤ ps.length := by
    have := congrArg List.length h
    rw [numbered_length, List.length_append] at this
    omega
  have hsplit : numbered first ps =
      numbered first (ps.take xs.length) ++ numbered (first + xs.length) (ps.drop xs.length) := by
    conv_lhs => rw [← List.take_append_drop xs.length ps, numbered_append]
    rw [List.length_take, Nat.min_eq_left hlen]
  have hxs : xs.length = (numbered first (ps.take xs.length)).length := by
    rw [numbered_length, List.length_take, Nat.min_eq_left hlen]
  exact List.append_inj (h.symm.trans hsplit) hxs

theorem numbered_getLast {first : ℕ} {ps : List Primitive} {last : Positioned}
    (h : (numbered first ps).getLast? = some last) : last.1 + 1 = first + ps.length := by
  induction ps using List.reverseRecOn with
  | nil => simp [numbered] at h
  | append_singleton ps p =>
    rw [numbered_append, numbered, numbered, List.getLast?_concat, Option.some.injEq] at h
    subst h
    rw [List.length_append, List.length_singleton, Nat.add_assoc]

theorem mapIdx_rowOf (first : ℕ) (ps : List Primitive) :
    (ps.mapIdx fun i p => (⟨first + i, some p⟩ : LogRow)) = (numbered first ps).map rowOf := by
  induction ps generalizing first with
  | nil => rfl
  | cons p ps ih =>
    rw [List.mapIdx_cons, numbered, List.map_cons, ← ih]
    simp [rowOf, Nat.add_comm 1, Nat.add_assoc]

@[simp] theorem primitives_rowOf (entries : List Positioned) :
    (entries.map rowOf).filterMap LogRow.primitive = entries.map Prod.snd := by
  induction entries with
  | nil => rfl
  | cons x entries ih =>
    rw [List.map_cons, List.map_cons, ← ih]
    rfl

/-- The entries beyond a position. -/
theorem filter_numbered (first after : ℕ) (ps : List Primitive) :
    ((numbered first ps).map rowOf).filter (fun row => first + after ≤ row.position) =
      (numbered (first + after) (ps.drop after)).map rowOf := by
  induction ps generalizing first after with
  | nil => simp [numbered]
  | cons p ps ih =>
    rw [numbered, List.map_cons, List.filter_cons]
    cases after with
    | zero =>
      have htail := ih (first + 1) 0
      have hall : ((numbered (first + 1) ps).map rowOf).filter (fun row => first + 0 ≤ row.position) =
          ((numbered (first + 1) ps).map rowOf).filter (fun row => first + 1 + 0 ≤ row.position) := by
        refine List.filter_congr fun row hrow => ?_
        have hfirst : ∀ (qs : List Primitive) (n : ℕ), row ∈ (numbered n qs).map rowOf → n ≤ row.position := by
          intro qs
          induction qs with
          | nil => intro n hn; simp [numbered] at hn
          | cons q qs ihq =>
            intro n hn
            rw [numbered, List.map_cons, List.mem_cons] at hn
            rcases hn with rfl | hn
            · exact le_refl _
            · have := ihq (n + 1) hn; omega
        have := hfirst ps (first + 1) hrow
        simp only [decide_eq_decide]
        omega
      rw [hall, htail]
      simp [rowOf, numbered]
    | succ after =>
      rw [if_neg (by simp [rowOf]), List.drop_succ_cons]
      have hsame : first + (after + 1) = first + 1 + after := by omega
      rw [hsame]
      exact ih (first + 1) after

theorem lastPositionOf_numbered (ps : List Primitive) : lastPositionOf ((numbered 1 ps).map rowOf) = ps.length := by
  have hgen : ∀ first, lastPositionOf ((numbered (first + 1) ps).map rowOf) = if ps = [] then 0 else first + ps.length := by
    induction ps with
    | nil => intro first; rfl
    | cons p ps ih =>
      intro first
      have htail := ih (first + 1)
      unfold lastPositionOf at htail ⊢
      rw [numbered, List.map_cons, List.map_cons, List.foldr_cons, htail, List.length_cons]
      show max (first + 1) _ = _
      split
      · rename_i h; subst h; simp
      · rw [if_neg (by simp)]; omega
  have := hgen 0
  rw [Nat.zero_add] at this
  rw [this]
  split
  · rename_i h; rw [h]; rfl
  · omega

/-! ## One graph -/

/-- What belongs to one graph: its log, its marker, its content and its staged copies. -/
structure GraphView where
  entries : List LogRow
  rows : List GroupRow
  applied : ℕ
  content : Graph
  staged : ℕ → Option StoredGraph

def World.view (w : World) (g : String) : GraphView :=
  ⟨w.entries g, w.groups.filter fun row => row.graph = g, w.applied g, w.content g, w.staged g⟩

@[simp] theorem view_applied (w : World) (g : String) : (w.view g).applied = w.applied g := rfl

@[simp] theorem view_content (w : World) (g : String) : (w.view g).content = w.content g := rfl

@[simp] theorem view_staged (w : World) (g : String) : (w.view g).staged = w.staged g := rfl

/-- The primitives of the log, in position order. -/
def GraphView.logged (v : GraphView) : List Primitive := v.entries.filterMap LogRow.primitive

/-- The positions of a group. -/
def GroupRow.positions (row : GroupRow) : List ℕ :=
  List.range' row.firstPosition (row.lastPosition + 1 - row.firstPosition)

namespace GraphView

/-- The entries beyond the marker. -/
def pending (v : GraphView) : List Positioned := numbered (v.applied + 1) (v.logged.drop v.applied)

/-- The entries up to the marker, over the initial content. -/
def atMarker (v : GraphView) (start : Graph) : Graph := applyAll start (v.logged.take v.applied)

/-- All the entries, over the initial content. -/
def atLast (v : GraphView) (start : Graph) : Graph := applyAll start v.logged

/-- No group that waits to be swapped. -/
def InPlace (v : GraphView) : Prop := ∀ r ∈ v.rows, r.swapSet ≠ none → r.lastPosition ≤ v.applied

def CaughtUp (v : GraphView) : Prop := v.applied = v.logged.length

end GraphView

/-- **A leg that waits to be swapped**: the one group beyond the marker, its entries fit to be applied over and
over, its staged copy partly built, and its graph as before the group until the set is renamed. -/
structure SwapPending (start : Graph) (flipped : ℕ → Prop) (v : GraphView) (r : GroupRow) (swapSet : ℕ) : Prop where
  first : r.firstPosition = v.applied + 1
  last : r.lastPosition = v.logged.length
  alone : ∀ r' ∈ v.rows, r' = r ∨ r'.lastPosition ≤ v.applied
  redo : ∃ stamps rest, v.logged.drop v.applied = stamps.map .stampEdgeIdentity ++ rest ∧
    Redoable (v.atMarker start) stamps rest ∧
    ∀ copy, v.staged swapSet = some copy → Partway (v.atMarker start) stamps rest copy.content
  before : ¬ flipped swapSet → v.content = v.atMarker start
  after : flipped swapSet → v.content = v.atLast start

/-- **What holds of one graph.** `flipped` are the swap sets that are renamed. -/
structure GraphOk (start : Graph) (flipped : ℕ → Prop) (v : GraphView) : Prop where
  entries : v.entries = (numbered 1 v.logged).map rowOf
  tiles : v.rows.flatMap GroupRow.positions = List.range' 1 v.logged.length
  filled : ∀ r ∈ v.rows, r.firstPosition ≤ r.lastPosition
  marker : v.applied ≤ v.logged.length
  waiting : ∀ r ∈ v.rows, ∀ s, r.swapSet = some s → ¬ flipped s → v.applied < r.lastPosition
  copies : ∀ s, v.staged s ≠ none → ∃ r ∈ v.rows, r.swapSet = some s
  inPlace : v.InPlace → Lags (v.atMarker start) v.pending v.content
  swap : ∀ r ∈ v.rows, ∀ s, r.swapSet = some s → v.applied < r.lastPosition → SwapPending start flipped v r s

section View

variable {start : Graph} {flipped : ℕ → Prop} {v : GraphView}

theorem GraphOk.last_le (h : GraphOk start flipped v) {r : GroupRow} (hr : r ∈ v.rows) :
    r.lastPosition ≤ v.logged.length := by
  have hfilled := h.filled r hr
  have hmem : r.lastPosition ∈ v.rows.flatMap GroupRow.positions := by
    refine List.mem_flatMap.2 ⟨r, hr, ?_⟩
    unfold GroupRow.positions
    rw [List.mem_range'_1]
    omega
  rw [h.tiles, List.mem_range'_1] at hmem
  omega

theorem GraphView.CaughtUp.inPlace (hc : v.CaughtUp) (h : GraphOk start flipped v) : v.InPlace := by
  intro r hr _
  rw [show v.applied = v.logged.length from hc]
  exact h.last_le hr

/-- **Caught up, the content is the log's.** -/
theorem GraphOk.content_eq (h : GraphOk start flipped v) (hc : v.CaughtUp) : v.content = v.atLast start := by
  have hlags := h.inPlace (hc.inPlace h)
  have hnone : v.pending = [] := by
    unfold GraphView.pending
    rw [show v.applied = v.logged.length from hc, List.drop_length]; rfl
  have hall : v.atMarker start = v.atLast start := by
    unfold GraphView.atMarker GraphView.atLast
    rw [show v.applied = v.logged.length from hc, List.take_length]
  rw [hnone] at hlags
  exact (lags_nil.1 hlags).trans hall

/-- A pass over the entries of a waiting leg leaves what the log says, from wherever passes broke off. -/
theorem redo_atLast {stamps : List EdgeBase} {rest : List Primitive} {c : Graph}
    (hlog : v.logged.drop v.applied = stamps.map .stampEdgeIdentity ++ rest)
    (hredo : Redoable (v.atMarker start) stamps rest) (hc : Partway (v.atMarker start) stamps rest c) :
    applyAll c (v.logged.drop v.applied) = v.atLast start := by
  rw [hlog, redo hredo hc, ← hlog]
  unfold GraphView.atMarker GraphView.atLast
  rw [← applyAll_append, List.take_append_drop]

/-! ### The moves of one graph -/

/-- Queries change the content of a graph that is applied in place. -/
theorem GraphOk.query (h : GraphOk start flipped v) (hin : v.InPlace) {c : Graph}
    (hc : Lags (v.atMarker start) v.pending c) : GraphOk start flipped { v with content := c } where
  entries := h.entries
  tiles := h.tiles
  filled := h.filled
  marker := h.marker
  waiting := h.waiting
  copies := h.copies
  inPlace _ := hc
  swap r hr s hs hlt := absurd (hin r hr (by rw [hs]; simp)) (Nat.not_le.2 hlt)

/-- The marker follows the first run. -/
theorem GraphOk.advance (h : GraphOk start flipped v) (hin : v.InPlace) {k : ℕ} (hk : v.applied ≤ k)
    (hlast : k ≤ v.logged.length) (hc : v.content = applyAll start (v.logged.take k)) :
    GraphOk start flipped { v with applied := k } where
  entries := h.entries
  tiles := h.tiles
  filled := h.filled
  marker := hlast
  waiting r hr s hs hf := by
    have := h.waiting r hr s hs hf
    have := hin r hr (by rw [hs]; simp)
    omega
  copies := h.copies
  inPlace _ := by
    rw [show ({ v with applied := k } : GraphView).content = ({ v with applied := k } : GraphView).atMarker start from hc]
    exact lags_refl _ _
  swap r hr s hs hlt := by
    have := hin r hr (by rw [hs]; simp)
    dsimp only at hlt
    omega

/-- The marker of a swapped leg goes to the end of its group. -/
theorem GraphOk.advanceSwapped (h : GraphOk start flipped v) {r : GroupRow} {s : ℕ} (hr : r ∈ v.rows)
    (hs : r.swapSet = some s) (hf : flipped s) :
    GraphOk start flipped { v with applied := max v.applied r.lastPosition } := by
  by_cases hlt : v.applied < r.lastPosition
  · have hswap := h.swap r hr s hs hlt
    rw [max_eq_right hlt.le]
    have hend : ∀ r' ∈ v.rows, r'.lastPosition ≤ r.lastPosition := by
      intro r' hr'
      rcases hswap.alone r' hr' with rfl | hle
      · exact le_refl _
      · omega
    exact {
      entries := h.entries
      tiles := h.tiles
      filled := h.filled
      marker := le_of_eq hswap.last
      waiting := by
        intro r' hr' s' hs' hf'
        have hw := h.waiting r' hr' s' hs' hf'
        rcases hswap.alone r' hr' with rfl | hle
        · rw [hs] at hs'; cases hs'; exact absurd hf hf'
        · omega
      copies := h.copies
      inPlace := by
        intro _
        -- the renamed copy holds the whole log, and nothing is pending
        have hdone : ({ v with applied := r.lastPosition } : GraphView).atMarker start = v.content := by
          rw [hswap.after hf]
          unfold GraphView.atMarker GraphView.atLast
          dsimp only
          rw [hswap.last]
          exact congrArg (applyAll start) List.take_length
        rw [hdone]
        exact lags_refl _ _
      swap := by
        intro r' hr' s' hs' hlt'
        have := hend r' hr'
        dsimp only at hlt'
        omega }
  · rw [max_eq_left (Nat.not_lt.1 hlt)]
    exact h

/-- A staged copy is built further, or dropped. -/
theorem GraphOk.stage (h : GraphOk start flipped v) {s : ℕ} {copy : Option StoredGraph}
    (hcopy : copy ≠ none → ∃ r ∈ v.rows, r.swapSet = some s)
    (hpart : ∀ r ∈ v.rows, r.swapSet = some s → v.applied < r.lastPosition → ∀ stamps rest,
      v.logged.drop v.applied = stamps.map .stampEdgeIdentity ++ rest → Redoable (v.atMarker start) stamps rest →
      (∀ c, v.staged s = some c → Partway (v.atMarker start) stamps rest c.content) →
      ∀ c, copy = some c → Partway (v.atMarker start) stamps rest c.content) :
    GraphOk start flipped { v with staged := Function.update v.staged s copy } where
  entries := h.entries
  tiles := h.tiles
  filled := h.filled
  marker := h.marker
  waiting := h.waiting
  copies s' hs' := by
    dsimp only at hs'
    by_cases hss : s' = s
    · subst hss
      rw [Function.update_self] at hs'
      exact hcopy hs'
    · rw [Function.update_of_ne hss] at hs'
      exact h.copies s' hs'
  inPlace := h.inPlace
  swap r hr s' hs' hlt := by
    have hswap := h.swap r hr s' hs' hlt
    refine ⟨hswap.first, hswap.last, hswap.alone, ?_, hswap.before, hswap.after⟩
    obtain ⟨stamps, rest, hlog, hredo, hparts⟩ := hswap.redo
    refine ⟨stamps, rest, hlog, hredo, fun c hc => ?_⟩
    by_cases hss : s' = s
    · subst hss
      dsimp only at hc
      rw [Function.update_self] at hc
      exact hpart r hr hs' hlt stamps rest hlog hredo hparts c hc
    · dsimp only at hc
      rw [Function.update_of_ne hss] at hc
      exact hparts c hc

/-- A leg is renamed: it shows the whole log. -/
theorem GraphOk.rename (h : GraphOk start flipped v) {s : ℕ} {r : GroupRow} (hr : r ∈ v.rows) (hs : r.swapSet = some s)
    (hlt : v.applied < r.lastPosition) :
    GraphOk start (fun s' => flipped s' ∨ s' = s)
      { v with content := v.atLast start, staged := Function.update v.staged s none } where
  entries := h.entries
  tiles := h.tiles
  filled := h.filled
  marker := h.marker
  waiting r hr s' hs' hf := h.waiting r hr s' hs' fun hf' => hf (.inl hf')
  copies s' hs' := by
    dsimp only at hs'
    by_cases hss : s' = s
    · subst hss
      rw [Function.update_self] at hs'
      exact absurd rfl hs'
    · rw [Function.update_of_ne hss] at hs'
      exact h.copies s' hs'
  inPlace hin := absurd (hin r hr (by rw [hs]; simp)) (Nat.not_le.2 hlt)
  swap r' hr' s' hs' hlt' := by
    have hswap := h.swap r hr s hs hlt
    -- the leg's own group is the only one beyond the marker
    rcases hswap.alone r' hr' with rfl | hle
    · rw [hs] at hs'
      cases hs'
      obtain ⟨stamps, rest, hlog, hredo, -⟩ := hswap.redo
      refine ⟨hswap.first, hswap.last, hswap.alone, ⟨stamps, rest, hlog, hredo, fun c hc => ?_⟩,
        fun hf => absurd (.inr rfl) hf, fun _ => rfl⟩
      dsimp only at hc
      rw [Function.update_self] at hc
      cases hc
    · dsimp only at hlt'
      omega

/-- A graph without a waiting leg of the set is as it was. -/
theorem GraphOk.notRenamed (h : GraphOk start flipped v) {s : ℕ}
    (hnone : ∀ r ∈ v.rows, r.swapSet = some s → v.applied < r.lastPosition → flipped s) :
    GraphOk start (fun s' => flipped s' ∨ s' = s) v where
  entries := h.entries
  tiles := h.tiles
  filled := h.filled
  marker := h.marker
  waiting r hr s' hs' hf := h.waiting r hr s' hs' fun hf' => hf (.inl hf')
  copies := h.copies
  inPlace := h.inPlace
  swap r hr s' hs' hlt := by
    have hswap := h.swap r hr s' hs' hlt
    refine ⟨hswap.first, hswap.last, hswap.alone, hswap.redo, fun hf => hswap.before fun hf' => hf (.inl hf'), ?_⟩
    rintro (hf | rfl)
    · exact hswap.after hf
    · exact hswap.after (hnone r hr hs' hlt)

/-- A group is appended to a graph that is caught up. -/
theorem GraphOk.append (h : GraphOk start flipped v) (hc : v.CaughtUp) {primitives : List Primitive}
    (hne : primitives ≠ []) {row : GroupRow} (hfirst : row.firstPosition = v.logged.length + 1)
    (hlast : row.lastPosition = v.logged.length + primitives.length)
    (hswap : ∀ s, row.swapSet = some s → ¬ flipped s ∧ (∀ r ∈ v.rows, r.swapSet ≠ some s) ∧
      ∃ stamps rest, primitives = stamps.map .stampEdgeIdentity ++ rest ∧ Redoable v.content stamps rest) :
    GraphOk start flipped { v with
      entries := v.entries ++ (numbered (v.logged.length + 1) primitives).map rowOf
      rows := v.rows ++ [row] } := by
  have hlen : 0 < primitives.length := List.length_pos_iff.2 hne
  have happlied : v.applied = v.logged.length := hc
  have hlogged : ({ v with
      entries := v.entries ++ (numbered (v.logged.length + 1) primitives).map rowOf
      rows := v.rows ++ [row] } : GraphView).logged = v.logged ++ primitives := by
    unfold GraphView.logged
    rw [List.filterMap_append, primitives_rowOf, map_snd_numbered]
  have hmarker : ({ v with
      entries := v.entries ++ (numbered (v.logged.length + 1) primitives).map rowOf
      rows := v.rows ++ [row] } : GraphView).atMarker start = v.content := by
    unfold GraphView.atMarker
    rw [hlogged, h.content_eq hc, GraphView.atLast]
    dsimp only
    rw [happlied, List.take_left]
  have hmem : ∀ r, r ∈ v.rows ++ [row] → r ∈ v.rows ∧ r.lastPosition ≤ v.applied ∨ r = row := by
    intro r hr
    rcases List.mem_append.1 hr with hr | hr
    · exact .inl ⟨hr, by rw [happlied]; exact h.last_le hr⟩
    · exact .inr (List.mem_singleton.1 hr)
  refine ⟨?_, ?_, ?_, ?_, ?_, ?_, ?_, ?_⟩
  · rw [hlogged, numbered_append, List.map_append, ← h.entries, Nat.add_comm 1]
  · rw [hlogged, List.flatMap_append, h.tiles, List.flatMap_singleton, GroupRow.positions, hfirst, hlast,
      List.length_append]
    have hcount : v.logged.length + primitives.length + 1 - (v.logged.length + 1) = primitives.length := by omega
    rw [hcount, Nat.add_comm v.logged.length 1]
    exact List.range'_append_1
  · intro r hr
    rcases hmem r hr with ⟨hr, -⟩ | rfl
    · exact h.filled r hr
    · omega
  · rw [hlogged, List.length_append]
    dsimp only
    omega
  · intro r hr s hs hf
    rcases hmem r hr with ⟨hr, -⟩ | rfl
    · exact h.waiting r hr s hs hf
    · dsimp only
      omega
  · intro s hs
    obtain ⟨r, hr, hrs⟩ := h.copies s hs
    exact ⟨r, List.mem_append_left _ hr, hrs⟩
  · intro _
    rw [hmarker]
    exact lags_refl _ _
  · intro r hr s hs hlt
    rcases hmem r hr with ⟨-, hle⟩ | rfl
    · exact absurd hle (Nat.not_le.2 hlt)
    · obtain ⟨hf, hfresh, stamps, rest, hprims, hredo⟩ := hswap s hs
      refine ⟨?_, ?_, ?_, ⟨stamps, rest, ?_, ?_, ?_⟩, fun _ => hmarker.symm, fun hf' => absurd hf' hf⟩
      · rw [hfirst]; dsimp only; omega
      · rw [hlast, hlogged, List.length_append]
      · intro r' hr'
        rcases hmem r' hr' with ⟨-, hle⟩ | rfl
        · exact .inr hle
        · exact .inl rfl
      · rw [hlogged]
        dsimp only
        rw [happlied, List.drop_left, hprims]
      · rw [hmarker]; exact hredo
      · intro c hcopy
        obtain ⟨r', hr', hrs'⟩ := h.copies s (by rw [show v.staged s = some c from hcopy]; simp)
        exact absurd hrs' (hfresh r' hr')

end View

end PolicySystem
