import PolicySystem.Audit.Cursor
import PolicySystem.Loop.Keyset

/-!
# The paged query of the audit trail

`query` of `audit/store.py` with `_build_query_conditions`, over the rows of `audit_events`.

* `query_eq_page`: a query is a page of the matching rows, under the key `(occurred_at, id)`;
* `follow_cursors_shows`: following `next_cursor` shows every matching row once, whatever is inserted in between.
-/

namespace PolicySystem.AuditQuery

open Text Keyset

inductive Outcome where
  | applied
  | rejected
  | failed
  deriving DecidableEq

/-- A row of `audit_events`; of its `details`, the top-level fields as `->>` gives them. -/
structure AuditEventRow where
  id : BitVec 128
  occurredAt : Timestamp
  actorSubject : String
  actorIssuer : String
  action : String
  resourceType : String
  resourceId : String
  outcome : Outcome
  details : List (String × String)
  deriving DecidableEq

/-- The filters of a query. Absent `details` are the empty ones. -/
structure AuditQueryFilters where
  actorSubject : Option String := none
  actorIssuer : Option String := none
  resourceType : Option String := none
  resourceId : Option String := none
  action : Option String := none
  occurredFrom : Option Timestamp := none
  occurredTo : Option Timestamp := none
  details : List (String × String) := []

structure AuditQueryPage where
  events : List AuditEventRow
  nextCursor : Option String
  deriving DecidableEq

/-! ## Conditions -/

/-- `_EQUALITY_FILTER_COLUMNS`: a field of the filters and the column it is compared with. -/
def equalityFilterColumns : List ((AuditQueryFilters → Option String) × (AuditEventRow → String)) :=
  [(AuditQueryFilters.actorSubject, AuditEventRow.actorSubject),
   (AuditQueryFilters.actorIssuer, AuditEventRow.actorIssuer),
   (AuditQueryFilters.resourceType, AuditEventRow.resourceType),
   (AuditQueryFilters.resourceId, AuditEventRow.resourceId),
   (AuditQueryFilters.action, AuditEventRow.action)]

/-- `AUDIT_DETAILS_FILTER_KEYS`, the keys of `_DETAILS_FILTER_FRAGMENTS`. -/
def detailsFilterKeys : List String := ["celex", "regulatory_instrument_id", "instrument_id"]

/-- A fragment of the `WHERE` clause with its bound values. -/
inductive Condition where
  /-- `column = value` -/
  | equals (column : AuditEventRow → String) (value : String)
  /-- `(details ->> key) = value` -/
  | details (key value : String)
  /-- `occurred_at >= instant` -/
  | occurredFrom (instant : Timestamp)
  /-- `occurred_at <= instant` -/
  | occurredTo (instant : Timestamp)
  /-- `(occurred_at, id) < (occurredAt, id)` -/
  | cursorBound (occurredAt : Timestamp) (id : BitVec 128)

/-- Timestamps are compared as instants, ids as numbers. -/
def Condition.holds (row : AuditEventRow) : Condition → Bool
  | .equals column value => column row = value
  | .details key value => row.details.lookup key = some value
  | .occurredFrom instant => instant.micros ≤ row.occurredAt.micros
  | .occurredTo instant => row.occurredAt.micros ≤ instant.micros
  | .cursorBound occurredAt id =>
    row.occurredAt.micros < occurredAt.micros ∨ (row.occurredAt.micros = occurredAt.micros ∧ row.id < id)

/-- The fragment of a details filter. -/
def detailsFilterFragment (filter : String × String) : Except QueryError Condition :=
  if filter.1 ∈ detailsFilterKeys then .ok (.details filter.1 filter.2) else .error (.unknownDetailsKey filter.1)

/-- `_build_query_conditions`. -/
def buildQueryConditions (filters : AuditQueryFilters) (cursorBound : Option (Timestamp × BitVec 128)) :
    Except QueryError (List Condition) := do
  let equalities := equalityFilterColumns.filterMap fun pair => (pair.1 filters).map (Condition.equals pair.2)
  let details ← filters.details.mapM detailsFilterFragment
  let occurredFrom := filters.occurredFrom.toList.map Condition.occurredFrom
  let occurredTo := filters.occurredTo.toList.map Condition.occurredTo
  let bound := cursorBound.toList.map fun position => Condition.cursorBound position.1 position.2
  return equalities ++ details ++ occurredFrom ++ occurredTo ++ bound

/-- `ORDER BY occurred_at DESC, id DESC`. -/
def newestFirst (a b : AuditEventRow) : Bool :=
  b.occurredAt.micros < a.occurredAt.micros ∨ (b.occurredAt.micros = a.occurredAt.micros ∧ b.id ≤ a.id)

/-- The `SELECT` of a query. -/
def selectRows (trail : List AuditEventRow) (conditions : List Condition) (fetchLimit : ℕ) : List AuditEventRow :=
  ((trail.filter fun row => conditions.all (·.holds row)).mergeSort newestFirst).take fetchLimit

/-- `query`. -/
def query (trail : List AuditEventRow) (filters : AuditQueryFilters) (cursor : Option String) (pageSize : ℕ) :
    Except QueryError AuditQueryPage := do
  let cursorBound ← cursor.mapM decodeCursor
  let conditions ← buildQueryConditions filters cursorBound
  let records := selectRows trail conditions (pageSize + 1)
  let events := records.take pageSize
  let nextCursor :=
    if pageSize < records.length then events.getLast?.map fun event => encodeCursor event.occurredAt event.id else none
  return ⟨events, nextCursor⟩

/-- The pages that following `next_cursor` shows until it is `None`, the trail being `trail n` at the `n`th query; `none`
where the fuel does not suffice. -/
def followCursors (trail : ℕ → List AuditEventRow) (filters : AuditQueryFilters) (pageSize : ℕ) :
    ℕ → ℕ → Option String → Option (Except QueryError (List (List AuditEventRow)))
  | 0, _, _ => none
  | fuel + 1, n, cursor =>
    match query (trail n) filters cursor pageSize with
    | .error error => some (.error error)
    | .ok ⟨events, none⟩ => some (.ok [events])
    | .ok ⟨events, some next⟩ =>
      (followCursors trail filters pageSize fuel (n + 1) (some next)).map fun rest => rest.map (events :: ·)

/-! ## What a query selects -/

/-- The rows a query's filters admit. -/
structure AuditQueryFilters.Admits (filters : AuditQueryFilters) (row : AuditEventRow) : Prop where
  actorSubject : ∀ v ∈ filters.actorSubject, row.actorSubject = v
  actorIssuer : ∀ v ∈ filters.actorIssuer, row.actorIssuer = v
  resourceType : ∀ v ∈ filters.resourceType, row.resourceType = v
  resourceId : ∀ v ∈ filters.resourceId, row.resourceId = v
  action : ∀ v ∈ filters.action, row.action = v
  details : ∀ d ∈ filters.details, row.details.lookup d.1 = some d.2
  occurredFrom : ∀ t ∈ filters.occurredFrom, t.micros ≤ row.occurredAt.micros
  occurredTo : ∀ t ∈ filters.occurredTo, row.occurredAt.micros ≤ t.micros

/-- `a` stands before `b` in descending `(occurred_at, id)` order. -/
def Newer (a b : AuditEventRow) : Prop :=
  b.occurredAt.micros < a.occurredAt.micros ∨ (b.occurredAt.micros = a.occurredAt.micros ∧ b.id < a.id)

/-- The place of a row in the order, a whole number of microseconds from the day before the first. -/
def position (occurredAt : Timestamp) (id : BitVec 128) : ℕ ×ₗ ℕ :=
  toLex ((occurredAt.micros + 86400000000).toNat, id.toNat)

def AuditEventRow.position (row : AuditEventRow) : ℕ ×ₗ ℕ := AuditQuery.position row.occurredAt row.id

theorem position_lt {t u : Timestamp} {i j : BitVec 128} :
    position t i < position u j ↔ t.micros < u.micros ∨ (t.micros = u.micros ∧ i < j) := by
  have ht := t.micros_gt
  have hu := u.micros_gt
  unfold position
  rw [Prod.Lex.toLex_lt_toLex, BitVec.lt_def]
  simp only
  omega

theorem position_le {t u : Timestamp} {i j : BitVec 128} :
    position t i ≤ position u j ↔ t.micros < u.micros ∨ (t.micros = u.micros ∧ i ≤ j) := by
  have ht := t.micros_gt
  have hu := u.micros_gt
  unfold position
  rw [Prod.Lex.toLex_le_toLex, BitVec.le_def]
  simp only
  omega

theorem newer_iff {a b : AuditEventRow} : Newer a b ↔ b.position < a.position := position_lt.symm

theorem newestFirst_eq : newestFirst = fun a b : AuditEventRow => decide (b.position ≤ a.position) := by
  funext a b
  unfold newestFirst AuditEventRow.position
  simp only [position_le]

theorem mapM_detailsFilterFragment {details : List (String × String)} (h : ∀ d ∈ details, d.1 ∈ detailsFilterKeys) :
    details.mapM detailsFilterFragment = .ok (details.map fun d => .details d.1 d.2) := by
  induction details with
  | nil => rfl
  | cons d details ih =>
    have hd : detailsFilterFragment d = .ok (.details d.1 d.2) := if_pos (h d List.mem_cons_self)
    rw [List.mapM_cons, hd, ih fun d' hd' => h d' (List.mem_cons_of_mem _ hd')]
    rfl

/-- The conditions of filters whose details keys are known. -/
def knownConditions (filters : AuditQueryFilters) (cursorBound : Option (Timestamp × BitVec 128)) : List Condition :=
  (equalityFilterColumns.filterMap fun pair => (pair.1 filters).map (Condition.equals pair.2)) ++
    (filters.details.map fun d => .details d.1 d.2) ++ filters.occurredFrom.toList.map Condition.occurredFrom ++
    filters.occurredTo.toList.map Condition.occurredTo ++
    cursorBound.toList.map fun position => Condition.cursorBound position.1 position.2

theorem buildQueryConditions_eq {filters : AuditQueryFilters} {cursorBound : Option (Timestamp × BitVec 128)}
    (hkeys : ∀ d ∈ filters.details, d.1 ∈ detailsFilterKeys) :
    buildQueryConditions filters cursorBound = .ok (knownConditions filters cursorBound) := by
  unfold buildQueryConditions
  rw [mapM_detailsFilterFragment hkeys]
  rfl

theorem equalities_hold {filters : AuditQueryFilters} {row : AuditEventRow} :
    (∀ c ∈ equalityFilterColumns.filterMap fun pair => (pair.1 filters).map (Condition.equals pair.2),
        c.holds row = true) ↔
      ∀ pair ∈ equalityFilterColumns, ∀ v ∈ pair.1 filters, pair.2 row = v := by
  constructor
  · intro h pair hpair v hv
    have := h (.equals pair.2 v) (List.mem_filterMap.2 ⟨pair, hpair, by rw [Option.mem_def.1 hv]; rfl⟩)
    simpa [Condition.holds] using this
  · intro h c hc
    obtain ⟨pair, hpair, hc⟩ := List.mem_filterMap.1 hc
    obtain ⟨v, hv, rfl⟩ := Option.map_eq_some_iff.1 hc
    simpa [Condition.holds] using h pair hpair v hv

/-- The conditions hold of the rows that the filters admit, below the bound. -/
theorem conditions_hold {filters : AuditQueryFilters} {cursorBound : Option (Timestamp × BitVec 128)}
    {row : AuditEventRow} :
    (knownConditions filters cursorBound).all (·.holds row) = true ↔
      filters.Admits row ∧ Below AuditEventRow.position (cursorBound.map fun p => position p.1 p.2) row := by
  have hdetails : (∀ c ∈ filters.details.map fun d => Condition.details d.1 d.2, c.holds row = true) ↔
      ∀ d ∈ filters.details, row.details.lookup d.1 = some d.2 := by
    rw [List.forall_mem_map]
    exact forall₂_congr fun d _ => decide_eq_true_iff
  have hfrom : (∀ c ∈ filters.occurredFrom.toList.map Condition.occurredFrom, c.holds row = true) ↔
      ∀ t ∈ filters.occurredFrom, t.micros ≤ row.occurredAt.micros := by
    simp [Condition.holds]
  have hto : (∀ c ∈ filters.occurredTo.toList.map Condition.occurredTo, c.holds row = true) ↔
      ∀ t ∈ filters.occurredTo, row.occurredAt.micros ≤ t.micros := by
    simp [Condition.holds]
  have hbound : (∀ c ∈ cursorBound.toList.map fun p => Condition.cursorBound p.1 p.2, c.holds row = true) ↔
      Below AuditEventRow.position (cursorBound.map fun p => position p.1 p.2) row := by
    cases cursorBound with
    | none => simp [Below]
    | some p => simp [Below, Condition.holds, AuditEventRow.position, position_lt]
  unfold knownConditions
  simp only [List.all_eq_true, List.forall_mem_append]
  rw [equalities_hold, hdetails, hfrom, hto, hbound]
  simp only [equalityFilterColumns, List.forall_mem_cons, List.not_mem_nil, false_imp_iff, implies_true, and_true]
  constructor
  · rintro ⟨⟨⟨⟨⟨h₁, h₂, h₃, h₄, h₅⟩, hd⟩, hf⟩, ht⟩, hb⟩
    exact ⟨⟨h₁, h₂, h₃, h₄, h₅, hd, hf, ht⟩, hb⟩
  · rintro ⟨⟨h₁, h₂, h₃, h₄, h₅, hd, hf, ht⟩, hb⟩
    exact ⟨⟨⟨⟨⟨h₁, h₂, h₃, h₄, h₅⟩, hd⟩, hf⟩, ht⟩, hb⟩

/-! ## Queries as pages -/

open Classical in
/-- The rows of a trail that the filters admit. -/
noncomputable def admitted (filters : AuditQueryFilters) (trail : List AuditEventRow) : List AuditEventRow :=
  trail.filter fun row => decide (filters.Admits row)

theorem mem_admitted {filters : AuditQueryFilters} {trail : List AuditEventRow} {row : AuditEventRow} :
    row ∈ admitted filters trail ↔ row ∈ trail ∧ filters.Admits row := by
  classical
  unfold admitted
  rw [List.mem_filter, decide_eq_true_eq]

open Classical in
theorem selectRows_eq (trail : List AuditEventRow) (filters : AuditQueryFilters)
    (cursorBound : Option (Timestamp × BitVec 128)) (fetchLimit : ℕ) :
    selectRows trail (knownConditions filters cursorBound) fetchLimit =
      (selected AuditEventRow.position (admitted filters trail)
        (cursorBound.map fun p => position p.1 p.2)).take fetchLimit := by
  unfold selectRows selected admitted
  rw [newestFirst_eq, List.filter_filter]
  congr 3
  funext row
  rw [Bool.eq_iff_iff, conditions_hold, Bool.and_eq_true, decide_eq_true_eq, decide_eq_true_eq, and_comm]
  exact Iff.rfl

/-- A cursor, the position it stands for and the bound of the page it asks for. -/
inductive CursorAt : Option String → Option (ℕ ×ₗ ℕ) → Prop where
  | start : CursorAt none none
  | next (t : Timestamp) (id : BitVec 128) : CursorAt (some (encodeCursor t id)) (some (position t id))

/-- **A query is a page** of the rows that the filters admit. -/
theorem query_eq_page (trail : List AuditEventRow) {filters : AuditQueryFilters} {cursor : Option String}
    {bound : Option (ℕ ×ₗ ℕ)} (pageSize : ℕ) (hkeys : ∀ d ∈ filters.details, d.1 ∈ detailsFilterKeys)
    (hcursor : CursorAt cursor bound) :
    ∃ next, query trail filters cursor pageSize =
        .ok ⟨(page AuditEventRow.position pageSize (admitted filters trail) bound).1, next⟩ ∧
      CursorAt next (page AuditEventRow.position pageSize (admitted filters trail) bound).2 := by
  obtain ⟨cursorBound, hdecode, rfl⟩ : ∃ cursorBound, cursor.mapM decodeCursor = .ok cursorBound ∧
      bound = cursorBound.map fun p => position p.1 p.2 := by
    cases hcursor with
    | start => exact ⟨none, rfl, rfl⟩
    | next t id =>
      refine ⟨some (t, id), ?_, rfl⟩
      change some <$> decodeCursor (encodeCursor t id) = _
      rw [decodeCursor_encodeCursor]
      rfl
  have hquery : query trail filters cursor pageSize =
      let records := selectRows trail (knownConditions filters cursorBound) (pageSize + 1)
      .ok ⟨records.take pageSize, if pageSize < records.length
        then (records.take pageSize).getLast?.map fun event => encodeCursor event.occurredAt event.id else none⟩ := by
    unfold query
    rw [hdecode]
    change (buildQueryConditions filters cursorBound >>= _) = _
    rw [buildQueryConditions_eq hkeys]
    rfl
  rw [hquery, selectRows_eq]
  refine ⟨_, rfl, ?_⟩
  unfold page
  simp only
  split
  · -- the last row shown gives the cursor and the bound
    generalize List.take pageSize _ = shown
    cases shown.getLast? with
    | none => exact .start
    | some last => exact .next last.occurredAt last.id
  · exact .start

/-- Following the cursors is following the pages. -/
theorem followCursors_eq {trail : ℕ → List AuditEventRow} {filters : AuditQueryFilters} {pageSize : ℕ}
    (hkeys : ∀ d ∈ filters.details, d.1 ∈ detailsFilterKeys) (fuel n : ℕ) {cursor : Option String}
    {bound : Option (ℕ ×ₗ ℕ)} (hcursor : CursorAt cursor bound) :
    followCursors trail filters pageSize fuel n cursor =
      (follow AuditEventRow.position pageSize (fun n => admitted filters (trail n)) fuel n bound).map .ok := by
  induction fuel generalizing n cursor bound with
  | zero => rfl
  | succ fuel ih =>
    obtain ⟨next, hquery, hnext⟩ := query_eq_page (trail n) pageSize hkeys hcursor
    unfold followCursors follow
    rw [hquery]
    simp only
    generalize (page AuditEventRow.position pageSize (admitted filters (trail n)) bound).2 = bound' at hnext
    cases hnext with
    | start => rfl
    | next t id =>
      simp only
      rw [ih (n + 1) (.next t id), Option.map_map, Option.map_map]
      rfl

/-! ## Following the cursors -/

/-- The trail as a reader meets it: ids are its primary key, and rows are only inserted. -/
structure InsertOnly (trail : ℕ → List AuditEventRow) : Prop where
  primaryKey : ∀ n, ((trail n).map AuditEventRow.id).Nodup
  kept : ∀ n, ∀ row ∈ trail n, row ∈ trail (n + 1)

theorem position_id {a b : AuditEventRow} (h : a.position = b.position) : a.id = b.id := by
  have h₂ : a.id.toNat = b.id.toNat := congrArg (fun p : ℕ ×ₗ ℕ => (ofLex p).2) h
  exact BitVec.eq_of_toNat_eq h₂

theorem InsertOnly.grows {trail : ℕ → List AuditEventRow} (h : InsertOnly trail) (filters : AuditQueryFilters) :
    Grows AuditEventRow.position fun n => admitted filters (trail n) where
  distinct n := by
    have hids : (admitted filters (trail n)).Pairwise fun a b => a.id ≠ b.id :=
      List.pairwise_map.1 (List.Nodup.sublist (List.Sublist.map _ List.filter_sublist) (h.primaryKey n))
    exact List.pairwise_map.2 (hids.imp fun hne heq => hne (position_id heq))
  kept n row hrow := by
    obtain ⟨hmem, hadmits⟩ := mem_admitted.1 hrow
    exact mem_admitted.2 ⟨h.kept n row hmem, hadmits⟩

/-- Following the cursors of an insert-only trail ends, and its pages show what the filters admit. -/
theorem followCursors_pages {trail : ℕ → List AuditEventRow} (htrail : InsertOnly trail) {filters : AuditQueryFilters}
    (hkeys : ∀ d ∈ filters.details, d.1 ∈ detailsFilterKeys) {pageSize : ℕ} (hsize : 1 ≤ pageSize) :
    ∃ fuel pages, followCursors trail filters pageSize fuel 0 none = some (.ok pages) ∧
      Keyset.Shows AuditEventRow.position (fun n => admitted filters (trail n)) 0 none pages := by
  obtain ⟨fuel, pages, hfollow, hshows⟩ := follow_pages (htrail.grows filters) hsize
  exact ⟨fuel, pages, by rw [followCursors_eq hkeys fuel 0 .start, hfollow]; rfl, hshows⟩

/-- **Paging loses and repeats nothing**: following `next_cursor` ends, whatever rows are inserted in between, and shows
rows that the filters admit, newest first, among them each one of the start exactly once. A cursor gives back its
position. -/
theorem follow_cursors_shows {trail : ℕ → List AuditEventRow} (htrail : InsertOnly trail) {filters : AuditQueryFilters}
    (hkeys : ∀ d ∈ filters.details, d.1 ∈ detailsFilterKeys) {pageSize : ℕ} (hsize : 1 ≤ pageSize) :
    (∃ fuel pages, followCursors trail filters pageSize fuel 0 none = some (.ok pages) ∧
      pages.flatten.Pairwise Newer ∧
      (∀ row ∈ trail 0, filters.Admits row → pages.flatten.count row = 1) ∧
      ∀ row ∈ pages.flatten, filters.Admits row ∧ ∃ n, row ∈ trail n) ∧
    ∀ occurredAt eventId, decodeCursor (encodeCursor occurredAt eventId) = .ok (occurredAt, eventId) := by
  refine ⟨?_, decodeCursor_encodeCursor⟩
  obtain ⟨fuel, pages, hfollow, hshows⟩ := followCursors_pages htrail hkeys hsize
  refine ⟨fuel, pages, hfollow, ?_, ?_, ?_⟩
  · exact hshows.ordered.imp newer_iff.2
  · intro row hrow hadmits
    have hmem : row ∈ pages.flatten :=
      hshows.complete row (mem_admitted.2 ⟨hrow, hadmits⟩) fun b hb => by cases hb
    have hnodup : pages.flatten.Nodup := hshows.ordered.imp fun hlt heq => by
      rw [heq] at hlt
      exact lt_irrefl _ hlt
    exact List.count_eq_one_of_mem hnodup hmem
  · intro row hrow
    obtain ⟨n, hn⟩ := hshows.sound row hrow
    exact ⟨(mem_admitted.1 hn).2, n, (mem_admitted.1 hn).1⟩

/-- Noon of a day, in UTC. -/
def noon : Timestamp := ⟨⟨2026, 3, 1, 12, 0, 0, 250000, ⟨false, 0, 0, 0, 0⟩⟩, by decide⟩

def roleGrant (id : BitVec 128) : AuditEventRow :=
  ⟨id, noon, "alice", "idp", "authz.role_granted", "access_role", "compliance_officer", .applied, []⟩

/-- Two rows of one instant, between which a third is inserted after the first page. -/
theorem follow_cursors_shows_ties :
    ∃ fuel pages, followCursors (fun n => if n = 0 then [roleGrant 1, roleGrant 3] else
        [roleGrant 1, roleGrant 3, roleGrant 2]) { resourceType := some "access_role" } 1 fuel 0 none = some (.ok pages) ∧
      pages.flatten.count (roleGrant 1) = 1 := by
  have htrail : InsertOnly fun n => if n = 0 then [roleGrant 1, roleGrant 3] else
      [roleGrant 1, roleGrant 3, roleGrant 2] := by
    refine ⟨fun n => ?_, fun n row hrow => ?_⟩
    · by_cases hn : n = 0
      · simp only [hn, if_true]
        decide
      · simp only [hn, if_false]
        decide
    · simp only [Nat.succ_ne_zero, if_false]
      split at hrow
      · exact List.mem_append_left [roleGrant 2] hrow
      · exact hrow
  obtain ⟨⟨fuel, pages, hfollow, -, honce, -⟩, -⟩ :=
    @follow_cursors_shows _ htrail { resourceType := some "access_role" } (by simp) 1 (Nat.le_refl 1)
  refine ⟨fuel, pages, hfollow, honce _ List.mem_cons_self ?_⟩
  constructor <;> simp [roleGrant]

end PolicySystem.AuditQuery
