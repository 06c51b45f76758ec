import Mathlib
import PolicySystem.Gateway.Digest
import PolicySystem.Loop.CursorScan
import PolicySystem.Text.Positional

/-!
# The digest of a graph

`canonical_digest`, `_scan_hashes` and `combine_element_hashes` of `graph_gateway/digest.py`. SHA-256 is the parameter
`sha256`.

* `canonicalDigest_eq`: the digest is the hash of one byte stream, of the element hashes in order;
* `combinedInput_ne`: other multisets of encoded elements give another stream, collisions apart;
* `canonical_digest_content`: **the digest depends on the content only**, and the scans visit each element of it once.
-/

namespace PolicySystem.Digest

open Text StableSort
open Std (ExtTreeMap)

/-! ## Graphs as their scans see them -/

/-- A row of `DIGEST_NODE_SCAN`. -/
structure NodeRow where
  internalId : ℕ
  labels : List String
  properties : ExtTreeMap String Value

/-- A row of `DIGEST_EDGE_SCAN`. -/
structure EdgeRow where
  internalId : ℕ
  kind : String
  sourceLabels : List String
  sourceId : String
  targetLabels : List String
  targetId : String
  properties : ExtTreeMap String Value

def NodeRow.element (row : NodeRow) : Element := .node row.labels row.properties

def EdgeRow.element (row : EdgeRow) : Element :=
  .edge row.kind row.sourceLabels row.sourceId row.targetLabels row.targetId row.properties

/-- A graph in the order its elements were inserted in; internal ids tell nodes apart, and edges. -/
structure ScannedGraph where
  nodes : List NodeRow
  edges : List EdgeRow
  nodeIds : (nodes.map NodeRow.internalId).Nodup
  edgeIds : (edges.map EdgeRow.internalId).Nodup

/-- `NOT n:GraphReplayState`. -/
def ScannedGraph.contentNodes (graph : ScannedGraph) : List NodeRow :=
  graph.nodes.filter fun row => "GraphReplayState" ∉ row.labels

/-- `DigestSettings`. -/
structure DigestSettings where
  nodeChunkRows : ℕ := 50
  edgeChunkRows : ℕ := 5000
  node_pos : 1 ≤ nodeChunkRows := by decide
  edge_pos : 1 ≤ edgeChunkRows := by decide

/-- `GraphDigestError`. -/
inductive DigestError where
  /-- "a graph element holds a value the digest cannot encode" -/
  | value
  deriving DecidableEq

/-! ## The digest -/

section Digest

variable (sha256 : List UInt8 → List UInt8)

/-- The hash of a row's encoded element. -/
def elementHash (element : Element) : Except DigestError (List UInt8) :=
  match encodeElement element with
  | some bytes => .ok (sha256 bytes)
  | none => .error .value

/-- The cursor of a scan's rows. -/
def NodeRow.cursor (row : NodeRow) : ℤ := row.internalId

def EdgeRow.cursor (row : EdgeRow) : ℤ := row.internalId

/-- A scan of the nodes; `none` where the fuel does not suffice. -/
def scanNodes {β : Type} (visit : NodeRow → Except DigestError β) (graph : ScannedGraph) (settings : DigestSettings)
    (fuel : ℕ) : Option (Except DigestError (List β)) :=
  CursorScan.scan NodeRow.cursor visit settings.nodeChunkRows graph.contentNodes fuel (-1)

/-- A scan of the edges. -/
def scanEdges {β : Type} (visit : EdgeRow → Except DigestError β) (graph : ScannedGraph) (settings : DigestSettings)
    (fuel : ℕ) : Option (Except DigestError (List β)) :=
  CursorScan.scan EdgeRow.cursor visit settings.edgeChunkRows graph.edges fuel (-1)

/-- `_DOMAIN`. -/
def domain : List UInt8 := utf8 "ps-graph-digest-v1"

/-- The bytes hashed for a graph: its element hashes, sorted, after the domain. -/
def combinedInput (hashes : List (List UInt8)) : List UInt8 :=
  domain ++ (sortBy (fun hash : List UInt8 => hash.map UInt8.toNat) hashes).flatten

/-- `hexdigest`. -/
def hexdigest (bytes : List UInt8) : String := String.ofList (bytes.flatMap fun b => hexDigits.write 2 b.toNat)

/-- `combine_element_hashes`. -/
def combineElementHashes (hashes : List (List UInt8)) : String := "sha256:" ++ hexdigest (sha256 (combinedInput hashes))

/-- `canonical_digest`; the nodes are scanned before the edges. -/
def canonicalDigest (graph : ScannedGraph) (settings : DigestSettings) (fuel : ℕ) : Option (Except DigestError String) :=
  match scanNodes (fun row => elementHash sha256 row.element) graph settings fuel with
  | none => none
  | some (.error error) => some (.error error)
  | some (.ok nodes) =>
    (scanEdges (fun row => elementHash sha256 row.element) graph settings fuel).map fun scanned =>
      scanned.map fun edges => combineElementHashes sha256 (nodes ++ edges)

/-! ## Scans -/

theorem NodeRow.cursor_nodup {rows : List NodeRow} (h : (rows.map NodeRow.internalId).Nodup) :
    (rows.map NodeRow.cursor).Nodup := by
  have := h.map (f := fun n : ℕ => (n : ℤ)) Nat.cast_injective
  rwa [List.map_map] at this

theorem EdgeRow.cursor_nodup {rows : List EdgeRow} (h : (rows.map EdgeRow.internalId).Nodup) :
    (rows.map EdgeRow.cursor).Nodup := by
  have := h.map (f := fun n : ℕ => (n : ℤ)) Nat.cast_injective
  rwa [List.map_map] at this

theorem NodeRow.start_lt (row : NodeRow) : -1 < row.cursor := by
  unfold NodeRow.cursor
  omega

theorem EdgeRow.start_lt (row : EdgeRow) : -1 < row.cursor := by
  unfold EdgeRow.cursor
  omega

theorem scanNodes_eq {β : Type} (visit : NodeRow → Except DigestError β) (graph : ScannedGraph)
    (settings : DigestSettings) {fuel : ℕ} (hfuel : graph.nodes.length < fuel) :
    scanNodes visit graph settings fuel = some ((sortBy NodeRow.cursor graph.contentNodes).mapM visit) := by
  have hnodup : (graph.contentNodes.map NodeRow.internalId).Nodup :=
    (List.filter_sublist.map _).nodup graph.nodeIds
  have hlen : graph.contentNodes.length ≤ graph.nodes.length := List.length_filter_le _ _
  exact CursorScan.scan_all visit (NodeRow.cursor_nodup hnodup) settings.node_pos (fun row _ => row.start_lt) (by omega)

theorem scanEdges_eq {β : Type} (visit : EdgeRow → Except DigestError β) (graph : ScannedGraph)
    (settings : DigestSettings) {fuel : ℕ} (hfuel : graph.edges.length < fuel) :
    scanEdges visit graph settings fuel = some ((sortBy EdgeRow.cursor graph.edges).mapM visit) :=
  CursorScan.scan_all visit (EdgeRow.cursor_nodup graph.edgeIds) settings.edge_pos (fun row _ => row.start_lt) hfuel

/-! ## The content and its encodings -/

/-- The elements of a graph's content. -/
def ScannedGraph.content (graph : ScannedGraph) : List Element :=
  graph.contentNodes.map NodeRow.element ++ graph.edges.map EdgeRow.element

/-- Every element of the content has an encoding. -/
def ScannedGraph.Encodable (graph : ScannedGraph) : Prop := ∀ element ∈ graph.content, (encodeElement element).isSome = true

instance {graph : ScannedGraph} : Decidable graph.Encodable := inferInstanceAs (Decidable (∀ _ ∈ _, _))

/-- The encoded nodes of a graph, replay progress apart. -/
def ScannedGraph.encodedNodes (graph : ScannedGraph) : List (List UInt8) :=
  (graph.contentNodes.map NodeRow.element).filterMap encodeElement

def ScannedGraph.encodedEdges (graph : ScannedGraph) : List (List UInt8) :=
  (graph.edges.map EdgeRow.element).filterMap encodeElement

/-- The byte stream whose hash is the digest. -/
def ScannedGraph.stream (graph : ScannedGraph) : List UInt8 :=
  combinedInput ((graph.encodedNodes ++ graph.encodedEdges).map sha256)

/-- Elements are hashed one after the other, if each of them has an encoding. -/
theorem mapM_elementHash (elements : List Element) :
    elements.mapM (elementHash sha256) =
      if ∀ element ∈ elements, (encodeElement element).isSome = true then
        .ok ((elements.filterMap encodeElement).map sha256) else .error .value := by
  induction elements with
  | nil => rfl
  | cons element elements ih =>
    rw [List.mapM_cons, ih]
    unfold elementHash
    cases helement : encodeElement element with
    | none =>
      have hnot : ¬∀ e ∈ element :: elements, (encodeElement e).isSome = true := by
        intro hall
        have := hall element List.mem_cons_self
        rw [helement] at this
        cases this
      rw [if_neg hnot]
      rfl
    | some bytes =>
      by_cases hrest : ∀ element ∈ elements, (encodeElement element).isSome = true
      · rw [if_pos hrest, if_pos (by simpa [helement] using hrest), List.filterMap_cons_some helement]
        rfl
      · rw [if_neg hrest, if_neg (by simpa [helement] using hrest)]
        rfl

/-- The stream of a graph does not depend on the order of its hashes. -/
theorem combinedInput_perm {hashes others : List (List UInt8)} (h : hashes.Perm others) :
    combinedInput others = combinedInput hashes := by
  have huntied : Untied (fun hash : List UInt8 => hash.map UInt8.toNat) hashes :=
    fun a _ b _ hab => List.map_injective_iff.2 (fun x y hxy => UInt8.toNat_inj.1 hxy) hab
  unfold combinedInput
  rw [huntied.sortBy_eq h]

/-- Scanning in the order of the cursor hashes the same elements. -/
theorem mapM_sorted {α : Type} {key : α → ℤ} {element : α → Element} (rows : List α) :
    (sortBy key rows).mapM (fun row => elementHash sha256 (element row)) =
      if ∀ e ∈ rows.map element, (encodeElement e).isSome = true then
        .ok ((((sortBy key rows).map element).filterMap encodeElement).map sha256) else .error .value := by
  have hperm : ((sortBy key rows).map element).Perm (rows.map element) := (sortBy_perm rows).map element
  have hiff : (∀ e ∈ (sortBy key rows).map element, (encodeElement e).isSome = true) ↔
      ∀ e ∈ rows.map element, (encodeElement e).isSome = true :=
    forall_congr' fun e => imp_congr_left hperm.mem_iff
  have hmap : (sortBy key rows).mapM (fun row => elementHash sha256 (element row)) =
      ((sortBy key rows).map element).mapM (elementHash sha256) := by
    rw [List.mapM_map]
    rfl
  rw [hmap, mapM_elementHash]
  simp only [hiff]

/-- **The digest is the hash of one byte stream**, whatever the order of the elements and the chunk sizes. -/
theorem canonicalDigest_eq (graph : ScannedGraph) (settings : DigestSettings) {fuel : ℕ}
    (hnodes : graph.nodes.length < fuel) (hedges : graph.edges.length < fuel) :
    canonicalDigest sha256 graph settings fuel = some (if graph.Encodable then
      .ok ("sha256:" ++ hexdigest (sha256 (graph.stream sha256))) else .error .value) := by
  have hsplit : graph.Encodable ↔ (∀ e ∈ graph.contentNodes.map NodeRow.element, (encodeElement e).isSome = true) ∧
      ∀ e ∈ graph.edges.map EdgeRow.element, (encodeElement e).isSome = true := List.forall_mem_append
  unfold canonicalDigest
  rw [scanNodes_eq _ graph settings hnodes, scanEdges_eq _ graph settings hedges, mapM_sorted, mapM_sorted]
  by_cases hn : ∀ e ∈ graph.contentNodes.map NodeRow.element, (encodeElement e).isSome = true
  · rw [if_pos hn]
    by_cases he : ∀ e ∈ graph.edges.map EdgeRow.element, (encodeElement e).isSome = true
    · rw [if_pos he, if_pos (hsplit.2 ⟨hn, he⟩)]
      have hperm : ((graph.encodedNodes ++ graph.encodedEdges).map sha256).Perm
          ((((sortBy NodeRow.cursor graph.contentNodes).map NodeRow.element).filterMap encodeElement).map sha256 ++
            (((sortBy EdgeRow.cursor graph.edges).map EdgeRow.element).filterMap encodeElement).map sha256) := by
        rw [← List.map_append]
        refine List.Perm.map _ (List.Perm.append ?_ ?_)
        · exact ((sortBy_perm _).symm.map _).filterMap _
        · exact ((sortBy_perm _).symm.map _).filterMap _
      simp only [Option.map_some, Except.map, combineElementHashes, combinedInput_perm hperm, ScannedGraph.stream]
    · rw [if_neg he, if_neg (fun h => he (hsplit.1 h).2)]
      rfl
  · rw [if_neg hn, if_neg (fun h => hn (hsplit.1 h).1)]

/-! ## Streams -/

/-- Encodings of nodes and of edges differ in their first byte. -/
theorem encodedNodes_head {graph : ScannedGraph} {bytes : List UInt8} (h : bytes ∈ graph.encodedNodes) :
    bytes.head? = some (tag 'N') := by
  obtain ⟨element, helement, hbytes⟩ := List.mem_filterMap.1 h
  obtain ⟨row, -, rfl⟩ := List.mem_map.1 helement
  unfold NodeRow.element encodeElement at hbytes
  simp only [Option.bind_eq_bind, Option.bind_eq_some_iff, Option.pure_def, Option.some.injEq] at hbytes
  obtain ⟨_, -, _, -, rfl⟩ := hbytes
  rfl

theorem encodedEdges_head {graph : ScannedGraph} {bytes : List UInt8} (h : bytes ∈ graph.encodedEdges) :
    bytes.head? = some (tag 'E') := by
  obtain ⟨element, helement, hbytes⟩ := List.mem_filterMap.1 h
  obtain ⟨row, -, rfl⟩ := List.mem_map.1 helement
  unfold EdgeRow.element encodeElement at hbytes
  simp only [Option.bind_eq_bind, Option.bind_eq_some_iff, Option.pure_def, Option.some.injEq] at hbytes
  obtain ⟨_, -, _, -, _, -, _, -, rfl⟩ := hbytes
  rfl

/-- Blocks of one width are read back from their concatenation. -/
theorem flatten_injective {width : ℕ} (hwidth : 0 < width) {xs ys : List (List UInt8)} (hx : ∀ x ∈ xs, x.length = width)
    (hy : ∀ y ∈ ys, y.length = width) (h : xs.flatten = ys.flatten) : xs = ys := by
  have hxs : xs.map List.length = List.replicate xs.length width := List.map_eq_replicate_iff.2 hx
  have hys : ys.map List.length = List.replicate ys.length width := List.map_eq_replicate_iff.2 hy
  have hlen : xs.length * width = ys.length * width := by
    have := congrArg List.length h
    rwa [List.length_flatten, List.length_flatten, hxs, hys, List.sum_replicate, List.sum_replicate] at this
  refine List.eq_iff_flatten_eq.2 ⟨h, ?_⟩
  rw [hxs, hys, Nat.eq_of_mul_eq_mul_right hwidth hlen]

/-- A map that tells the members of two lists apart is undone on their multisets. -/
theorem perm_of_map {α β : Type} {f : α → β} {xs ys : List α} (hf : Set.InjOn f {x | x ∈ xs ∨ x ∈ ys})
    (h : (xs.map f).Perm (ys.map f)) : xs.Perm ys := by
  classical
  refine List.perm_iff_count.2 fun a => ?_
  by_cases ha : a ∈ xs ∨ a ∈ ys
  · have hcount : ∀ zs : List α, (∀ z ∈ zs, z ∈ xs ∨ z ∈ ys) → (zs.map f).count (f a) = zs.count a := by
      intro zs hzs
      rw [List.count, List.countP_map, List.count]
      refine List.countP_congr fun z hz => ?_
      simp only [Function.comp_apply, beq_iff_eq]
      exact ⟨fun heq => hf (hzs z hz) ha heq, fun heq => by rw [heq]⟩
    rw [← hcount xs fun z hz => .inl hz, ← hcount ys fun z hz => .inr hz]
    exact List.perm_iff_count.1 h (f a)
  · rw [not_or] at ha
    rw [List.count_eq_zero_of_not_mem ha.1, List.count_eq_zero_of_not_mem ha.2]

/-- Lists of encodings are told apart by their first bytes. -/
theorem filter_nodes (graph : ScannedGraph) :
    (graph.encodedNodes ++ graph.encodedEdges).filter (·.head? = some (tag 'N')) = graph.encodedNodes := by
  rw [List.filter_append, List.filter_eq_self.2 fun x hx => decide_eq_true (encodedNodes_head hx),
    List.filter_eq_nil_iff.2 fun x hx => by rw [encodedEdges_head hx]; decide, List.append_nil]

theorem filter_edges (graph : ScannedGraph) :
    (graph.encodedNodes ++ graph.encodedEdges).filter (·.head? = some (tag 'E')) = graph.encodedEdges := by
  rw [List.filter_append, List.filter_eq_self.2 fun x hx => decide_eq_true (encodedEdges_head hx),
    List.filter_eq_nil_iff.2 fun x hx => by rw [encodedNodes_head hx]; decide, List.nil_append]

/-- **One stream is the stream of one multiset of encoded nodes and edges**, if the hash tells the encodings apart. -/
theorem encodings_of_stream {graph other : ScannedGraph} (hwidth : ∀ bytes, (sha256 bytes).length = 32)
    (hfree : Set.InjOn sha256 {bytes | bytes ∈ graph.encodedNodes ++ graph.encodedEdges ∨
      bytes ∈ other.encodedNodes ++ other.encodedEdges})
    (hstream : graph.stream sha256 = other.stream sha256) :
    graph.encodedNodes.Perm other.encodedNodes ∧ graph.encodedEdges.Perm other.encodedEdges := by
  have hwidths : ∀ (hashes : List (List UInt8)), ∀ x ∈ sortBy (fun hash : List UInt8 => hash.map UInt8.toNat)
      (hashes.map sha256), x.length = 32 := by
    intro hashes x hx
    obtain ⟨bytes, -, rfl⟩ := List.mem_map.1 ((sortBy_perm _).mem_iff.1 hx)
    exact hwidth bytes
  have hsorted := flatten_injective (by decide) (hwidths _) (hwidths _) (List.append_cancel_left hstream)
  have hhashes : ((graph.encodedNodes ++ graph.encodedEdges).map sha256).Perm
      ((other.encodedNodes ++ other.encodedEdges).map sha256) :=
    (sortBy_perm _).symm.trans ((List.Perm.of_eq hsorted).trans (sortBy_perm _))
  have hperm := perm_of_map hfree hhashes
  refine ⟨?_, ?_⟩
  · rw [← filter_nodes graph, ← filter_nodes other]
    exact hperm.filter _
  · rw [← filter_edges graph, ← filter_edges other]
    exact hperm.filter _

/-- **The digest depends on the content only**: it is the same for every assignment of internal ids, insertion order and
chunk size; the scans end and visit every node of the content and every edge once; and other multisets of encoded nodes
and edges give another byte stream, if the hash tells their encodings apart. -/
theorem canonical_digest_content (hwidth : ∀ bytes, (sha256 bytes).length = 32) :
    (∀ graph other : ScannedGraph, graph.content.Perm other.content → ∀ settings settings' : DigestSettings,
      ∃ enough result, ∀ fuel ≥ enough, canonicalDigest sha256 graph settings fuel = some result ∧
        canonicalDigest sha256 other settings' fuel = some result) ∧
    (∀ (graph : ScannedGraph) (settings : DigestSettings), ∃ enough nodes edges, (∀ fuel ≥ enough,
      scanNodes .ok graph settings fuel = some (.ok nodes) ∧ scanEdges .ok graph settings fuel = some (.ok edges)) ∧
        nodes.Perm graph.contentNodes ∧ edges.Perm graph.edges) ∧
    (∀ graph : ScannedGraph, graph.Encodable → ∀ settings : DigestSettings, ∃ enough, ∀ fuel ≥ enough,
      canonicalDigest sha256 graph settings fuel = some (.ok ("sha256:" ++ hexdigest (sha256 (graph.stream sha256))))) ∧
    ∀ graph other : ScannedGraph, Set.InjOn sha256 {bytes | bytes ∈ graph.encodedNodes ++ graph.encodedEdges ∨
        bytes ∈ other.encodedNodes ++ other.encodedEdges} →
      ¬(graph.encodedNodes.Perm other.encodedNodes ∧ graph.encodedEdges.Perm other.encodedEdges) →
      graph.stream sha256 ≠ other.stream sha256 := by
  refine ⟨?_, ?_, ?_, ?_⟩
  · intro graph other hperm settings settings'
    have hencodable : graph.Encodable ↔ other.Encodable := forall_congr' fun e => imp_congr_left hperm.mem_iff
    have hstream : other.stream sha256 = graph.stream sha256 := by
      unfold ScannedGraph.stream ScannedGraph.encodedNodes ScannedGraph.encodedEdges
      rw [← List.filterMap_append, ← List.filterMap_append]
      exact combinedInput_perm ((hperm.filterMap encodeElement).map sha256)
    refine ⟨graph.nodes.length + graph.edges.length + other.nodes.length + other.edges.length + 1, _, fun fuel hfuel =>
      ⟨canonicalDigest_eq sha256 graph settings (by omega) (by omega), ?_⟩⟩
    rw [canonicalDigest_eq sha256 other settings' (by omega) (by omega), hstream]
    simp only [hencodable]
  · intro graph settings
    have hpure : ∀ {α : Type} (rows : List α), rows.mapM (Except.ok (ε := DigestError)) = .ok rows := by
      intro α rows
      induction rows with
      | nil => rfl
      | cons row rows ih =>
        rw [List.mapM_cons, ih]
        rfl
    refine ⟨graph.nodes.length + graph.edges.length + 1, sortBy NodeRow.cursor graph.contentNodes,
      sortBy EdgeRow.cursor graph.edges, fun fuel hfuel => ⟨?_, ?_⟩, sortBy_perm _, sortBy_perm _⟩
    · rw [scanNodes_eq _ graph settings (by omega), hpure]
    · rw [scanEdges_eq _ graph settings (by omega), hpure]
  · intro graph hencodable settings
    refine ⟨graph.nodes.length + graph.edges.length + 1, fun fuel hfuel => ?_⟩
    rw [canonicalDigest_eq sha256 graph settings (by omega) (by omega), if_pos hencodable]
  · exact fun graph other hfree hne hstream => hne (encodings_of_stream sha256 hwidth hfree hstream)

end Digest

/-- A graph of one role, under an internal id. -/
def roleGraph (internalId : ℕ) : ScannedGraph where
  nodes := [⟨internalId, ["Role"], (∅ : ExtTreeMap String Value).insert "id" (.str "role_a")⟩]
  edges := []
  nodeIds := List.nodup_singleton _
  edgeIds := List.nodup_nil

/-- The encoding of its node, and the SHA-256 of it. -/
def roleBytes : List UInt8 :=
  [78, 0, 0, 0, 0, 0, 0, 0, 1, 0, 0, 0, 0, 0, 0, 0, 4, 82, 111, 108, 101, 0, 0, 0, 0, 0, 0, 0, 1, 0, 0, 0, 0, 0, 0, 0, 2,
    105, 100, 115, 0, 0, 0, 0, 0, 0, 0, 6, 114, 111, 108, 101, 95, 97]

def roleHash : List UInt8 :=
  [39, 5, 21, 67, 176, 150, 157, 36, 246, 197, 23, 5, 196, 104, 189, 105, 237, 28, 149, 58, 231, 35, 7, 161, 5, 142, 195,
    240, 168, 139, 225, 170]

/-- SHA-256 of the inputs of that digest. -/
def roleSha256 (bytes : List UInt8) : List UInt8 :=
  if bytes = roleBytes then roleHash
  else if bytes = domain ++ roleHash then
    [140, 82, 217, 2, 211, 231, 155, 35, 139, 39, 170, 86, 58, 59, 246, 210, 232, 79, 121, 150, 78, 13, 3, 179, 13, 221,
      40, 127, 172, 252, 157, 67]
  else List.replicate 32 0

example : (roleGraph 3).encodedNodes = [roleBytes] := by decide +kernel

theorem canonical_digest_content_role :
    ∃ enough result, ∀ fuel ≥ enough, canonicalDigest roleSha256 (roleGraph 3) {} fuel = some result ∧
      canonicalDigest roleSha256 (roleGraph 7) { nodeChunkRows := 1 } fuel = some result := by
  have hwidth : ∀ bytes, (roleSha256 bytes).length = 32 := by
    intro bytes
    unfold roleSha256
    split
    · rfl
    · split <;> rfl
  exact (canonical_digest_content roleSha256 hwidth).1 (roleGraph 3) (roleGraph 7) (.refl _) {} { nodeChunkRows := 1 }

/-- A graph whose replay is unfinished. -/
def replayingGraph : ScannedGraph where
  nodes := [⟨0, ["GraphReplayState"], ∅⟩]
  edges := []
  nodeIds := List.nodup_singleton _
  edgeIds := List.nodup_nil

/-- **The progress record of a replay** is a node that no scan visits. -/
theorem replay_state_not_visited :
    ¬∃ fuel nodes, scanNodes .ok replayingGraph {} fuel = some (.ok nodes) ∧ nodes.Perm replayingGraph.nodes := by
  rintro ⟨fuel, nodes, hscan, hperm⟩
  have hempty : replayingGraph.contentNodes = [] := by decide +kernel
  cases fuel with
  | zero => cases hscan
  | succ fuel =>
    have hchunk : CursorScan.chunk NodeRow.cursor 50 [] (-1) = [] := by
      unfold CursorScan.chunk CursorScan.rowsAfter
      rw [List.filter_nil, (sortBy_perm []).eq_nil, List.take_nil]
    unfold scanNodes CursorScan.scan at hscan
    rw [hempty, hchunk] at hscan
    cases hscan
    have := hperm.length_eq
    simp [replayingGraph] at this

end PolicySystem.Digest
