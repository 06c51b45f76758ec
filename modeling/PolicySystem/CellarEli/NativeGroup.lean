import PolicySystem.CellarEli.StructureTree
import PolicySystem.Gateway.EdgeKeys

/-!
# The native graph of a document

`build_native_writes` and `build_native_group` (`ingestion/graph_writer.py`): the instrument, the structural nodes and the
`HAS` edges as one group.

* `nativeGroup_node`, `nativeGroup_edgeKeys`: what the group of a document without repeated ids makes of a graph that has
  none of its nodes.
-/

namespace PolicySystem.CellarEli

open Std (ExtTreeMap)
open Xml Text
open PropertyGraph GraphWrite

/-! ## The group -/

/-- The label in the graph. -/
def Label.name : Label → String
  | .regulatoryInstrument => "RegulatoryInstrument"
  | .chapter => "CHAPTER"
  | .section => "SECTION"
  | .article => "ARTICLE"
  | .paragraph => "PARAGRAPH"
  | .annex => "ANNEX"
  | .recital => "RECITAL"

theorem Label.name_injective : Function.Injective Label.name := by
  intro a b h
  cases a <;> cases b <;> first | rfl | exact absurd h (by decide)

def textValue (s : String) : PropertyValue := .scalar (.str s)

/-- `StructuralNode.properties`: the texts the node has, its citation and its order. -/
def StructuralNode.properties (n : StructuralNode) : PropertyMap :=
  let cited := ((∅ : PropertyMap).insert "citation_ref" (textValue n.citationRef)).insert "order" (.scalar (.int n.order))
  let headed := match n.heading with
    | some heading => cited.insert "heading" (textValue heading)
    | none => cited
  match n.text with
  | some text => headed.insert "text" (textValue text)
  | none => headed

/-- The node under a key. -/
def keyRef (q : NodeKey) : NodeRef := ⟨q.1.name, q.2⟩

def instrumentRef (rid : String) : NodeRef := ⟨"RegulatoryInstrument", rid⟩

/-- The instrument's own id stands in for the placeholder of the edges anchored to it. -/
def anchored (rid : String) (q : NodeKey) : NodeRef := if q.1 = .regulatoryInstrument then instrumentRef rid else keyRef q

/-- `_structural_node`. -/
def structuralNode (n : StructuralNode) : Primitive := .upsertNode (keyRef (nodeKey n)) n.properties none

/-- `_has_edge`. -/
def hasEdge (rid : String) (e : StructuralEdge) : EdgeBase :=
  ⟨"HAS", edgeIdentity "HAS" (anchored rid (parentKey e)).id e.childId, anchored rid (parentKey e), keyRef (childKey e)⟩

/-- The nodes an edge of the group may have as its ends. -/
def present (rid : String) (nodes : List StructuralNode) (existing : List NodeRef) : List NodeRef :=
  instrumentRef rid :: nodes.map (fun n => keyRef (nodeKey n)) ++ existing

/-- `build_native_group`: an edge with an end that is nowhere is dropped. -/
def nativeGroup (rid : String) (instrument : PropertyMap) (nodes : List StructuralNode) (edges : List StructuralEdge)
    (existing : List NodeRef) : List Primitive :=
  .upsertNode (instrumentRef rid) instrument none :: nodes.map structuralNode ++
    ((edges.map (hasEdge rid)).filter fun e =>
      e.source ∈ present rid nodes existing ∧ e.target ∈ present rid nodes existing).map fun e => .upsertEdge e ∅

/-! ## Upserts of what is new -/

section Upserts

variable {α : Type} {ref : α → NodeRef} {properties : α → PropertyMap} {xs : List α} {g : Graph}

/-- Node upserts of a list. -/
def upsertNodes (ref : α → NodeRef) (properties : α → PropertyMap) (xs : List α) : List Primitive :=
  xs.map fun x => .upsertNode (ref x) (properties x) none

theorem upsertNodes_edgeKeys : edgeKeys (applyAll g (upsertNodes ref properties xs)) = edgeKeys g := by
  induction xs generalizing g with
  | nil => rfl
  | cons x xs ih =>
    show edgeKeys (applyAll (applyOne g _) (upsertNodes ref properties xs)) = _
    rw [ih, edgeKeys_upsertNode]

theorem upsertNodes_other {n : NodeRef} (h : n ∉ xs.map ref) :
    (applyAll g (upsertNodes ref properties xs)).nodes[n]? = g.nodes[n]? := by
  induction xs generalizing g with
  | nil => rfl
  | cons x xs ih =>
    rw [List.map_cons, List.mem_cons, not_or] at h
    show (applyAll (applyOne g _) (upsertNodes ref properties xs)).nodes[n]? = _
    rw [ih h.2, applyOne_eq_write rfl, write_nodes, nodeStep, if_neg (Ne.symm h.1)]

/-- New nodes hold what they are given. -/
theorem upsertNodes_get (hnodup : (xs.map ref).Nodup) (hfresh : ∀ x ∈ xs, ref x ∉ g.nodes) {x : α} (hx : x ∈ xs) :
    (applyAll g (upsertNodes ref properties xs)).nodes[ref x]? = some ((default : NodeContent).upsert (properties x) none) := by
  induction xs generalizing g with
  | nil => cases hx
  | cons y xs ih =>
    rw [List.map_cons, List.nodup_cons] at hnodup
    show (applyAll (applyOne g _) (upsertNodes ref properties xs)).nodes[ref x]? = _
    by_cases hsame : ref x = ref y
    · have hy : x = y := by
        rcases List.mem_cons.1 hx with hy | hx
        · exact hy
        · exact absurd (hsame ▸ List.mem_map_of_mem hx) hnodup.1
      rw [hy, upsertNodes_other hnodup.1, applyOne_eq_write rfl, write_nodes, nodeStep, if_pos rfl,
        ExtTreeMap.getElem?_eq_none (hfresh y List.mem_cons_self)]
      rfl
    · have hx : x ∈ xs := (List.mem_cons.1 hx).resolve_left fun hy => hsame (congrArg ref hy)
      refine ih hnodup.2 (fun z hz hmem => ?_) hx
      rw [ExtTreeMap.mem_iff_isSome_getElem?, applyOne_eq_write rfl, write_nodes, nodeStep, if_neg ?_,
        ← ExtTreeMap.mem_iff_isSome_getElem?] at hmem
      · exact hfresh z (List.mem_cons_of_mem _ hz) hmem
      · intro heq
        exact hnodup.1 (heq ▸ List.mem_map_of_mem hz)

theorem upsertEdges_nodes {es : List EdgeBase} :
    (applyAll g (es.map fun e => .upsertEdge e ∅)).nodes = g.nodes := by
  induction es generalizing g with
  | nil => rfl
  | cons e es ih =>
    rw [List.map_cons, applyAll_cons, ih, applyOne_eq_write rfl]
    rfl

/-- New edges between nodes that are there are added, each once. -/
theorem upsertEdges_edgeKeys {es : List EdgeBase} (hnodup : es.Nodup) (hfresh : ∀ e ∈ es, e.edgeKey ∉ edgeKeys g)
    (hends : ∀ e ∈ es, e.source ∈ g.nodes ∧ e.target ∈ g.nodes) :
    edgeKeys (applyAll g (es.map fun e => .upsertEdge e ∅)) = (es.map EdgeBase.edgeKey : Multiset EdgeKey) + edgeKeys g := by
  induction es generalizing g with
  | nil => rw [List.map_nil, List.map_nil, applyAll_nil, Multiset.coe_nil, Multiset.zero_add]
  | cons e es ih =>
    obtain ⟨hnew, hnodup⟩ := List.nodup_cons.1 hnodup
    have hfirst : edgeKeys (applyOne g (.upsertEdge e ∅)) = e.edgeKey ::ₘ edgeKeys g := by
      have hthere : g.hasEnds e.edgeKey = true := hasEnds_iff.2 (hends e List.mem_cons_self)
      rw [edgeKeys_upsertEdge, if_pos ⟨hthere, hfresh e List.mem_cons_self⟩]
    have hnodes : (applyOne g (.upsertEdge e ∅)).nodes = g.nodes := by
      rw [applyOne_eq_write rfl]
      rfl
    rw [List.map_cons, applyAll_cons, ih hnodup, hfirst, List.map_cons, ← Multiset.cons_coe, Multiset.cons_add,
      Multiset.add_cons]
    · intro e' he' hmem
      rw [hfirst, Multiset.mem_cons] at hmem
      rcases hmem with hkey | hmem
      · exact hnew (EdgeBase.edgeKey_injective hkey ▸ he')
      · exact hfresh e' (List.mem_cons_of_mem _ he') hmem
    · intro e' he'
      rw [hnodes]
      exact hends e' (List.mem_cons_of_mem _ he')

end Upserts

/-! ## The group of a document -/

theorem keyRef_injective : Function.Injective keyRef := by
  rintro ⟨label, id⟩ ⟨label', id'⟩ h
  obtain ⟨hname, hid⟩ := NodeRef.mk.inj h
  exact Prod.ext (Label.name_injective hname) hid

theorem keyRef_ne_instrument {q : NodeKey} (h : q.1 ≠ .regulatoryInstrument) (rid : String) : keyRef q ≠ instrumentRef rid := by
  intro heq
  exact h (Label.name_injective (NodeRef.mk.inj heq).1)

section Group

variable {digits : UnicodeDigits} {celex rid : String} {root main : Element} {ms : List Mint} {instrument : PropertyMap}
  {existing : List NodeRef} {g : Graph}

/-- Where the edge of a mint starts in the graph. -/
def Mint.from (rid : String) (m : Mint) : NodeRef := anchored rid m.parent

/-- Its node in the graph. -/
def Mint.ref (m : Mint) : NodeRef := keyRef m.key

theorem paragraphMints_label {localId number : String} {paragraphs : List (Element × String)} {order : ℕ} :
    ∀ m ∈ paragraphMints celex localId number paragraphs order, m.node.elementType = .paragraph := by
  induction paragraphs generalizing order with
  | nil =>
    intro m hm
    cases hm
  | cons paragraph paragraphs ih =>
    intro m hm
    rcases List.mem_cons.1 hm with rfl | hm
    · rfl
    · exact ih m hm

/-- A walk mints no instrument and no annex. -/
theorem Walked.labels {parentLabel : Label} {parentId : String} {es : List Element} {order order' : ℕ} {ms : List Mint}
    {annexes : List (Element × String)} (h : Walked digits celex parentLabel parentId es order ms annexes order') :
    ∀ m ∈ ms, m.node.elementType ≠ .regulatoryInstrument ∧ m.node.elementType ≠ .annex := by
  induction h with
  | nil | skip | annex =>
    intro m hm
    cases hm
  | cons first rest ih ih' =>
    intro m hm
    rcases List.mem_append.1 hm with hm | hm
    · exact ih m hm
    · exact ih' m hm
  | pass htag hid inner ih => exact ih
  | article htag hid hparts =>
    intro m hm
    rcases List.mem_cons.1 hm with rfl | hm
    · simp [articleNode]
    · rw [paragraphMints_label m hm]
      simp
  | recital htag hid =>
    intro m hm
    obtain rfl := List.mem_singleton.1 hm
    simp [structNode, Kind.label]
  | container htag hid hkind inner ih =>
    intro m hm
    rcases List.mem_cons.1 hm with rfl | hm
    · rcases hkind with rfl | rfl <;> simp [structNode, Kind.label]
    · exact ih m hm

theorem Minted.noInstrument (h : Minted digits celex root main ms) :
    ∀ m ∈ Minted.all celex root main ms, m.node.elementType ≠ .regulatoryInstrument := by
  obtain ⟨annexes, n, hwalked⟩ := h.walked
  intro m hm
  rcases List.mem_append.1 hm with hm | hm
  · exact (hwalked.labels m hm).1
  · rw [(annexMints_spec hm).2]
    simp

theorem Minted.refs_nodup (h : Minted digits celex root main ms) : ((Minted.all celex root main ms).map Mint.ref).Nodup := by
  have hkeys := (List.nodup_cons.1 h.nodup).2.map keyRef_injective
  rwa [List.map_map] at hkeys

/-- An edge starts at the instrument or at another mint. -/
theorem Minted.from_mem (h : Minted digits celex root main ms) (rid : String) {m : Mint} (hm : m ∈ Minted.all celex root main ms) :
    m.from rid ∈ instrumentRef rid :: (Minted.all celex root main ms).map Mint.ref := by
  obtain ⟨⟨e, he, hparent⟩, -⟩ := h.tree m.sourced (List.mem_map_of_mem hm)
  have hedge : m.edge = e := by
    have hmem : m.edge ∈ ((Minted.all celex root main ms).map Mint.edge).filter fun e => childKey e = nodeKey m.sourced.2 :=
      List.mem_filter.2 ⟨List.mem_map_of_mem hm, decide_eq_true rfl⟩
    rw [he] at hmem
    exact List.mem_singleton.1 hmem
  subst hedge
  unfold Mint.from anchored
  rcases hparent with hroot | ⟨p, hp, hkey⟩
  · have hlabel : m.parent.1 = .regulatoryInstrument := congrArg Prod.fst hroot
    rw [if_pos hlabel]
    exact List.mem_cons_self
  · obtain ⟨m', hm', rfl⟩ := List.mem_map.1 hp
    have hkey : m'.key = m.parent := hkey
    have hlabel : m'.key.1 ≠ .regulatoryInstrument := h.noInstrument m' hm'
    rw [← hkey, if_neg hlabel]
    exact List.mem_cons_of_mem _ (List.mem_map_of_mem hm')

/-- The native graph of a document over what the graph held. -/
def nativeGraph (g : Graph) (rid : String) (instrument : PropertyMap) (nodes : List (Element × StructuralNode))
    (edges : List StructuralEdge) (existing : List NodeRef) : Graph :=
  applyAll g (nativeGroup rid instrument (nodes.map Prod.snd) edges existing)

/-- **The group of a document** over a graph without its nodes: every node holds its properties, and every node has its
`HAS` edge. -/
theorem Minted.graph (h : Minted digits celex root main ms)
    (hfresh : ∀ n ∈ instrumentRef rid :: (Minted.all celex root main ms).map Mint.ref, n ∉ g.nodes) :
    (∀ m ∈ Minted.all celex root main ms,
      (nativeGraph g rid instrument ((Minted.all celex root main ms).map Mint.sourced)
        ((Minted.all celex root main ms).map Mint.edge) existing).nodes[m.ref]? =
          some ((default : NodeContent).upsert m.node.properties none)) ∧
    edgeKeys (nativeGraph g rid instrument ((Minted.all celex root main ms).map Mint.sourced)
      ((Minted.all celex root main ms).map Mint.edge) existing) =
        ((Minted.all celex root main ms).map fun m => (hasEdge rid m.edge).edgeKey : Multiset EdgeKey) + edgeKeys g := by
  set all := Minted.all celex root main ms with hall
  have hnodes : (all.map Mint.sourced).map Prod.snd = all.map Mint.node := by
    rw [List.map_map]
    rfl
  have hpresent : (((all.map Mint.edge).map (hasEdge rid)).filter fun e =>
      e.source ∈ present rid (all.map Mint.node) existing ∧ e.target ∈ present rid (all.map Mint.node) existing) =
      all.map fun m => hasEdge rid m.edge := by
    rw [List.map_map]
    refine List.filter_eq_self.2 fun e he => decide_eq_true ?_
    obtain ⟨m, hm, rfl⟩ := List.mem_map.1 he
    have hrefs : (all.map Mint.node).map (fun n => keyRef (nodeKey n)) = all.map Mint.ref := by
      rw [List.map_map]
      rfl
    unfold present
    rw [hrefs]
    exact ⟨List.mem_append_left _ (h.from_mem rid hm),
      List.mem_append_left _ (List.mem_cons_of_mem _ (List.mem_map_of_mem (f := Mint.ref) hm))⟩
  have hgroup : nativeGraph g rid instrument (all.map Mint.sourced) (all.map Mint.edge) existing =
      applyAll (applyAll (applyOne g (.upsertNode (instrumentRef rid) instrument none))
        (upsertNodes Mint.ref (fun m => m.node.properties) all))
        ((all.map fun m => hasEdge rid m.edge).map fun e => .upsertEdge e ∅) := by
    unfold nativeGraph nativeGroup
    rw [hnodes, hpresent, List.cons_append, applyAll_cons, applyAll_append, List.map_map]
    rfl
  rw [hgroup]
  set before := applyAll (applyOne g (.upsertNode (instrumentRef rid) instrument none))
    (upsertNodes Mint.ref (fun m => m.node.properties) all) with hbefore
  have hinstrument : ∀ m ∈ all, m.ref ≠ instrumentRef rid := fun m hm => keyRef_ne_instrument (h.noInstrument m hm) rid
  have hget : ∀ m ∈ all, before.nodes[m.ref]? = some ((default : NodeContent).upsert m.node.properties none) := by
    intro m hm
    refine upsertNodes_get h.refs_nodup (fun m' hm' hmem => ?_) hm
    rw [ExtTreeMap.mem_iff_isSome_getElem?, applyOne_eq_write rfl, write_nodes, nodeStep,
      if_neg (hinstrument m' hm').symm, ← ExtTreeMap.mem_iff_isSome_getElem?] at hmem
    exact hfresh _ (List.mem_cons_of_mem _ (List.mem_map_of_mem hm')) hmem
  have hroot : instrumentRef rid ∈ before.nodes := by
    rw [ExtTreeMap.mem_iff_isSome_getElem?, hbefore, upsertNodes_other, applyOne_eq_write rfl, write_nodes, nodeStep,
      if_pos rfl]
    · rfl
    · intro hmem
      obtain ⟨m, hm, heq⟩ := List.mem_map.1 hmem
      exact hinstrument m hm heq
  have hkeys : edgeKeys before = edgeKeys g := by
    rw [hbefore, upsertNodes_edgeKeys, edgeKeys_upsertNode]
  constructor
  · intro m hm
    rw [upsertEdges_nodes]
    exact hget m hm
  · rw [upsertEdges_edgeKeys, hkeys, List.map_map]
    · rfl
    · have htargets : (all.map fun m => hasEdge rid m.edge).map EdgeBase.target = all.map Mint.ref := by
        rw [List.map_map]
        rfl
      exact (htargets ▸ h.refs_nodup).of_map
    · intro e he hmem
      obtain ⟨m, hm, rfl⟩ := List.mem_map.1 he
      rw [hkeys] at hmem
      exact hfresh _ (List.mem_cons_of_mem _ (List.mem_map_of_mem hm)) (ends_of_mem hmem).2
    · intro e he
      obtain ⟨m, hm, rfl⟩ := List.mem_map.1 he
      constructor
      · rcases List.mem_cons.1 (h.from_mem rid hm) with heq | hin
        · exact (show (hasEdge rid m.edge).source = instrumentRef rid from heq) ▸ hroot
        · obtain ⟨m', hm', heq⟩ := List.mem_map.1 hin
          have hsource : (hasEdge rid m.edge).source = m'.ref := heq.symm
          rw [hsource, ExtTreeMap.mem_iff_isSome_getElem?, hget m' hm']
          rfl
      · show m.ref ∈ before.nodes
        rw [ExtTreeMap.mem_iff_isSome_getElem?, hget m hm]
        rfl

end Group

end PolicySystem.CellarEli
