import PolicySystem.Cleanup.Model

/-!
# Splitting a resolved Capability

The plan of a split (`graph_cleanup/split_planner.py`) and the group that executes it
(`build_capability_split_group`). X is the resolved id, A the terminal Capability its chain ends on.

* `planned_of_digest`: equal digests fix everything the group is built from but the minted node's confidence and
  description;
* `split_groups_equal_iff`: so they fix the group exactly when these two agree.
-/

namespace PolicySystem

open Std (ExtTreeMap)
open Text (Json)

/-! ## The state -/

/-- `HeldEdges`: the sources of one edge class that the baselines hold on X and on A. -/
structure HeldEdges where
  heldX : Finset String
  heldA : Finset String
  skippedMissing : Finset String

/-- `BaselineCapability`. -/
structure BaselineCapability where
  id : String
  name : String
  confidence : Option Double := none
  description : Option String := none
  embedding : Option Embedding := none
  deriving DecidableEq

/-- `SplitHolder`. -/
structure SplitHolder where
  graphName : String
  node : BaselineCapability
  instruments : List String

/-- The label of a Capability marker. -/
inductive CapabilityMarker where
  | resolved
  | merged
  deriving DecidableEq

/-- `CapabilitySplitState`. -/
structure CapabilitySplitState where
  xId : String
  xMarkerLabel : Option CapabilityMarker
  markerResolvesTo : Option String
  chain : List String
  xIsCapability : Bool
  terminal : Option CapabilityNodeState
  terminalPolicies : List GoverningPolicy
  terminalEdges : List EdgeRecord
  holders : List SplitHolder
  held : EdgeClass → Option HeldEdges
  /-- `read_capability_split_state` reads the terminal under the chain's last id. -/
  terminal_last : ∀ a, terminal = some a → chain.getLast? = some a.id

/-- What `plan_capability_split` refuses. -/
inductive SplitError where
  /-- "capability ... already exists as a Capability; there is nothing to split" -/
  | alreadyCapability
  /-- "capability ... was merged by a cleanup merge, not resolved automatically; ..." -/
  | mergedByCleanup
  /-- "there is no automatic resolution of capability ..." -/
  | noResolution
  /-- "capability ... resolves to ..., which is not an existing Capability" -/
  | terminalMissing (terminalId : String)
  /-- "a capability has more than one governing policy; this is a data fault" -/
  | severalPolicies
  /-- "no regulation baseline holds capability ..., so it cannot be minted from one" -/
  | noHolder
  deriving DecidableEq

/-- `_validate`. -/
def validateSplit (state : CapabilitySplitState) : Except SplitError (CapabilityNodeState × String) :=
  if state.xIsCapability then .error .alreadyCapability
  else if state.xMarkerLabel = some .merged then .error .mergedByCleanup
  else
    match state.xMarkerLabel, state.markerResolvesTo with
    | some .resolved, some resolvesTo =>
      match state.terminal with
      | none => .error (.terminalMissing (state.chain.getLast?.getD resolvesTo))
      | some a =>
        if state.terminalPolicies.length > 1 then .error .severalPolicies
        else if state.holders = [] then .error .noHolder
        else .ok (a, resolvesTo)
    | _, _ => .error .noResolution

/-- `_source_holder`: the first holder with an embedding, else the first. -/
def sourceHolder (holders : List SplitHolder) : Option SplitHolder :=
  (holders.find? fun h => h.node.embedding.isSome).or holders.head?

/-- `_current`. -/
def current (state : CapabilitySplitState) (c : EdgeClass) (aId : String) : Finset String :=
  ((state.terminalEdges.filter fun e => e.relType = c.relType ∧ e.targetId = aId).map EdgeRecord.sourceId).toFinset

/-- `_held`. -/
def heldOf (state : CapabilitySplitState) (c : EdgeClass) : HeldEdges := (state.held c).getD ⟨∅, ∅, ∅⟩

/-! ## The digest -/

/-- A NaN, of any bit pattern. -/
def Double.isNaN (d : Double) : Bool := !d.isFinite && d.bits.toNat % 2 ^ 52 ≠ 0

def nonFiniteText (nan negative : Bool) : List Char :=
  if nan then "NaN".toList else if negative then "-Infinity".toList else "Infinity".toList

/-- The text `json.dumps` gives a float. -/
def floatText (d : Double) : List Char :=
  if d.isFinite then (Text.Binary64.toNumeral d.bits.toNat).render
  else nonFiniteText d.isNaN (Text.Binary64.isNegative d.bits.toNat)

/-- The items of a list after the first, `json.dumps` with its own separators. -/
def floatsText (items : List Double) : List Char := items.flatMap fun d => ',' :: ' ' :: floatText d

/-- `json.dumps(list(embedding))`. -/
def embeddingText : Embedding → List Char
  | [] => ['[', ']']
  | d :: items => '[' :: (floatText d ++ (floatsText items ++ [']']))

/-- The key of a class in the preview and the digest. -/
def EdgeClass.key : EdgeClass → String
  | requires => "requires"
  | covers => "covers"
  | mitigatedBy => "mitigated_by"

/-- The digest's view of one edge class. -/
def edgesPayload (state : CapabilitySplitState) (aId : Option String) (c : EdgeClass) : Json Double :=
  dict [("held_x", stringsJson (sortedIds (heldOf state c).heldX)),
    ("held_a_and_x", stringsJson (sortedIds ((heldOf state c).heldA ∩ (heldOf state c).heldX))),
    ("current_a", stringsJson (aId.elim [] fun aId => sortedIds (current state c aId)))]

section

variable (sha256 : Bytes → String)

/-- `hashlib.sha256(json.dumps(list(embedding)).encode("utf-8"))`. -/
def embeddingDigest (embedding : Embedding) : String :=
  sha256 (String.ofList (embeddingText embedding)).toUTF8.data.toList

/-- The items of the digest payload. -/
def splitDigestItems (state : CapabilitySplitState) : List (String × Json Double) :=
  let aId := state.chain.getLast?
  let source := sourceHolder state.holders
  [("x_id", .str state.xId), ("marker_resolves_to", optionJson state.markerResolvesTo),
    ("chain", stringsJson state.chain), ("a_id", optionJson aId),
    ("a_status", optionJson (state.terminal.map CapabilityNodeState.status)),
    ("a_governors", .arr (((state.terminalPolicies.map fun p => [p.id, p.status]).insertionSort (· ≤ ·)).map stringsJson)),
    ("x_is_capability", .bool state.xIsCapability), ("x_is_merged", .bool (state.xMarkerLabel = some .merged)),
    ("edges", dict (EdgeClass.all.map fun c => (c.key, edgesPayload state aId c))),
    ("source_baseline", optionJson (source.map SplitHolder.graphName)),
    ("source_name", optionJson (source.map fun h => h.node.name)),
    ("source_embedding_sha256", optionJson ((source.bind fun h => h.node.embedding).map (embeddingDigest sha256)))]

/-- `split_digest_payload`. -/
def splitDigestPayload (state : CapabilitySplitState) : Json Double := dict (splitDigestItems sha256 state)

end

/-! ## The plan -/

/-- `SplitEdgeSet`. -/
structure SplitEdgeSet where
  moves : List String
  shared : List String
  added : List String
  stays : List String
  deriving DecidableEq

/-- `SplitGovernance`; the acknowledgment text names the policy, A, X and the count of moving obligations. -/
structure SplitGovernance where
  policy : GoverningPolicy
  acknowledgmentRequired : Bool
  acknowledgmentAId : String
  acknowledgmentXId : String
  acknowledgmentMoving : ℕ

/-- `CapabilitySplitPreview`. -/
structure CapabilitySplitPreview where
  xId : String
  xName : String
  aId : String
  aName : String
  markerResolvesTo : String
  sourceBaseline : String
  sourceInstruments : List String
  embeddingAvailable : Bool
  edges : EdgeClass → SplitEdgeSet
  governance : Option SplitGovernance
  obligationsMoving : ℕ
  skippedMissingEndpoints : ℕ
  stateDigest : String

/-- `CapabilitySplitPlan`. -/
structure CapabilitySplitPlan where
  preview : CapabilitySplitPreview
  minted : BaselineCapability
  before : GraphSnapshot
  after : GraphSnapshot
  stateDigest : String

/-- The edges of one class that leave A for X. -/
def moves (state : CapabilitySplitState) (aId : String) (c : EdgeClass) : Finset String :=
  ((heldOf state c).heldX ∩ current state c aId) \ (heldOf state c).heldA

/-- What the split does to each source of one class. -/
def splitEdgeSet (state : CapabilitySplitState) (aId : String) (c : EdgeClass) : SplitEdgeSet where
  moves := sortedIds (moves state aId c)
  shared := sortedIds ((heldOf state c).heldX ∩ current state c aId ∩ (heldOf state c).heldA)
  added := sortedIds ((heldOf state c).heldX \ current state c aId)
  stays := sortedIds (current state c aId \ (heldOf state c).heldX)

/-- `_sorted_edges`: by type, source, target and source label. -/
def sortedSplitEdges (edges : List EdgeRecord) : List EdgeRecord :=
  edges.insertionSort fun a b => a.sortKey.take 4 ≤ b.sortKey.take 4

/-- A text property. -/
def text (s : String) : PropertyValue := .scalar (.str s)

def withProperties (properties : PropertyMap) (items : List (String × PropertyValue)) : PropertyMap :=
  properties.insertMany items

/-- `_minted_node`. -/
def mintedNode (xId : String) (node : BaselineCapability) : NodeRecord :=
  ⟨"Capability", xId, withProperties ∅ ([("name", text node.name)] ++
    (node.confidence.map fun d => ("confidence", PropertyValue.scalar (.float d))).toList ++
    (node.description.map fun s => ("description", text s)).toList)⟩

/-- `plan_capability_split`. -/
def planCapabilitySplit (sha256 : Bytes → String) (state : CapabilitySplitState) :
    Except SplitError CapabilitySplitPlan := do
  let (a, resolvesTo) ← validateSplit state
  match sourceHolder state.holders with
  | none => .error .noHolder -- not reached: some baseline holds X
  | some source =>
    let policy := state.terminalPolicies.head?
    let moving := (moves state a.id .requires).card
    let digest := canonicalDigest sha256 (splitDigestPayload sha256 state)
    let aRecord : NodeRecord :=
      ⟨"Capability", a.id, withProperties a.properties [("name", text a.name), ("status", text a.status)]⟩
    let policyNodes := policy.toList.map fun p =>
      (⟨"Policy", p.id, withProperties ∅ [("title", text p.title), ("status", text p.status)]⟩ : NodeRecord)
    let governed := policy.toList.map fun p => governedBy a.id p.id
    let afterEdges := EdgeClass.all.flatMap fun c =>
      (sortedIds (current state c a.id \ moves state a.id c)).map (classEdge c · a.id) ++
        (sortedIds (heldOf state c).heldX).map (classEdge c · state.xId)
    .ok {
      preview := {
        xId := state.xId
        xName := source.node.name
        aId := a.id
        aName := a.name
        markerResolvesTo := resolvesTo
        sourceBaseline := source.graphName
        sourceInstruments := source.instruments
        embeddingAvailable := source.node.embedding.isSome
        edges := splitEdgeSet state a.id
        governance := policy.map fun p => ⟨p, true, a.id, state.xId, moving⟩
        obligationsMoving := moving
        skippedMissingEndpoints := (EdgeClass.all.map fun c => (heldOf state c).skippedMissing.card).sum
        stateDigest := digest }
      minted := source.node
      before := {
        nodes := [aRecord, ⟨"ResolvedCapability", state.xId, withProperties ∅ [("resolves_to", text resolvesTo)]⟩] ++ policyNodes
        edges := sortedSplitEdges (state.terminalEdges ++ governed) }
      after := {
        nodes := [aRecord, mintedNode state.xId source.node] ++ policyNodes
        edges := sortedSplitEdges (afterEdges ++ governed) }
      stateDigest := digest }

/-! ## The group -/

/-- The properties of the minted Capability. -/
def mintedProperties (minted : BaselineCapability) (createdAt : String) : List (String × PyValue) :=
  [("name", .str minted.name), ("created_at", .str createdAt)] ++
    (minted.confidence.map fun d => ("confidence", PyValue.float d)).toList ++
    (minted.description.map fun s => ("description", PyValue.str s)).toList

/-- The primitives `build_capability_split_group` constructs. -/
def splitPrimitives (plan : CapabilitySplitPlan) (createdAt : String) : List RawPrimitive :=
  [.upsertNode "Capability" plan.preview.xId (mintedProperties plan.minted createdAt) plan.minted.embedding] ++
    (EdgeClass.all.flatMap fun c =>
      let edges := plan.preview.edges c
      (edges.moves ++ edges.shared ++ edges.added).map fun source => .upsertEdge (classRawEdge c source plan.preview.xId) []) ++
    (EdgeClass.all.flatMap fun c =>
      (plan.preview.edges c).moves.map fun source => .deleteEdge (classRawEdge c source plan.preview.aId)) ++
    [.deleteNode "ResolvedCapability" plan.preview.xId]

/-- `build_capability_split_group`: `none` where a primitive refuses a value. -/
def buildCapabilitySplitGroup (plan : CapabilitySplitPlan) (createdAt : String) : Option (List Primitive) :=
  (splitPrimitives plan createdAt).mapM RawPrimitive.accept

/-! ## The embedding's text -/

theorem digitChar_not_separator (d : Fin 10) : Text.digitChar d ≠ ',' ∧ Text.digitChar d ≠ ']' := by
  revert d
  decide

/-- A character of a list's item, not of its separators. -/
def isItemChar (c : Char) : Bool := c ≠ ',' && c ≠ ']'

theorem render_itemChars (n : Text.Numeral) : ∀ c ∈ n.render, isItemChar c = true := by
  have hdigits : ∀ (ds : List (Fin 10)), ∀ c ∈ ds.map Text.digitChar, isItemChar c = true := by
    intro ds c hc
    obtain ⟨d, -, rfl⟩ := List.mem_map.1 hc
    simpa [isItemChar] using digitChar_not_separator d
  intro c hc
  unfold Text.Numeral.render at hc
  rcases List.mem_append.1 hc with hc | hc
  · rcases List.mem_append.1 hc with hc | hc
    · rcases List.mem_append.1 hc with hc | hc
      · split at hc
        · rw [List.mem_singleton.1 hc]
          decide
        · cases hc
      · exact hdigits _ c hc
    · cases hfrac : n.fraction with
      | nil =>
        rw [hfrac] at hc
        cases hc
      | cons d ds =>
        rw [hfrac] at hc
        rcases List.mem_cons.1 hc with rfl | hc
        · decide
        · exact hdigits _ c hc
  · cases hexp : n.exponent with
    | none =>
      rw [hexp] at hc
      cases hc
    | some e =>
      rw [hexp] at hc
      rcases List.mem_cons.1 hc with rfl | hc
      · decide
      · rcases List.mem_cons.1 hc with rfl | hc
        · cases e.1 <;> decide
        · exact hdigits _ c hc

theorem nonFiniteText_itemChars (nan negative : Bool) : ∀ c ∈ nonFiniteText nan negative, isItemChar c = true := by
  cases nan <;> cases negative <;> simp [nonFiniteText, isItemChar]

theorem nonFiniteText_ne_nil (nan negative : Bool) : nonFiniteText nan negative ≠ [] := by
  revert nan negative
  decide

theorem nonFiniteText_injective {nan negative nan' negative' : Bool}
    (h : nonFiniteText nan negative = nonFiniteText nan' negative') : nan = nan' ∧ (nan = false → negative = negative') := by
  revert nan negative nan' negative'
  decide

theorem lex_nonFiniteText (nan negative : Bool) : Text.Numeral.lex (nonFiniteText nan negative) = none := by
  revert nan negative
  decide

theorem floatText_itemChars (d : Double) : ∀ c ∈ floatText d, isItemChar c = true := by
  unfold floatText
  split
  · exact render_itemChars _
  · exact nonFiniteText_itemChars _ _

theorem lex_floatText_finite {d : Double} (h : d.isFinite = true) :
    Text.Numeral.lex (floatText d) = some (Text.Binary64.toNumeral d.bits.toNat, []) := by
  have hstops : Text.Numeral.Stops [] := fun c cs hc => by cases hc
  have hlex := Text.Numeral.lex_render (Text.Binary64.toNumeral_wellFormed d.bits.toNat) hstops
  rw [List.append_nil] at hlex
  rw [floatText, if_pos h, hlex]

theorem floatText_infinite {d : Double} (h : d.isFinite = false) :
    floatText d = nonFiniteText d.isNaN (Text.Binary64.isNegative d.bits.toNat) := by
  rw [floatText, if_neg (by rw [h]; decide)]

theorem lex_floatText_infinite {d : Double} (h : d.isFinite = false) : Text.Numeral.lex (floatText d) = none := by
  rw [floatText_infinite h, lex_nonFiniteText]

theorem floatText_ne_nil (d : Double) : floatText d ≠ [] := by
  intro hnil
  cases hd : d.isFinite with
  | true =>
    have := lex_floatText_finite hd
    rw [hnil] at this
    cases this
  | false =>
    rw [floatText_infinite hd] at hnil
    exact nonFiniteText_ne_nil _ _ hnil

/-- The bits of an infinity are its sign. -/
theorem bits_of_infinite {d : Double} (h : d.isFinite = false) (hnan : d.isNaN = false) :
    d.bits.toNat = (if Text.Binary64.isNegative d.bits.toNat then 2 ^ 63 else 0) + 2047 * 2 ^ 52 := by
  have hexp : Text.Binary64.biasedExponent d.bits.toNat = 2047 := by
    by_contra hne
    have : d.isFinite = true := (Double.isFinite_iff d).2 (by simpa [Text.Binary64.isFinite] using hne)
    rw [this] at h
    cases h
  have hzero : d.bits.toNat % 2 ^ 52 = 0 := by simpa [Double.isNaN, h] using hnan
  have hbits := Text.Binary64.isNegative_of_lt d.bits.toNat_lt
  rw [hexp, hzero] at hbits
  omega

/-- **One text, one float**, NaNs apart. -/
theorem floatText_injective {a b : Double} (h : floatText a = floatText b) : a = b ∨ (a.isNaN = true ∧ b.isNaN = true) := by
  have hbits : a.bits.toNat = b.bits.toNat → a = b := by
    intro hab
    cases a
    cases b
    exact congrArg Double.mk (UInt64.toNat_inj.1 hab)
  cases ha : a.isFinite with
  | true =>
    cases hb : b.isFinite with
    | true =>
      have hnum := lex_floatText_finite ha
      rw [h, lex_floatText_finite hb] at hnum
      have heq : Text.Binary64.toNumeral b.bits.toNat = Text.Binary64.toNumeral a.bits.toNat :=
        congrArg Prod.fst (Option.some.inj hnum)
      have hra := Text.Binary64.ofNumeral_toNumeral a.bits.toNat_lt ((Double.isFinite_iff a).1 ha)
      have hrb := Text.Binary64.ofNumeral_toNumeral b.bits.toNat_lt ((Double.isFinite_iff b).1 hb)
      rw [← heq, hrb] at hra
      exact .inl (hbits hra.symm)
    | false =>
      have hnum := lex_floatText_finite ha
      rw [h, lex_floatText_infinite hb] at hnum
      cases hnum
  | false =>
    cases hb : b.isFinite with
    | true =>
      have hnum := lex_floatText_finite hb
      rw [← h, lex_floatText_infinite ha] at hnum
      cases hnum
    | false =>
      rw [floatText_infinite ha, floatText_infinite hb] at h
      obtain ⟨hnan, hsign⟩ := nonFiniteText_injective h
      cases hna : a.isNaN with
      | true => exact .inr ⟨rfl, by rw [← hnan, hna]⟩
      | false =>
        rw [hna] at hnan
        refine .inl (hbits ?_)
        rw [bits_of_infinite ha hna, bits_of_infinite hb hnan.symm, hsign hna]

/-- A text of items ends where a separator stands. -/
theorem append_itemChars_inj {as bs x y : List Char} (ha : ∀ c ∈ as, isItemChar c = true) (hb : ∀ c ∈ bs, isItemChar c = true)
    (hx : ∀ c cs, x = c :: cs → isItemChar c = false) (hy : ∀ c cs, y = c :: cs → isItemChar c = false)
    (h : as ++ x = bs ++ y) : as = bs ∧ x = y := by
  have htake : ∀ {as x : List Char}, (∀ c ∈ as, isItemChar c = true) → (∀ c cs, x = c :: cs → isItemChar c = false) →
      (as ++ x).takeWhile isItemChar = as := by
    intro as x has hx
    rw [List.takeWhile_append_of_pos has]
    cases x with
    | nil => simp
    | cons c cs => simp [hx c cs rfl]
  have hab : as = bs := by rw [← htake ha hx, h, htake hb hy]
  subst hab
  exact ⟨rfl, List.append_cancel_left h⟩

/-- The same text, item by item. -/
def SameTexts (e f : Embedding) : Prop := List.Forall₂ (fun a b => floatText a = floatText b) e f

theorem floatsText_head (items : List Double) : ∀ c cs, floatsText items ++ [']'] = c :: cs → isItemChar c = false := by
  intro c cs h
  cases items with
  | nil =>
    cases h
    decide
  | cons d items =>
    cases h
    decide

theorem floatsText_injective {xs ys : List Double} (h : floatsText xs ++ [']'] = floatsText ys ++ [']']) : SameTexts xs ys := by
  induction xs generalizing ys with
  | nil =>
    cases ys with
    | nil => exact .nil
    | cons y ys => simp [floatsText] at h
  | cons x xs ih =>
    cases ys with
    | nil => simp [floatsText] at h
    | cons y ys =>
      simp only [floatsText, List.flatMap_cons, List.cons_append, List.append_assoc, List.cons.injEq, true_and] at h
      obtain ⟨hxy, hrest⟩ := append_itemChars_inj (floatText_itemChars x) (floatText_itemChars y) (floatsText_head xs)
        (floatsText_head ys) h
      exact .cons hxy (ih hrest)

theorem embeddingText_injective {e f : Embedding} (h : embeddingText e = embeddingText f) : SameTexts e f := by
  cases e with
  | nil =>
    cases f with
    | nil => exact .nil
    | cons y ys =>
      -- the text of an item is not empty
      simp only [embeddingText, List.cons.injEq, true_and] at h
      obtain ⟨hy, -⟩ := @append_itemChars_inj [] (floatText y) [']'] (floatsText ys ++ [']']) (by simp)
        (floatText_itemChars y) (by intro c cs hc; cases hc; decide) (floatsText_head ys) h
      exact absurd hy.symm (floatText_ne_nil y)
  | cons x xs =>
    cases f with
    | nil =>
      simp only [embeddingText, List.cons.injEq, true_and] at h
      obtain ⟨hx, -⟩ := @append_itemChars_inj (floatText x) [] (floatsText xs ++ [']']) [']'] (floatText_itemChars x)
        (by simp) (floatsText_head xs) (by intro c cs hc; cases hc; decide) h
      exact absurd hx (floatText_ne_nil x)
    | cons y ys =>
      simp only [embeddingText, List.cons.injEq, true_and] at h
      obtain ⟨hxy, hrest⟩ := append_itemChars_inj (floatText_itemChars x) (floatText_itemChars y) (floatsText_head xs)
        (floatsText_head ys) h
      exact .cons hxy (floatsText_injective hrest)

/-! ## What the digest fixes -/

theorem sound_strings (strings : List String) : (stringsJson strings).Sound := by
  refine Json.soundItems_iff.2 fun item hitem => ?_
  obtain ⟨s, -, rfl⟩ := List.mem_map.1 hitem
  trivial

theorem sound_option (s : Option String) : (optionJson s).Sound := by
  cases s <;> trivial

theorem sound_edgesPayload (state : CapabilitySplitState) (aId : Option String) (c : EdgeClass) :
    (edgesPayload state aId c).Sound :=
  sound_dict (by simp [sound_strings])

theorem sound_splitDigestPayload (sha256 : Bytes → String) (state : CapabilitySplitState) :
    (splitDigestPayload sha256 state).Sound := by
  have hedges : (dict (EdgeClass.all.map fun c => (c.key, edgesPayload state state.chain.getLast? c))).Sound :=
    sound_dict fun item hitem => by
      obtain ⟨c, -, rfl⟩ := List.mem_map.1 hitem
      exact sound_edgesPayload _ _ _
  have hgovernors : (Json.arr (((state.terminalPolicies.map fun p => [p.id, p.status]).insertionSort (· ≤ ·)).map
      stringsJson)).Sound :=
    Json.soundItems_iff.2 fun item hitem => by
      obtain ⟨strings, -, rfl⟩ := List.mem_map.1 hitem
      exact sound_strings _
  refine sound_dict ?_
  simp only [splitDigestItems, List.mem_cons, List.not_mem_nil, or_false, forall_eq_or_imp, forall_eq]
  exact ⟨trivial, sound_option _, sound_strings _, sound_option _, sound_option _, hgovernors, trivial, trivial, hedges,
    sound_option _, sound_option _, sound_option _⟩

/-- The item of a dict under one of its keys. -/
theorem getItem?_dict {items : List (String × Json Double)} {key : String} {value : Json Double}
    (hnodup : (items.map Prod.fst).Nodup) (hmem : (key, value) ∈ items) : getItem? key (dict items) = some value := by
  have hfold : ∀ (items dict : List (String × Json Double)), (items.map Prod.fst).Nodup →
      getItem? key (.obj (items.foldl (fun dict item => Json.insertItem item.1 item.2 dict) dict)) =
        ((items.find? fun item => item.1 = key).map Prod.snd).or (getItem? key (.obj dict)) := by
    intro items
    induction items with
    | nil => simp
    | cons item items ih =>
      intro dict hnodup
      obtain ⟨hnot, hrest⟩ := List.nodup_cons.1 hnodup
      rw [List.foldl_cons, ih _ hrest, getItem?_insertItem]
      by_cases hkey : item.1 = key
      · have hnone : items.find? (fun item => item.1 = key) = none := by
          rw [List.find?_eq_none]
          intro x hx hxk
          exact hnot (List.mem_map.2 ⟨x, hx, by simpa [hkey] using hxk⟩)
        simp [hkey, hnone]
      · simp [hkey]
  have hfind : items.find? (fun item => item.1 = key) = some (key, value) := by
    induction items with
    | nil => cases hmem
    | cons item items ih =>
      obtain ⟨hnot, hrest⟩ := List.nodup_cons.1 hnodup
      rcases List.mem_cons.1 hmem with rfl | hmem
      · simp
      · have hne : item.1 ≠ key := fun heq => hnot (List.mem_map.2 ⟨_, hmem, heq.symm⟩)
        simpa [hne] using ih hrest hmem
  rw [dict, Json.dictOf, hfold items [] hnodup, hfind]
  rfl

/-- Equal dicts hold the same under a shared key. -/
theorem dict_item_eq {xs ys : List (String × Json Double)} {key : String} {x y : Json Double} (h : dict xs = dict ys)
    (hxs : (xs.map Prod.fst).Nodup) (hys : (ys.map Prod.fst).Nodup) (hx : (key, x) ∈ xs) (hy : (key, y) ∈ ys) : x = y := by
  have hget := getItem?_dict hxs hx
  rw [h, getItem?_dict hys hy] at hget
  exact (Option.some.inj hget).symm

theorem stringsJson_injective {a b : List String} (h : stringsJson a = stringsJson b) : a = b := by
  have hstr : Function.Injective (Json.str : String → Json Double) := fun x y hxy => Json.str.inj hxy
  exact hstr.list_map (Json.arr.inj h)

theorem optionJson_injective {a b : Option String} (h : optionJson a = optionJson b) : a = b := by
  cases a <;> cases b <;> simp [optionJson] at h ⊢
  exact h

theorem edgesPayload_keys : ["held_x", "held_a_and_x", "current_a"].Nodup := by decide

/-- Equal views of a class, equal sets. -/
theorem edgesPayload_injective {s t : CapabilitySplitState} {aId : String} {c : EdgeClass}
    (h : edgesPayload s (some aId) c = edgesPayload t (some aId) c) :
    (heldOf s c).heldX = (heldOf t c).heldX ∧
      (heldOf s c).heldA ∩ (heldOf s c).heldX = (heldOf t c).heldA ∩ (heldOf t c).heldX ∧
      current s c aId = current t c aId := by
  have hx := dict_item_eq h edgesPayload_keys edgesPayload_keys (.head _) (.head _)
  have hax := dict_item_eq h edgesPayload_keys edgesPayload_keys (.tail _ (.head _)) (.tail _ (.head _))
  have ha := dict_item_eq h edgesPayload_keys edgesPayload_keys (.tail _ (.tail _ (.head _))) (.tail _ (.tail _ (.head _)))
  exact ⟨sortedIds_injective (stringsJson_injective hx), sortedIds_injective (stringsJson_injective hax),
    sortedIds_injective (stringsJson_injective ha)⟩

/-- What equal payloads of two states agree on. -/
structure SameSigned (sha256 : Bytes → String) (s t : CapabilitySplitState) : Prop where
  xId : s.xId = t.xId
  aId : s.chain.getLast? = t.chain.getLast?
  name : ((sourceHolder s.holders).map fun h => h.node.name) = (sourceHolder t.holders).map fun h => h.node.name
  embedding : ((sourceHolder s.holders).bind fun h => h.node.embedding).map (embeddingDigest sha256) =
    ((sourceHolder t.holders).bind fun h => h.node.embedding).map (embeddingDigest sha256)
  edges : ∀ c, edgesPayload s s.chain.getLast? c = edgesPayload t t.chain.getLast? c

theorem splitDigest_keys : ["x_id", "marker_resolves_to", "chain", "a_id", "a_status", "a_governors", "x_is_capability",
    "x_is_merged", "edges", "source_baseline", "source_name", "source_embedding_sha256"].Nodup := by decide

theorem edgeClass_keys : ["requires", "covers", "mitigated_by"].Nodup := by decide

theorem sameSigned_of_payload {sha256 : Bytes → String} {s t : CapabilitySplitState}
    (h : splitDigestPayload sha256 s = splitDigestPayload sha256 t) : SameSigned sha256 s t := by
  -- what the payloads hold under the key at one position
  have hitem : ∀ (i : ℕ) {key : String} {x y : Json Double}, (splitDigestItems sha256 s)[i]? = some (key, x) →
      (splitDigestItems sha256 t)[i]? = some (key, y) → x = y := by
    intro i key x y hx hy
    exact dict_item_eq h splitDigest_keys splitDigest_keys (List.mem_of_getElem? hx) (List.mem_of_getElem? hy)
  have hedges := hitem 8 rfl rfl
  refine ⟨Json.str.inj (hitem 0 rfl rfl), optionJson_injective (hitem 3 rfl rfl), optionJson_injective (hitem 10 rfl rfl),
    optionJson_injective (hitem 11 rfl rfl), fun c => ?_⟩
  cases c with
  | requires => exact dict_item_eq hedges edgeClass_keys edgeClass_keys (.head _) (.head _)
  | covers => exact dict_item_eq hedges edgeClass_keys edgeClass_keys (.tail _ (.head _)) (.tail _ (.head _))
  | mitigatedBy =>
    exact dict_item_eq hedges edgeClass_keys edgeClass_keys (.tail _ (.tail _ (.head _))) (.tail _ (.tail _ (.head _)))

/-! ## What the group is built from -/

/-- What a plan takes from its state. -/
structure Planned (sha256 : Bytes → String) (state : CapabilitySplitState) (plan : CapabilitySplitPlan)
    (a : CapabilityNodeState) (source : SplitHolder) : Prop where
  terminal : state.terminal = some a
  holder : sourceHolder state.holders = some source
  minted : plan.minted = source.node
  xId : plan.preview.xId = state.xId
  aId : plan.preview.aId = a.id
  edges : plan.preview.edges = splitEdgeSet state a.id
  digest : plan.stateDigest = canonicalDigest sha256 (splitDigestPayload sha256 state)

theorem validateSplit_ok {state : CapabilitySplitState} {a : CapabilityNodeState} {resolvesTo : String}
    (h : validateSplit state = .ok (a, resolvesTo)) : state.terminal = some a := by
  unfold validateSplit at h
  split at h
  · cases h
  · split at h
    · cases h
    · split at h
      · split at h
        · cases h
        · rename_i hterminal
          split at h
          · cases h
          · split at h
            · cases h
            · cases h
              exact hterminal
      · cases h

theorem planned_of_ok {sha256 : Bytes → String} {state : CapabilitySplitState} {plan : CapabilitySplitPlan}
    (h : planCapabilitySplit sha256 state = .ok plan) : ∃ a source, Planned sha256 state plan a source := by
  unfold planCapabilitySplit at h
  cases hvalid : validateSplit state with
  | error e =>
    rw [hvalid] at h
    cases h
  | ok result =>
    obtain ⟨a, resolvesTo⟩ := result
    have hterminal := validateSplit_ok hvalid
    cases hsource : sourceHolder state.holders with
    | none =>
      rw [hvalid, hsource] at h
      cases h
    | some source =>
      rw [hvalid, hsource] at h
      cases h
      exact ⟨a, source, hterminal, hsource, rfl, rfl, rfl, rfl, rfl⟩

/-- Two embeddings whose NaNs are the same NaNs. -/
def SameNaNs : Option Embedding → Option Embedding → Prop
  | some e, some f => ∀ p ∈ e.zip f, p.1.isNaN = true → p.2.isNaN = true → p.1 = p.2
  | _, _ => True

/-- X as the source baseline holds it. -/
def sourceNode (state : CapabilitySplitState) : Option BaselineCapability :=
  (sourceHolder state.holders).map SplitHolder.node

/-- The two states agree on what the digest leaves out of X. -/
structure SameUnsigned (s t : CapabilitySplitState) : Prop where
  confidence : (sourceNode s).bind BaselineCapability.confidence = (sourceNode t).bind BaselineCapability.confidence
  description : (sourceNode s).bind BaselineCapability.description = (sourceNode t).bind BaselineCapability.description
  nans : SameNaNs ((sourceNode s).bind BaselineCapability.embedding) ((sourceNode t).bind BaselineCapability.embedding)

theorem Planned.sourceNode_eq {sha256 : Bytes → String} {state : CapabilitySplitState} {plan : CapabilitySplitPlan}
    {a : CapabilityNodeState} {source : SplitHolder} (h : Planned sha256 state plan a source) :
    sourceNode state = some source.node := by
  rw [sourceNode, h.holder]
  rfl

theorem eq_of_sameTexts {e f : Embedding} (h : SameTexts e f)
    (hnans : ∀ p ∈ e.zip f, p.1.isNaN = true → p.2.isNaN = true → p.1 = p.2) : e = f := by
  unfold SameTexts at h
  induction h with
  | nil => rfl
  | @cons a b xs ys hab _ ih =>
    have hhead : a = b := by
      rcases floatText_injective hab with heq | ⟨ha, hb⟩
      · exact heq
      · exact hnans (a, b) (by simp) ha hb
    have htail := ih fun p hp => hnans p (by simp [hp])
    rw [hhead, htail]

/-- The texts hashed for the digest of a state. -/
def hashedTexts (sha256 : Bytes → String) (state : CapabilitySplitState) : Set Bytes :=
  {text | text = canonicalText (splitDigestPayload sha256 state) ∨ ∃ source embedding,
    sourceHolder state.holders = some source ∧ source.node.embedding = some embedding ∧
      text = (String.ofList (embeddingText embedding)).toUTF8.data.toList}

section

variable {sha256 : Bytes → String} {s t : CapabilitySplitState} {p q : CapabilitySplitPlan} {a b : CapabilityNodeState}
  {x y : SplitHolder}

/-- Equal embedding digests, equal embeddings up to their NaNs. -/
theorem embedding_eq_of_digest (hfree : Set.InjOn sha256 (hashedTexts sha256 s ∪ hashedTexts sha256 t))
    (hx : sourceHolder s.holders = some x) (hy : sourceHolder t.holders = some y)
    (h : x.node.embedding.map (embeddingDigest sha256) = y.node.embedding.map (embeddingDigest sha256))
    (hnans : SameNaNs x.node.embedding y.node.embedding) : x.node.embedding = y.node.embedding := by
  cases hex : x.node.embedding with
  | none =>
    rw [hex] at h
    cases hey : y.node.embedding with
    | none => rfl
    | some f =>
      rw [hey] at h
      cases h
  | some e =>
    cases hey : y.node.embedding with
    | none =>
      rw [hex, hey] at h
      cases h
    | some f =>
      rw [hex, hey] at h hnans
      have htext := hfree (.inl (.inr ⟨x, e, hx, hex, rfl⟩)) (.inr (.inr ⟨y, f, hy, hey, rfl⟩)) (Option.some.inj h)
      rw [eq_of_sameTexts (embeddingText_injective (ofList_utf8_injective htext)) hnans]

/-- **The digest fixes the group's inputs**, the unsigned ones apart. -/
theorem planned_of_digest (hp : Planned sha256 s p a x) (hq : Planned sha256 t q b y)
    (hfree : Set.InjOn sha256 (hashedTexts sha256 s ∪ hashedTexts sha256 t)) (h : p.stateDigest = q.stateDigest) :
    SameSigned sha256 s t := by
  rw [hp.digest, hq.digest] at h
  exact sameSigned_of_payload (canonicalDigest_injective hfree (sound_splitDigestPayload sha256 s)
    (sound_splitDigestPayload sha256 t) (.inl (.inl rfl)) (.inr (.inl rfl)) h)

/-- Equal signed inputs and equal unsigned ones, equal primitives. -/
theorem splitPrimitives_eq (hp : Planned sha256 s p a x) (hq : Planned sha256 t q b y)
    (hfree : Set.InjOn sha256 (hashedTexts sha256 s ∪ hashedTexts sha256 t)) (hsigned : SameSigned sha256 s t)
    (hunsigned : SameUnsigned s t) (createdAt : String) : splitPrimitives p createdAt = splitPrimitives q createdAt := by
  have haId : a.id = b.id := by
    have hlast := hsigned.aId
    rw [s.terminal_last a hp.terminal, t.terminal_last b hq.terminal] at hlast
    exact Option.some.inj hlast
  have hname : x.node.name = y.node.name := by
    have := hsigned.name
    rw [hp.holder, hq.holder] at this
    exact Option.some.inj this
  obtain ⟨hconfidence, hdescription, hnans⟩ := hunsigned
  simp only [hp.sourceNode_eq, hq.sourceNode_eq, Option.bind_some] at hconfidence hdescription hnans
  have hembedding : x.node.embedding = y.node.embedding := by
    have hdigest := hsigned.embedding
    rw [hp.holder, hq.holder] at hdigest
    exact embedding_eq_of_digest hfree hp.holder hq.holder hdigest hnans
  -- the sets a source falls into are functions of the signed ones
  have hsets : ∀ c, (splitEdgeSet s a.id c).moves = (splitEdgeSet t b.id c).moves ∧
      (splitEdgeSet s a.id c).shared = (splitEdgeSet t b.id c).shared ∧
      (splitEdgeSet s a.id c).added = (splitEdgeSet t b.id c).added := by
    intro c
    have hview := hsigned.edges c
    rw [← hsigned.aId, s.terminal_last a hp.terminal] at hview
    obtain ⟨hheld, hboth, hcurrent⟩ := edgesPayload_injective hview
    have hmoves : moves s a.id c = moves t b.id c := by
      have hdiff : ∀ (state : CapabilitySplitState) (id : String), moves state id c =
          ((heldOf state c).heldX ∩ current state c id) \ ((heldOf state c).heldA ∩ (heldOf state c).heldX) := by
        intro state id
        ext source
        simp only [moves, Finset.mem_sdiff, Finset.mem_inter]
        tauto
      rw [hdiff, hdiff, hboth, hheld, hcurrent, haId]
    have hshared : (heldOf s c).heldX ∩ current s c a.id ∩ (heldOf s c).heldA =
        (heldOf t c).heldX ∩ current t c b.id ∩ (heldOf t c).heldA := by
      have hinter : ∀ (state : CapabilitySplitState) (id : String),
          (heldOf state c).heldX ∩ current state c id ∩ (heldOf state c).heldA =
            current state c id ∩ ((heldOf state c).heldA ∩ (heldOf state c).heldX) := by
        intro state id
        ext source
        simp only [Finset.mem_inter]
        tauto
      rw [hinter, hinter, hboth, hcurrent, haId]
    have hadded : (heldOf s c).heldX \ current s c a.id = (heldOf t c).heldX \ current t c b.id := by
      rw [hheld, hcurrent, haId]
    exact ⟨congrArg sortedIds hmoves, congrArg sortedIds hshared, congrArg sortedIds hadded⟩
  have hproperties : mintedProperties x.node createdAt = mintedProperties y.node createdAt := by
    simp only [mintedProperties, hname, hconfidence, hdescription]
  have hadds : ∀ c, (p.preview.edges c).moves ++ (p.preview.edges c).shared ++ (p.preview.edges c).added =
      (q.preview.edges c).moves ++ (q.preview.edges c).shared ++ (q.preview.edges c).added := by
    intro c
    obtain ⟨h1, h2, h3⟩ := hsets c
    rw [hp.edges, hq.edges, h1, h2, h3]
  have hmoved : ∀ c, (p.preview.edges c).moves = (q.preview.edges c).moves := by
    intro c
    rw [hp.edges, hq.edges, (hsets c).1]
  simp only [splitPrimitives, hadds]
  simp only [hmoved, hp.minted, hq.minted, hp.xId, hq.xId, hp.aId, hq.aId, hsigned.xId, haId, hproperties, hembedding]

end

/-- What the minted node's map holds. -/
theorem mintedProperties_get {minted : BaselineCapability} {createdAt : String} {reserved : List String} {map : PropertyMap}
    (h : validatePropertyMap (mintedProperties minted createdAt) reserved = .ok map) :
    map["confidence"]? = minted.confidence.map (fun d => .scalar (.float d)) ∧
      map["description"]? = minted.description.map text := by
  obtain ⟨-, rfl⟩ := validatePropertyMap_ok h
  have hitems : (mintedProperties minted createdAt).filterMap (fun item => item.2.toPropertyValue.map fun v => (item.1, v)) =
      [("name", text minted.name), ("created_at", text createdAt)] ++
        (minted.confidence.map fun d => ("confidence", PropertyValue.scalar (.float d))).toList ++
        (minted.description.map fun s => ("description", text s)).toList := by
    unfold mintedProperties
    cases minted.confidence <;> cases minted.description <;> rfl
  rw [hitems]
  rw [getElem?_ofList, getElem?_ofList]
  · cases minted.confidence <;> cases minted.description <;> simp
  all_goals cases minted.confidence <;> cases minted.description <;> simp

/-- **A split approval binds the edit, confidence and description apart.** For two states that both plan and whose
digests are equal, collisions apart: the groups built from them are equal if and only if the source baselines hold
X with the same confidence and description (and the same NaNs in its embedding). -/
theorem split_groups_equal_iff {sha256 : Bytes → String} {s t : CapabilitySplitState} {p q : CapabilitySplitPlan}
    {createdAt : String} {g h : List Primitive} (hs : planCapabilitySplit sha256 s = .ok p)
    (ht : planCapabilitySplit sha256 t = .ok q) (hfree : Set.InjOn sha256 (hashedTexts sha256 s ∪ hashedTexts sha256 t))
    (hdigest : p.stateDigest = q.stateDigest) (hg : buildCapabilitySplitGroup p createdAt = some g)
    (hh : buildCapabilitySplitGroup q createdAt = some h) : g = h ↔ SameUnsigned s t := by
  obtain ⟨a, x, hp⟩ := planned_of_ok hs
  obtain ⟨b, y, hq⟩ := planned_of_ok ht
  have hsigned := planned_of_digest hp hq hfree hdigest
  constructor
  · rintro rfl
    -- the first primitives are the minted nodes
    simp only [buildCapabilitySplitGroup, splitPrimitives, List.cons_append, List.nil_append, List.mapM_cons,
      Option.bind_eq_bind, Option.bind_eq_some_iff] at hg hh
    obtain ⟨first, hfirst, rest, -, heq⟩ := hg
    obtain ⟨first', hfirst', rest', -, heq'⟩ := hh
    rw [← heq'] at heq
    obtain ⟨rfl, -⟩ := List.cons.inj (Option.some.inj heq)
    obtain ⟨map, hmap, hnode⟩ := accept_upsertNode hfirst
    obtain ⟨map', hmap', hnode'⟩ := accept_upsertNode hfirst'
    rw [hnode] at hnode'
    injection hnode' with _ hmaps hembeddings
    obtain ⟨hconf, hdesc⟩ := mintedProperties_get hmap
    obtain ⟨hconf', hdesc'⟩ := mintedProperties_get hmap'
    rw [← hmaps] at hconf' hdesc'
    rw [hconf] at hconf'
    rw [hdesc] at hdesc'
    rw [hp.minted] at hconf' hdesc' hembeddings
    rw [hq.minted] at hconf' hdesc' hembeddings
    refine ⟨?_, ?_, ?_⟩ <;> simp only [hp.sourceNode_eq, hq.sourceNode_eq, Option.bind_some]
    · refine Option.map_injective (fun d e hde => ?_) hconf'
      injection hde with hde
      injection hde
    · refine Option.map_injective (fun d e hde => ?_) hdesc'
      injection hde with hde
      injection hde
    · rw [← hembeddings]
      cases x.node.embedding with
      | none => trivial
      | some e =>
        intro pair hpair _ _
        obtain ⟨i, hi, rfl⟩ := List.mem_iff_getElem.1 hpair
        simp
  · intro hsame
    have hprimitives := splitPrimitives_eq hp hq hfree hsigned hsame createdAt
    unfold buildCapabilitySplitGroup at hg hh
    rw [hprimitives, hh] at hg
    exact (Option.some.inj hg).symm

/-- X resolved to A, with one obligation that moves: A named `aName`, X held with this confidence. -/
def resolvedState (aName : String) (confidence : Option Double) : CapabilitySplitState where
  xId := "x"
  xMarkerLabel := some .resolved
  markerResolvesTo := some "a"
  chain := ["x", "a"]
  xIsCapability := false
  terminal := some ⟨"a", aName, "active", ∅⟩
  terminalPolicies := []
  terminalEdges := [⟨"REQUIRES", "Obligation", "o", "Capability", "a"⟩]
  holders := [⟨"gdpr_baseline", { id := "x", name := "X", confidence }, ["gdpr"]⟩]
  held
    | .requires => some ⟨{"o"}, ∅, ∅⟩
    | _ => none
  terminal_last a h := by
    cases h
    rfl

/-- The name of A and the confidence are no part of the digest's payload. -/
theorem payload_resolvedState (sha256 : Bytes → String) (aName : String) (confidence : Option Double) :
    splitDigestPayload sha256 (resolvedState aName confidence) =
      splitDigestPayload (fun _ => "") (resolvedState "A" none) := rfl

theorem hashedTexts_resolvedState (sha256 : Bytes → String) (aName : String) (confidence : Option Double) :
    ∀ text ∈ hashedTexts sha256 (resolvedState aName confidence),
      text = canonicalText (splitDigestPayload (fun _ => "") (resolvedState "A" none)) := by
  intro text htext
  simp only [hashedTexts, Set.mem_setOf_eq] at htext
  rcases htext with htext | ⟨source, embedding, hsource, hembedding, -⟩
  · rw [htext, payload_resolvedState]
  · have hholder : sourceHolder (resolvedState aName confidence).holders =
        some ⟨"gdpr_baseline", { id := "x", name := "X", confidence }, ["gdpr"]⟩ := rfl
    rw [hholder] at hsource
    rw [← Option.some.inj hsource] at hembedding
    cases hembedding

theorem splitEdgeSet_resolvedState (aName : String) (confidence : Option Double) (c : EdgeClass) :
    splitEdgeSet (resolvedState aName confidence) "a" c =
      if c = .requires then ⟨["o"], [], [], []⟩ else ⟨[], [], [], []⟩ := by
  cases c <;> simp [splitEdgeSet, moves, current, heldOf, resolvedState, EdgeClass.relType, sortedIds]

/-- The group of such a state: X minted, its edge moved, the marker deleted. -/
theorem resolvedState_plans (sha256 : Bytes → String) (aName : String) (confidence : Option Double) :
    ∃ p, planCapabilitySplit sha256 (resolvedState aName confidence) = .ok p ∧
      p.minted = { id := "x", name := "X", confidence } ∧ p.preview.aName = aName ∧
      p.stateDigest = canonicalDigest sha256 (splitDigestPayload (fun _ => "") (resolvedState "A" none)) ∧
      splitPrimitives p "2026-01-01T00:00:00Z" =
        [.upsertNode "Capability" "x" (mintedProperties { id := "x", name := "X", confidence } "2026-01-01T00:00:00Z") none,
          .upsertEdge (classRawEdge .requires "o" "x") [], .deleteEdge (classRawEdge .requires "o" "a"),
          .deleteNode "ResolvedCapability" "x"] := by
  refine ⟨_, rfl, rfl, rfl, rfl, ?_⟩
  simp only [splitPrimitives, splitEdgeSet_resolvedState]
  rfl

/-- A renamed since the preview. -/
theorem split_groups_equal_iff_renamed :
    ∃ (sha256 : Bytes → String) (p q : CapabilitySplitPlan) (g h : List Primitive),
      planCapabilitySplit sha256 (resolvedState "A" none) = .ok p ∧
      planCapabilitySplit sha256 (resolvedState "B" none) = .ok q ∧ p.preview.aName ≠ q.preview.aName ∧
      p.stateDigest = q.stateDigest ∧
      buildCapabilitySplitGroup p "2026-01-01T00:00:00Z" = some g ∧
      buildCapabilitySplitGroup q "2026-01-01T00:00:00Z" = some h ∧ g = h := by
  let sha256 : Bytes → String := fun body =>
    if body = canonicalText (splitDigestPayload (fun _ => "") (resolvedState "A" none)) then
      "1e5bc62f1170ca608dade252e76091e6a94bfcd7da89121170b9b73dfd2161a3"
    else ""
  obtain ⟨p, hp, hpm, hpn, hpd, hpg⟩ := resolvedState_plans sha256 "A" none
  obtain ⟨q, hq, hqm, hqn, hqd, hqg⟩ := resolvedState_plans sha256 "B" none
  have hsome : (List.mapM RawPrimitive.accept
      [.upsertNode "Capability" "x" (mintedProperties { id := "x", name := "X" } "2026-01-01T00:00:00Z") none,
        .upsertEdge (classRawEdge .requires "o" "x") [], .deleteEdge (classRawEdge .requires "o" "a"),
        .deleteNode "ResolvedCapability" "x"]).isSome = true := by decide +kernel
  obtain ⟨g, hg⟩ := Option.isSome_iff_exists.1 hsome
  have hbuildp : buildCapabilitySplitGroup p "2026-01-01T00:00:00Z" = some g := by rw [buildCapabilitySplitGroup, hpg, hg]
  have hbuildq : buildCapabilitySplitGroup q "2026-01-01T00:00:00Z" = some g := by rw [buildCapabilitySplitGroup, hqg, hg]
  -- one text is hashed
  have hfree : Set.InjOn sha256 (hashedTexts sha256 (resolvedState "A" none) ∪ hashedTexts sha256 (resolvedState "B" none)) := by
    have hone : ∀ text ∈ hashedTexts sha256 (resolvedState "A" none) ∪ hashedTexts sha256 (resolvedState "B" none),
        text = canonicalText (splitDigestPayload (fun _ => "") (resolvedState "A" none)) := by
      rintro text (h | h)
      · exact hashedTexts_resolvedState _ _ _ text h
      · exact hashedTexts_resolvedState _ _ _ text h
    intro x hx y hy _
    rw [hone x hx, hone y hy]
  have hdigest : p.stateDigest = q.stateDigest := hpd.trans hqd.symm
  refine ⟨sha256, p, q, g, g, hp, hq, by rw [hpn, hqn]; decide, hdigest, hbuildp, hbuildq, ?_⟩
  exact (split_groups_equal_iff hp hq hfree hdigest hbuildp hbuildq).2 ⟨rfl, rfl, trivial⟩

/-- **The confidence is not signed.** X's confidence changes in the baseline after the preview: under every hash
the digests agree, and the groups do not. -/
theorem confidence_rides_on_approval :
    ∃ g h : List Primitive, g ≠ h ∧ ∀ sha256 : Bytes → String, ∃ p q : CapabilitySplitPlan,
      planCapabilitySplit sha256 (resolvedState "A" (some ⟨0x3FE0000000000000⟩)) = .ok p ∧
      planCapabilitySplit sha256 (resolvedState "A" none) = .ok q ∧ p.stateDigest = q.stateDigest ∧
      buildCapabilitySplitGroup p "2026-01-01T00:00:00Z" = some g ∧
      buildCapabilitySplitGroup q "2026-01-01T00:00:00Z" = some h := by
  have hdiffer : ∃ g h, List.mapM RawPrimitive.accept
      [.upsertNode "Capability" "x" (mintedProperties { id := "x", name := "X", confidence := some ⟨0x3FE0000000000000⟩ }
          "2026-01-01T00:00:00Z") none,
        .upsertEdge (classRawEdge .requires "o" "x") [], .deleteEdge (classRawEdge .requires "o" "a"),
        .deleteNode "ResolvedCapability" "x"] = some g ∧
      List.mapM RawPrimitive.accept
      [.upsertNode "Capability" "x" (mintedProperties { id := "x", name := "X" } "2026-01-01T00:00:00Z") none,
        .upsertEdge (classRawEdge .requires "o" "x") [], .deleteEdge (classRawEdge .requires "o" "a"),
        .deleteNode "ResolvedCapability" "x"] = some h ∧ g ≠ h := by
    refine ⟨_, _, (Option.some_get (by decide +kernel)).symm, (Option.some_get (by decide +kernel)).symm, ?_⟩
    decide +kernel
  obtain ⟨g, h, hg, hh, hne⟩ := hdiffer
  refine ⟨g, h, hne, fun sha256 => ?_⟩
  obtain ⟨p, hp, -, -, hpd, hpg⟩ := resolvedState_plans sha256 "A" (some ⟨0x3FE0000000000000⟩)
  obtain ⟨q, hq, -, -, hqd, hqg⟩ := resolvedState_plans sha256 "A" none
  refine ⟨p, q, hp, hq, hpd.trans hqd.symm, ?_, ?_⟩
  · rw [buildCapabilitySplitGroup, hpg, hg]
  · rw [buildCapabilitySplitGroup, hqg, hh]

end PolicySystem
