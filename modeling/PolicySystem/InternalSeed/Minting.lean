import PolicySystem.DomainMapper.WellFormed
import PolicySystem.InternalSeed.Seed

/-!
# Canonical ids of a seed

Every node of a document but the instrument is stored under an id minted from what it says and from the id of the node
it belongs to (`_mint_canonical_ids`, `internal_seed/persist.py`).

* `mint_resolves`: every node of a document that was accepted and minted has its id, by its label's formula;
* `same_id_iff`: which nodes share an id;
* `minted_structure`: **nodes meet exactly where their ids derive from the same**, and what belongs to one node still
  does.
-/

namespace PolicySystem.InternalSeed

open Std (ExtTreeMap)
open DomainMapper PolicyLifecycle

/-! ## Formulas -/

/-- `practice_area_id`. -/
def practiceAreaId (h : Hashing) (name : String) : String := "pa_" ++ h.slug name ++ "_" ++ h.hash (h.lower name)

/-- `risk_path_id`. -/
def riskPathId (h : Hashing) (name : String) : String := "rp_" ++ h.slug name ++ "_" ++ h.hash (h.lower name)

/-- `_requirement_id` of an internal source. -/
def sourceRequirementId (h : Hashing) (regulatoryInstrumentId sourceRef : String) : String :=
  regulatoryInstrumentId ++ "_req_" ++ h.slug sourceRef

/-! ## Minting -/

/-- `_require_str_property`. -/
def requireStrProperty (n : SeedNode) (key : String) : Except SeedError String :=
  match n.properties[key]? with
  | some (.text s) => if s = "" then .error (.missingProperty n.label n.id key) else .ok s
  | _ => .error (.missingProperty n.label n.id key)

/-- `found[key]`. -/
def lookup (found : Dict) (key : String) : Except SeedError String :=
  match found[key]? with
  | some value => .ok value
  | none => .error .keyError

/-- `_CanonicalIds`. -/
structure CanonicalIds where
  regulatoryInstrumentId : String
  role : Dict
  requirement : Dict
  obligation : Dict
  capability : Dict
  policy : Dict
  standard : Dict
  control : Dict
  practiceArea : Dict
  riskPath : Dict

/-- The map of a label. -/
def CanonicalIds.byLabel (ids : CanonicalIds) : NodeLabel → Dict
  | .regulatoryInstrument => ∅
  | .role => ids.role
  | .requirement => ids.requirement
  | .obligation => ids.obligation
  | .capability => ids.capability
  | .policy => ids.policy
  | .standard => ids.standard
  | .control => ids.control
  | .practiceArea => ids.practiceArea
  | .riskPath => ids.riskPath

/-- `_CanonicalIds.resolve`; nothing is its `KeyError`. -/
def CanonicalIds.resolve (ids : CanonicalIds) (ref : SeedRef) : Option String :=
  if ref.label = .regulatoryInstrument then some ids.regulatoryInstrumentId else (ids.byLabel ref.label)[ref.id]?

section Mint

variable (h : Hashing) (seed : Seed) (index : SeedIndex)

/-- The nodes of a label, each under its local id with what is minted for it. -/
def mintIds (label : NodeLabel) (mint : SeedNode → Except SeedError String) : Except SeedError Dict :=
  (seed.nodes.filter fun n => n.label = label).foldlM
    (fun found n => do return found.insert n.id (← mint n)) ∅

/-- `_mint_role_ids`. -/
def mintRoleIds (regulatoryInstrumentId : String) : Except SeedError Dict :=
  mintIds seed .role fun n => do return roleId h (← requireStrProperty n "name") regulatoryInstrumentId

/-- `_mint_capability_ids`. -/
def mintCapabilityIds : Except SeedError Dict :=
  mintIds seed .capability fun n => do return capabilityId h (← requireStrProperty n "name")

/-- `_mint_practice_area_ids`. -/
def mintPracticeAreaIds : Except SeedError Dict :=
  mintIds seed .practiceArea fun n => do return practiceAreaId h (← requireStrProperty n "name")

/-- `_mint_risk_path_ids`. -/
def mintRiskPathIds : Except SeedError Dict :=
  mintIds seed .riskPath fun n => do return riskPathId h (← requireStrProperty n "name")

/-- `_mint_policy_ids`. -/
def mintPolicyIds : Except SeedError Dict :=
  mintIds seed .policy fun n => do return h.policyId (← requireStrProperty n "title") none

/-- What is minted under the id of the node an index gives. -/
def mintUnder (owners ownerIds : Dict) (key : String) (mint : String → String → String) (n : SeedNode) :
    Except SeedError String := do
  let ownerLocalId ← lookup owners n.id
  let ownerCanonicalId ← lookup ownerIds ownerLocalId
  return mint ownerCanonicalId (← requireStrProperty n key)

/-- `_mint_standard_ids`. -/
def mintStandardIds (policy : Dict) : Except SeedError Dict :=
  mintIds seed .standard (mintUnder index.standardSupporter policy "title" h.standardId)

/-- `_mint_control_ids`. -/
def mintControlIds (standard : Dict) : Except SeedError Dict :=
  mintIds seed .control (mintUnder index.controlImplementer standard "title" h.controlId)

/-- `_mint_obligation_ids`. -/
def mintObligationIds (role : Dict) : Except SeedError Dict :=
  mintIds seed .obligation (mintUnder index.obligationBearer role "text" (obligationId h))

/-- `_mint_requirement_ids`. -/
def mintRequirementIds (regulatoryInstrumentId : String) : Except SeedError Dict :=
  mintIds seed .requirement fun n => do
    return sourceRequirementId h regulatoryInstrumentId (← lookup index.requirementSourceRef n.id)

/-- `_mint_canonical_ids`. -/
def mintCanonicalIds : Except SeedError CanonicalIds := do
  let regulatoryInstrumentId := index.regulatoryInstrument.id
  let role ← mintRoleIds h seed regulatoryInstrumentId
  let policy ← mintPolicyIds h seed
  let standard ← mintStandardIds h seed index policy
  let requirement ← mintRequirementIds h seed index regulatoryInstrumentId
  let obligation ← mintObligationIds h seed index role
  let capability ← mintCapabilityIds h seed
  let control ← mintControlIds h seed index standard
  let practiceArea ← mintPracticeAreaIds h seed
  let riskPath ← mintRiskPathIds h seed
  return ⟨regulatoryInstrumentId, role, requirement, obligation, capability, policy, standard, control, practiceArea,
    riskPath⟩

end Mint

/-! ## What an id derives from -/

/-- The edge type that ties the nodes of a label to the node their ids are scoped by. -/
def NodeLabel.scopedBy : NodeLabel → Option EdgeType
  | obligation => some .has
  | standard => some .supportedBy
  | control => some .implementedBy
  | _ => none

/-- The property the ids of a label are minted from. -/
def NodeLabel.namingKey : NodeLabel → String
  | policy | standard | control => "title"
  | obligation => "text"
  | _ => "name"

/-- The id of a node of a label, minted from a text under the id of another node. -/
def mintedId (h : Hashing) (regulatoryInstrumentId : String) (label : NodeLabel) (owner text : String) : String :=
  match label with
  | .regulatoryInstrument => regulatoryInstrumentId
  | .role => roleId h text regulatoryInstrumentId
  | .requirement => sourceRequirementId h regulatoryInstrumentId text
  | .obligation => obligationId h owner text
  | .capability => capabilityId h text
  | .policy => h.policyId text none
  | .standard => h.standardId owner text
  | .control => h.controlId owner text
  | .practiceArea => practiceAreaId h text
  | .riskPath => riskPathId h text

/-- What counts of the text an id is minted from: its lower case, of a source reference its slug. -/
def countsOf (h : Hashing) (label : NodeLabel) (text : String) : String :=
  match label with
  | .regulatoryInstrument => ""
  | .requirement => h.slug text
  | _ => h.lower text

/-- The text the id of a node is minted from. -/
def Seed.ownText (seed : Seed) (n : SeedNode) : Option String :=
  match n.label with
  | .regulatoryInstrument => some ""
  | .requirement => (seed.edgesWith .expresses toId n.id).head?.map sourceRef
  | label => (requireStrProperty n label.namingKey).toOption

/-- An edge of a type ties one node to another. -/
def Seed.Owns (seed : Seed) (t : EdgeType) (p n : SeedNode) : Prop :=
  p ∈ seed.nodes ∧ ∃ e ∈ seed.edges, e.type = t ∧ e.source = p.ref ∧ e.target = n.ref

/-- **The ids of two nodes derive from the same**: from one text, up to what counts of it, and under nodes of which that
is true again. -/
inductive SameIdentity (h : Hashing) (seed : Seed) : SeedNode → SeedNode → Prop where
  | own {n m : SeedNode} (hlabel : n.label = m.label) (hscoped : n.label.scopedBy = none)
      (htext : (seed.ownText n).map (countsOf h n.label) = (seed.ownText m).map (countsOf h m.label)) :
      SameIdentity h seed n m
  | under {n m p q : SeedNode} {t : EdgeType} (hlabel : n.label = m.label) (hscoped : n.label.scopedBy = some t)
      (htext : (seed.ownText n).map (countsOf h n.label) = (seed.ownText m).map (countsOf h m.label))
      (hp : seed.Owns t p n) (hq : seed.Owns t q m) (howners : SameIdentity h seed p q) : SameIdentity h seed n m

/-! ## Formulas tell what they are given -/

section Formulas

variable {h : Hashing} {rid : String}

/-- An id tells the text it is hashed from. -/
theorem tagged_input (hash : IdHash h) {tag a b x y : String}
    (heq : tag ++ h.slug a ++ "_" ++ h.hash x = tag ++ h.slug b ++ "_" ++ h.hash y) : x = y := by
  have hchars := congrArg String.toList heq
  simp only [String.toList_append] at hchars
  have hjoin : (tag.toList ++ (h.slug a).toList) ++ '_' :: (h.hash x).toList =
      (tag.toList ++ (h.slug b).toList) ++ '_' :: (h.hash y).toList := by
    simpa using hchars
  have hhash := ((Text.join_inj (hash.noUnderscore _) (hash.noUnderscore _)).1 hjoin).2
  exact hash.injective _ _ (String.toList_inj.1 hhash)

/-- Without a colon in it, what stands before the first colon is told. -/
theorem scoped_input {owner owner' s s' : String} (ho : ':' ∉ owner.toList) (ho' : ':' ∉ owner'.toList)
    (heq : owner ++ ":" ++ s = owner' ++ ":" ++ s') : owner = owner' ∧ s = s' := by
  have hchars := congrArg String.toList heq
  simp only [String.toList_append] at hchars
  have hjoin : owner.toList ++ ':' :: s.toList = owner'.toList ++ ':' :: s'.toList := by
    simpa using hchars
  obtain ⟨hfirst, hrest⟩ := (Text.join_inj_first ho ho').1 hjoin
  exact ⟨String.toList_inj.1 hfirst, String.toList_inj.1 hrest⟩

theorem slug_congr {a b : String} (heq : h.lower a = h.lower b) : h.slug a = h.slug b := by
  unfold Hashing.slug
  rw [heq]

/-- An id under another one tells it, and its text up to case. -/
theorem tagged_scoped_iff (hash : IdHash h) {tag owner owner' a b : String} (ho : ':' ∉ owner.toList)
    (ho' : ':' ∉ owner'.toList) :
    tag ++ h.slug a ++ "_" ++ h.hash (owner ++ ":" ++ h.lower a) =
      tag ++ h.slug b ++ "_" ++ h.hash (owner' ++ ":" ++ h.lower b) ↔ owner = owner' ∧ h.lower a = h.lower b := by
  constructor
  · exact fun heq => scoped_input ho ho' (tagged_input hash heq)
  · rintro ⟨rfl, hlower⟩
    rw [slug_congr hlower, hlower]

theorem tagged_iff (hash : IdHash h) {tag a b : String} :
    tag ++ h.slug a ++ "_" ++ h.hash (h.lower a) = tag ++ h.slug b ++ "_" ++ h.hash (h.lower b) ↔
      h.lower a = h.lower b := by
  constructor
  · exact fun heq => tagged_input hash heq
  · intro hlower
    rw [slug_congr hlower, hlower]

/-- **One formula gives one id exactly to the same texts under the same ids.** -/
theorem mintedId_eq_iff (hash : IdHash h) {label : NodeLabel} {owner owner' text text' : String}
    (ho : ':' ∉ owner.toList) (ho' : ':' ∉ owner'.toList) :
    mintedId h rid label owner text = mintedId h rid label owner' text' ↔
      (label.scopedBy ≠ none → owner = owner') ∧ countsOf h label text = countsOf h label text' := by
  cases label with
  | regulatoryInstrument => simp [mintedId, countsOf, NodeLabel.scopedBy]
  | role =>
    have hinput : roleId h text rid = roleId h text' rid ↔ h.lower text = h.lower text' := by
      constructor
      · intro heq
        have hsame := congrArg String.toList (tagged_input hash heq)
        simp only [String.toList_append] at hsame
        exact String.toList_inj.1 (List.append_cancel_left hsame)
      · intro hlower
        unfold roleId
        rw [slug_congr hlower, hlower]
    simpa [mintedId, countsOf, NodeLabel.scopedBy] using hinput
  | requirement =>
    have hslug : sourceRequirementId h rid text = sourceRequirementId h rid text' ↔ h.slug text = h.slug text' := by
      unfold sourceRequirementId
      constructor
      · intro heq
        have hchars := congrArg String.toList heq
        simp only [String.toList_append] at hchars
        exact String.toList_inj.1 (List.append_cancel_left hchars)
      · intro heq
        rw [heq]
    simpa [mintedId, countsOf, NodeLabel.scopedBy] using hslug
  | obligation => simpa [mintedId, countsOf, NodeLabel.scopedBy, obligationId] using tagged_scoped_iff hash ho ho'
  | standard => simpa [mintedId, countsOf, NodeLabel.scopedBy, Hashing.standardId] using tagged_scoped_iff hash ho ho'
  | control => simpa [mintedId, countsOf, NodeLabel.scopedBy, Hashing.controlId] using tagged_scoped_iff hash ho ho'
  | capability => simpa [mintedId, countsOf, NodeLabel.scopedBy, capabilityId] using tagged_iff hash
  | policy => simpa [mintedId, countsOf, NodeLabel.scopedBy, Hashing.policyId] using tagged_iff hash
  | practiceArea => simpa [mintedId, countsOf, NodeLabel.scopedBy, practiceAreaId] using tagged_iff hash
  | riskPath => simpa [mintedId, countsOf, NodeLabel.scopedBy, riskPathId] using tagged_iff hash

theorem colon_not_mem_tagged (hash : IdHash h) {tag text x : String} (htag : ':' ∉ tag.toList) :
    ':' ∉ (tag ++ h.slug text ++ "_" ++ h.hash x).toList := by
  simp only [String.toList_append, List.mem_append, not_or]
  exact ⟨⟨⟨htag, colon_not_mem_slug text⟩, by decide⟩, hash.noColon _⟩

end Formulas

/-! ## Every node has its id -/

section Mint

variable {h : Hashing} {seed : Seed} {index : SeedIndex} {ids : CanonicalIds} {label : NodeLabel}
  {mint : SeedNode → Except SeedError String} {found : Dict}

/-- Each node of a label is entered once. -/
theorem mintIds_get (hminted : mintIds seed label mint = .ok found) (hnodup : (seed.nodes.map SeedNode.ref).Nodup)
    {n : SeedNode} (hn : n ∈ seed.nodes) (hlabel : n.label = label) :
    ∃ id, mint n = .ok id ∧ found[n.id]? = some id := by
  have hfold : ∀ (nodes : List SeedNode) (start found : Dict), (nodes.map SeedNode.id).Nodup →
      nodes.foldlM (fun found n => do return found.insert n.id (← mint n)) start = .ok found →
      (∀ n ∈ nodes, ∃ id, mint n = .ok id ∧ found[n.id]? = some id) ∧
        ∀ k, k ∉ nodes.map SeedNode.id → found[k]? = start[k]? := by
    intro nodes
    induction nodes with
    | nil =>
      intro start found _ hok
      cases hok
      simp
    | cons m nodes ih =>
      intro start found hnodup hok
      rw [List.map_cons, List.nodup_cons] at hnodup
      rw [List.foldlM_cons] at hok
      obtain ⟨next, hstep, hrest⟩ := bind_ok.1 hok
      obtain ⟨id, hid, hnext⟩ := bind_ok.1 hstep
      cases hnext
      obtain ⟨hin, hout⟩ := ih _ _ hnodup.2 hrest
      refine ⟨fun n hn => ?_, fun k hk => ?_⟩
      · rcases List.mem_cons.1 hn with rfl | hn
        · refine ⟨id, hid, ?_⟩
          rw [hout _ hnodup.1, ExtTreeMap.getElem?_insert_self]
        · exact hin n hn
      · rw [List.map_cons, List.mem_cons, not_or] at hk
        rw [hout k hk.2, ExtTreeMap.getElem?_insert, if_neg (by simpa using Ne.symm hk.1)]
  have hlocal : ((seed.nodes.filter fun n => n.label = label).map SeedNode.id).Nodup := by
    refine (List.nodup_map_iff_inj_on (List.Nodup.filter _ (List.Nodup.of_map _ hnodup))).2 ?_
    intro n hn m hm hid
    obtain ⟨hn, hnlabel⟩ := List.mem_filter.1 hn
    obtain ⟨hm, hmlabel⟩ := List.mem_filter.1 hm
    have hsame : n.ref = m.ref := by
      unfold SeedNode.ref
      rw [hid, of_decide_eq_true hnlabel, of_decide_eq_true hmlabel]
    exact List.inj_on_of_nodup_map hnodup hn hm hsame
  exact (hfold _ _ _ hlocal hminted).1 n (List.mem_filter.2 ⟨hn, by simpa using hlabel⟩)

theorem lookup_ok {key value : String} : lookup found key = .ok value ↔ found[key]? = some value := by
  unfold lookup
  cases found[key]? <;> simp

/-- **What minting makes of a node**: the id of its label's formula for its text, under the id of the node it is tied
to. -/
structure Minted (h : Hashing) (seed : Seed) (ids : CanonicalIds) (n : SeedNode) (owner text : String) : Prop where
  id : ids.resolve n.ref = some (mintedId h ids.regulatoryInstrumentId n.label owner text)
  text : seed.ownText n = some text
  owned : ∀ t, n.label.scopedBy = some t →
    ∃ e ∈ seed.edges, e.type = t ∧ e.target = n.ref ∧ ids.resolve e.source = some owner
  colon : ':' ∉ owner.toList

theorem resolve_of_label {n : SeedNode} (hlabel : n.label = label) (hne : label ≠ .regulatoryInstrument) :
    ids.resolve n.ref = (ids.byLabel label)[n.id]? := by
  unfold CanonicalIds.resolve SeedNode.ref
  rw [if_neg (by rw [hlabel]; exact hne), hlabel]

/-- The edge that ties a node to another one is the only one of its type into it. -/
theorem Seed.Valid.tie (hvalid : seed.Valid index) {t : EdgeType} (ht : label.scopedBy = some t) {n : SeedNode}
    (hn : n ∈ seed.nodes) (hlabel : n.label = label) :
    ∃ e ∈ seed.edges, e.type = t ∧ e.target = n.ref ∧ seed.edgesWith t toId n.id = [e] := by
  have hends : t ∈ [EdgeType.has, .expresses, .supportedBy, .implementedBy] ∧ t.endpointLabels.2 = label := by
    cases label <;> cases ht <;> decide
  obtain ⟨e, he⟩ := hvalid.one t hends.1 n hn (by rw [hlabel, hends.2])
  obtain ⟨hmem, hkey⟩ := List.mem_filter.1 (he ▸ List.mem_singleton_self e : e ∈ seed.edgesWith t toId n.id)
  have hkey : e.type = t ∧ toId e = n.id := by simpa using hkey
  refine ⟨e, hmem, hkey.1, ?_, he⟩
  have htarget : e.target.label = n.label := by
    have hpair := congrArg Prod.snd (hvalid.labels e hmem)
    rw [hkey.1, hends.2] at hpair
    rw [hlabel]
    exact hpair
  show (⟨e.target.label, e.target.id⟩ : SeedRef) = ⟨n.label, n.id⟩
  rw [htarget, show e.target.id = n.id from hkey.2]

/-- Two edges that tie one node are one. -/
theorem Seed.Valid.tie_unique (hvalid : seed.Valid index) {t : EdgeType} (ht : label.scopedBy = some t) {n : SeedNode}
    (hn : n ∈ seed.nodes) (hlabel : n.label = label) {e f : SeedEdge} (he : e ∈ seed.edges) (hf : f ∈ seed.edges)
    (het : e.type = t) (hft : f.type = t) (hen : e.target = n.ref) (hfn : f.target = n.ref) : e = f := by
  obtain ⟨g, -, -, -, honly⟩ := hvalid.tie ht hn hlabel
  have hin : ∀ e' ∈ seed.edges, e'.type = t → e'.target = n.ref → e' = g := by
    intro e' he' ht' hn'
    have hmem : e' ∈ seed.edgesWith t toId n.id := List.mem_filter.2 ⟨he', by simp [ht', toId, hn', SeedNode.ref]⟩
    rw [honly] at hmem
    exact List.mem_singleton.1 hmem
  rw [hin e he het hen, hin f hf hft hfn]

/-- What is minted under the id of another node. -/
theorem minted_under (hvalid : seed.Valid index) {t : EdgeType} {ownerLabel : NodeLabel} {owners ownerIds : Dict}
    (formula : String → String → String)
    (hfound : mintIds seed label (mintUnder owners ownerIds label.namingKey formula) = .ok found)
    (howners : owners = indexEdges seed t toId fromId) (ht : label.scopedBy = some t)
    (hends : t.endpointLabels.1 = ownerLabel) (hne : ownerLabel ≠ .regulatoryInstrument)
    (hids : ids.byLabel label = found) (hownerIds : ids.byLabel ownerLabel = ownerIds)
    (hformula : ∀ owner text, mintedId h ids.regulatoryInstrumentId label owner text = formula owner text)
    (hcolon : ∀ p ∈ seed.nodes, p.label = ownerLabel → ∀ id, ownerIds[p.id]? = some id → ':' ∉ id.toList)
    {n : SeedNode} (hn : n ∈ seed.nodes) (hlabel : n.label = label) : ∃ owner text, Minted h seed ids n owner text := by
  obtain ⟨id, hid, hentry⟩ := mintIds_get hfound hvalid.nodup hn hlabel
  obtain ⟨ownerLocalId, hlocal, hid⟩ := bind_ok.1 hid
  obtain ⟨owner, howner, hid⟩ := bind_ok.1 hid
  obtain ⟨text, htext, hid⟩ := bind_ok.1 hid
  cases hid
  obtain ⟨e, he, het, hen, honly⟩ := hvalid.tie ht hn hlabel
  -- the index gives the source of the one edge
  have hsource : ownerLocalId = e.source.id := by
    rw [lookup_ok, howners, indexEdges_get honly] at hlocal
    exact (Option.some.inj hlocal).symm
  have hsourceLabel : e.source.label = ownerLabel := by
    rw [← hends, ← het]
    exact congrArg Prod.fst (hvalid.labels e he)
  obtain ⟨p, hp, hpref⟩ := (hvalid.declared e he).1
  have hplabel : p.label = ownerLabel := by rw [← hsourceLabel, ← hpref]; rfl
  have hpid : p.id = e.source.id := by rw [← hpref]; rfl
  have hget : ownerIds[p.id]? = some owner := by rw [hpid, ← hsource]; exact lookup_ok.1 howner
  have hnotInstrument : label ≠ .regulatoryInstrument ∧ label ≠ .requirement := by
    constructor <;> (rintro rfl; cases ht)
  refine ⟨owner, text, ?_, ?_, fun t' ht' => ?_, hcolon p hp hplabel owner hget⟩
  · rw [resolve_of_label hlabel hnotInstrument.1, hids, hentry, hlabel, hformula]
  · have htextual : seed.ownText n = (requireStrProperty n label.namingKey).toOption := by
      unfold Seed.ownText
      rw [hlabel]
      cases label <;> first | rfl | exact absurd rfl hnotInstrument.1 | exact absurd rfl hnotInstrument.2
    rw [htextual, htext]
    rfl
  · rw [hlabel, ht] at ht'
    cases ht'
    refine ⟨e, he, het, hen, ?_⟩
    rw [← hpref, resolve_of_label hplabel hne, hownerIds, hget]

/-- What is minted from the name of a node alone. -/
theorem minted_alone (hvalid : seed.Valid index) (formula : String → String)
    (hfound : mintIds seed label (fun n => do return formula (← requireStrProperty n label.namingKey)) = .ok found)
    (hscoped : label.scopedBy = none) (hinstrument : label ≠ .regulatoryInstrument)
    (hrequirement : label ≠ .requirement)
    (hids : ids.byLabel label = found)
    (hformula : ∀ text, mintedId h ids.regulatoryInstrumentId label "" text = formula text)
    {n : SeedNode} (hn : n ∈ seed.nodes) (hlabel : n.label = label) : ∃ owner text, Minted h seed ids n owner text := by
  obtain ⟨id, hid, hentry⟩ := mintIds_get hfound hvalid.nodup hn hlabel
  obtain ⟨text, htext, hid⟩ := bind_ok.1 hid
  cases hid
  refine ⟨"", text, ?_, ?_, fun t ht => ?_, by decide⟩
  · rw [resolve_of_label hlabel hinstrument, hids, hentry, hlabel, hformula]
  · have htextual : seed.ownText n = (requireStrProperty n label.namingKey).toOption := by
      unfold Seed.ownText
      rw [hlabel]
      cases label <;> first | rfl | exact absurd rfl hinstrument | exact absurd rfl hrequirement
    rw [htextual, htext]
    rfl
  · rw [hlabel, hscoped] at ht
    cases ht

/-- An id of a label, minted by one formula, holds no colon where the formula's ids do not. -/
theorem colon_not_mem_of_minted (hvalid : seed.Valid index) (hfound : mintIds seed label mint = .ok found)
    (hmint : ∀ n id, mint n = .ok id → ':' ∉ id.toList) :
    ∀ p ∈ seed.nodes, p.label = label → ∀ id, found[p.id]? = some id → ':' ∉ id.toList := by
  intro p hp hlabel id hid
  obtain ⟨id', hid', hentry⟩ := mintIds_get hfound hvalid.nodup hp hlabel
  obtain rfl : id = id' := Option.some.inj (hid.symm.trans hentry)
  exact hmint p id hid'

/-- What minting puts under each label. -/
theorem mintCanonicalIds_ok (hminted : mintCanonicalIds h seed index = .ok ids) :
    ids.regulatoryInstrumentId = index.regulatoryInstrument.id ∧
      mintRoleIds h seed ids.regulatoryInstrumentId = .ok ids.role ∧ mintPolicyIds h seed = .ok ids.policy ∧
      mintStandardIds h seed index ids.policy = .ok ids.standard ∧
      mintRequirementIds h seed index ids.regulatoryInstrumentId = .ok ids.requirement ∧
      mintObligationIds h seed index ids.role = .ok ids.obligation ∧ mintCapabilityIds h seed = .ok ids.capability ∧
      mintControlIds h seed index ids.standard = .ok ids.control ∧
      mintPracticeAreaIds h seed = .ok ids.practiceArea ∧ mintRiskPathIds h seed = .ok ids.riskPath := by
  unfold mintCanonicalIds at hminted
  obtain ⟨role, hrole, hminted⟩ := bind_ok.1 hminted
  obtain ⟨policy, hpolicy, hminted⟩ := bind_ok.1 hminted
  obtain ⟨standard, hstandard, hminted⟩ := bind_ok.1 hminted
  obtain ⟨requirement, hrequirement, hminted⟩ := bind_ok.1 hminted
  obtain ⟨obligation, hobligation, hminted⟩ := bind_ok.1 hminted
  obtain ⟨capability, hcapability, hminted⟩ := bind_ok.1 hminted
  obtain ⟨control, hcontrol, hminted⟩ := bind_ok.1 hminted
  obtain ⟨practiceArea, hpracticeArea, hminted⟩ := bind_ok.1 hminted
  obtain ⟨riskPath, hriskPath, hminted⟩ := bind_ok.1 hminted
  cases hminted
  exact ⟨rfl, hrole, hpolicy, hstandard, hrequirement, hobligation, hcapability, hcontrol, hpracticeArea, hriskPath⟩

/-- **Every node of an accepted document has the id its label's formula gives it.** -/
theorem mint_resolves (hash : IdHash h) (hvalid : seed.Valid index) (hminted : mintCanonicalIds h seed index = .ok ids)
    {n : SeedNode} (hn : n ∈ seed.nodes) : ∃ owner text, Minted h seed ids n owner text := by
  obtain ⟨-, hrole, hpolicy, hstandard, hrequirement, hobligation, hcapability, hcontrol, hpracticeArea, hriskPath⟩ :=
    mintCanonicalIds_ok hminted
  -- the ids other ids are minted under hold no colon
  have hroleColon := colon_not_mem_of_minted hvalid hrole fun n id hid => by
    obtain ⟨name, -, hid⟩ := bind_ok.1 hid
    cases hid
    exact colon_not_mem_tagged hash (by decide)
  have hpolicyColon := colon_not_mem_of_minted hvalid hpolicy fun n id hid => by
    obtain ⟨title, -, hid⟩ := bind_ok.1 hid
    cases hid
    exact colon_not_mem_tagged hash (by decide)
  have hstandardColon := colon_not_mem_of_minted hvalid hstandard fun n id hid => by
    obtain ⟨_, -, hid⟩ := bind_ok.1 hid
    obtain ⟨_, -, hid⟩ := bind_ok.1 hid
    obtain ⟨title, -, hid⟩ := bind_ok.1 hid
    cases hid
    exact colon_not_mem_tagged hash (by decide)
  cases hlabel : n.label with
  | regulatoryInstrument =>
    refine ⟨"", "", ?_, ?_, fun t ht => ?_, by decide⟩
    · unfold CanonicalIds.resolve SeedNode.ref
      rw [if_pos hlabel, hlabel]
      rfl
    · unfold Seed.ownText
      rw [hlabel]
    · rw [hlabel] at ht
      cases ht
  | role =>
    exact minted_alone hvalid (fun name => roleId h name ids.regulatoryInstrumentId) hrole rfl (by decide)
      (by decide) rfl (fun _ => rfl) hn hlabel
  | capability =>
    exact minted_alone hvalid (capabilityId h) hcapability rfl (by decide) (by decide) rfl (fun _ => rfl) hn hlabel
  | policy =>
    exact minted_alone hvalid (fun title => h.policyId title none) hpolicy rfl (by decide)
      (by decide) rfl (fun _ => rfl) hn hlabel
  | practiceArea =>
    exact minted_alone hvalid (practiceAreaId h) hpracticeArea rfl (by decide) (by decide) rfl (fun _ => rfl) hn hlabel
  | riskPath =>
    exact minted_alone hvalid (riskPathId h) hriskPath rfl (by decide) (by decide) rfl (fun _ => rfl) hn hlabel
  | obligation =>
    exact minted_under hvalid (obligationId h) hobligation hvalid.bearer rfl rfl (by decide)
      rfl rfl (fun _ _ => rfl) hroleColon hn hlabel
  | standard =>
    exact minted_under hvalid h.standardId hstandard hvalid.supporter rfl rfl (by decide)
      rfl rfl (fun _ _ => rfl) hpolicyColon hn hlabel
  | control =>
    exact minted_under hvalid h.controlId hcontrol hvalid.implementer rfl rfl (by decide)
      rfl rfl (fun _ _ => rfl) hstandardColon hn hlabel
  | requirement =>
    obtain ⟨id, hid, hentry⟩ := mintIds_get hrequirement hvalid.nodup hn hlabel
    obtain ⟨text, htext, hid⟩ := bind_ok.1 hid
    cases hid
    obtain ⟨e, he⟩ := hvalid.one .expresses (by decide) n hn hlabel
    have hsourceRef : text = sourceRef e := by
      rw [lookup_ok, hvalid.sourceRef, indexEdges_get he] at htext
      exact (Option.some.inj htext).symm
    refine ⟨"", text, ?_, ?_, fun t ht => ?_, by decide⟩
    · rw [resolve_of_label hlabel (by decide), hlabel]
      exact hentry
    · unfold Seed.ownText
      rw [hlabel]
      show (seed.edgesWith .expresses toId n.id).head?.map sourceRef = _
      rw [he, hsourceRef]
      rfl
    · rw [hlabel] at ht
      cases ht

end Mint

/-! ## Which ids meet -/

section Meet

variable {h : Hashing} {seed : Seed} {index : SeedIndex} {ids : CanonicalIds}

/-- How many nodes stand above the nodes of a label. -/
def NodeLabel.depth : NodeLabel → ℕ
  | control => 2
  | standard | obligation => 1
  | _ => 0

/-- **Two nodes of a label have one id exactly where their ids derive from the same.** -/
theorem same_id_iff (hash : IdHash h) (hvalid : seed.Valid index) (hminted : mintCanonicalIds h seed index = .ok ids)
    {n m : SeedNode} (hn : n ∈ seed.nodes) (hm : m ∈ seed.nodes) (hlabel : n.label = m.label) :
    ids.resolve n.ref = ids.resolve m.ref ↔ SameIdentity h seed n m := by
  constructor
  · -- by how deep the label stands: the ids above meet first
    intro heq
    induction hdepth : n.label.depth using Nat.strong_induction_on generalizing n m with
    | _ depth ih =>
      obtain ⟨owner, text, hN⟩ := mint_resolves hash hvalid hminted hn
      obtain ⟨owner', text', hM⟩ := mint_resolves hash hvalid hminted hm
      rw [hN.id, hM.id, ← hlabel, Option.some.injEq, mintedId_eq_iff hash hN.colon hM.colon] at heq
      have htext : (seed.ownText n).map (countsOf h n.label) = (seed.ownText m).map (countsOf h m.label) := by
        rw [hN.text, hM.text, ← hlabel, Option.map_some, Option.map_some, heq.2]
      cases hscoped : n.label.scopedBy with
      | none => exact .own hlabel hscoped htext
      | some t =>
        obtain ⟨e, he, het, hen, hsource⟩ := hN.owned t hscoped
        obtain ⟨f, hf, hft, hfm, hsource'⟩ := hM.owned t (hlabel ▸ hscoped)
        obtain ⟨p, hp, hpref⟩ := (hvalid.declared e he).1
        obtain ⟨q, hq, hqref⟩ := (hvalid.declared f hf).1
        have hplabel : p.label = t.endpointLabels.1 := by
          rw [← het, ← congrArg Prod.fst (hvalid.labels e he), ← hpref]
          rfl
        have hqlabel : q.label = t.endpointLabels.1 := by
          rw [← hft, ← congrArg Prod.fst (hvalid.labels f hf), ← hqref]
          rfl
        have habove : p.label.depth < depth := by
          rw [hplabel, ← hdepth]
          revert hscoped
          cases n.label <;> intro hscoped <;> cases hscoped <;> decide
        have howner : ids.resolve p.ref = ids.resolve q.ref := by
          rw [hpref, hqref, hsource, hsource', heq.1 (by simp [hscoped])]
        exact .under hlabel hscoped htext ⟨hp, e, he, het, hpref.symm, hen⟩ ⟨hq, f, hf, hft, hqref.symm, hfm⟩
          (ih _ habove hp hq (hplabel.trans hqlabel.symm) howner rfl)
  · intro hsame
    induction hsame with
    | @own n m hlabel hscoped htext =>
      obtain ⟨owner, text, hN⟩ := mint_resolves hash hvalid hminted hn
      obtain ⟨owner', text', hM⟩ := mint_resolves hash hvalid hminted hm
      rw [hN.text, hM.text, ← hlabel] at htext
      rw [hN.id, hM.id, ← hlabel, Option.some.injEq, mintedId_eq_iff hash hN.colon hM.colon]
      exact ⟨fun hne => absurd hscoped hne, Option.some.inj htext⟩
    | @under n m p q t hlabel hscoped htext howns howns' _ ih =>
      obtain ⟨owner, text, hN⟩ := mint_resolves hash hvalid hminted hn
      obtain ⟨owner', text', hM⟩ := mint_resolves hash hvalid hminted hm
      obtain ⟨hp, e, he, het, hep, hen⟩ := howns
      obtain ⟨hq, f, hf, hft, hfq, hfm⟩ := howns'
      have hplabel : p.label = q.label := by
        have hsource := congrArg Prod.fst (hvalid.labels e he)
        have hsource' := congrArg Prod.fst (hvalid.labels f hf)
        rw [het, hep] at hsource
        rw [hft, hfq] at hsource'
        exact hsource.trans hsource'.symm
      -- the edge the id was minted along is the one that ties the node
      obtain ⟨e', he', het', hen', hsource⟩ := hN.owned t hscoped
      obtain ⟨f', hf', hft', hfm', hsource'⟩ := hM.owned t (hlabel ▸ hscoped)
      obtain rfl := hvalid.tie_unique hscoped hn rfl he he' het het' hen hen'
      obtain rfl := hvalid.tie_unique (hlabel ▸ hscoped) hm rfl hf hf' hft hft' hfm hfm'
      have howner : owner = owner' := by
        have heq := ih hp hq hplabel
        rw [← hep, ← hfq, hsource, hsource'] at heq
        exact Option.some.inj heq
      rw [hN.text, hM.text, ← hlabel] at htext
      rw [hN.id, hM.id, ← hlabel, Option.some.injEq, mintedId_eq_iff hash hN.colon hM.colon]
      exact ⟨fun _ => howner, Option.some.inj htext⟩

/-! ## Edges between minted ids -/

/-- An edge of a type between two canonical ids. -/
def CanonicalIds.Linked (ids : CanonicalIds) (seed : Seed) (t : EdgeType) (source target : String) : Prop :=
  ∃ e ∈ seed.edges, e.type = t ∧ ids.resolve e.source = some source ∧ ids.resolve e.target = some target

theorem Seed.Valid.target_label (hvalid : seed.Valid index) {e : SeedEdge} (he : e ∈ seed.edges) {n : SeedNode}
    (htarget : n.ref = e.target) : n.label = e.type.endpointLabels.2 := by
  rw [← congrArg Prod.snd (hvalid.labels e he), ← htarget]
  rfl

/-- **Whatever a node belongs to, its canonical id belongs to one canonical id.** -/
theorem one_owner (hash : IdHash h) (hvalid : seed.Valid index) (hminted : mintCanonicalIds h seed index = .ok ids)
    {t : EdgeType} {n : SeedNode} (hn : n ∈ seed.nodes) (hscoped : n.label.scopedBy = some t) {id : String}
    (hid : ids.resolve n.ref = some id) : ∃! owner, ids.Linked seed t owner id := by
  obtain ⟨owner, text, hN⟩ := mint_resolves hash hvalid hminted hn
  obtain ⟨e, he, het, hen, hsource⟩ := hN.owned t hscoped
  refine ⟨owner, ⟨e, he, het, hsource, hen ▸ hid⟩, ?_⟩
  rintro other ⟨f, hf, hft, hother, hftarget⟩
  -- the other edge points at a node of the same label with the same id
  obtain ⟨m, hm, hmref⟩ := (hvalid.declared f hf).2
  have hlabel : m.label = n.label := by
    rw [hvalid.target_label hf hmref, hvalid.target_label he hen.symm, hft, het]
  obtain ⟨owner', text', hM⟩ := mint_resolves hash hvalid hminted hm
  have hmeet : ids.resolve m.ref = ids.resolve n.ref := by rw [hmref, hftarget, hid]
  rw [hM.id, hN.id, hlabel, Option.some.injEq, mintedId_eq_iff hash hM.colon hN.colon] at hmeet
  have howner : owner' = owner := hmeet.1 (by simp [hscoped])
  obtain ⟨f', hf', hft', hfm', hsource'⟩ := hM.owned t (hlabel ▸ hscoped)
  obtain rfl := hvalid.tie_unique (hlabel ▸ hscoped) hm rfl hf hf' hft hft' hmref.symm hfm'
  rw [hother, howner] at hsource'
  exact Option.some.inj hsource'

theorem eq_of_length_le_one {α : Type} {xs : List α} (hlength : xs.length ≤ 1) {a b : α} (ha : a ∈ xs) (hb : b ∈ xs) :
    a = b := by
  cases xs with
  | nil => cases ha
  | cons x xs =>
    have hnil : xs = [] := by
      rw [List.length_cons] at hlength
      exact List.length_eq_zero_iff.1 (by omega)
    subst hnil
    rw [List.mem_singleton.1 ha, List.mem_singleton.1 hb]

/-- A Capability with an id of its own is governed by at most one canonical id. -/
theorem one_governor_of_own_id (hash : IdHash h) (hvalid : seed.Valid index)
    (hminted : mintCanonicalIds h seed index = .ok ids) {c : SeedNode} (hc : c ∈ seed.nodes)
    (hlabel : c.label = .capability)
    (hown : ∀ d ∈ seed.nodes, d.label = .capability → SameIdentity h seed d c → d = c) {id p q : String}
    (hid : ids.resolve c.ref = some id) (hp : ids.Linked seed .governedBy id p)
    (hq : ids.Linked seed .governedBy id q) : p = q := by
  obtain ⟨e, he, het, hesource, hetarget⟩ := hp
  obtain ⟨f, hf, hft, hfsource, hftarget⟩ := hq
  have hfrom : ∀ e' ∈ seed.edges, e'.type = .governedBy → ids.resolve e'.source = some id → e'.source = c.ref := by
    intro e' he' ht' hsource
    obtain ⟨d, hd, hdref⟩ := (hvalid.declared e' he').1
    have hdlabel : d.label = .capability := by
      have hends := congrArg Prod.fst (hvalid.labels e' he')
      rw [ht', ← hdref] at hends
      exact hends
    have hsame : SameIdentity h seed d c := by
      refine (same_id_iff hash hvalid hminted hd hc (hdlabel.trans hlabel.symm)).1 ?_
      rw [hdref, hsource, hid]
    rw [← hdref, hown d hd hdlabel hsame]
  have hesource := hfrom e he het hesource
  have hfsource := hfrom f hf hft hfsource
  -- both edges leave one Capability, which has at most one such edge
  have hcount := hvalid.governors e he het
  have hmem : ∀ e' ∈ seed.edges, e'.type = .governedBy → e'.source = c.ref →
      e' ∈ seed.edgesWith .governedBy fromId e.source.id := by
    intro e' he' ht' hsource
    exact List.mem_filter.2 ⟨he', by simp [ht', fromId, hsource, hesource]⟩
  have hsame : e = f := eq_of_length_le_one hcount (hmem e he het hesource) (hmem f hf hft hfsource)
  rw [hsame, hftarget] at hetarget
  exact (Option.some.inj hetarget).symm

/-- **Minting.** Every node of an accepted document has an id, two nodes of a label have one id exactly where their ids
derive from the same, an Obligation's, a Standard's and a Control's id belongs to one id, and a Capability with an id of
its own is governed by at most one. -/
theorem minted_structure (hash : IdHash h) (hvalid : validateAndIndex seed = .ok index)
    (hminted : mintCanonicalIds h seed index = .ok ids) :
    (∀ n ∈ seed.nodes, (ids.resolve n.ref).isSome) ∧
    (∀ n ∈ seed.nodes, ∀ m ∈ seed.nodes, n.label = m.label →
      (ids.resolve n.ref = ids.resolve m.ref ↔ SameIdentity h seed n m)) ∧
    (∀ t, ∀ n ∈ seed.nodes, n.label.scopedBy = some t → ∀ id, ids.resolve n.ref = some id →
      ∃! owner, ids.Linked seed t owner id) ∧
    ∀ c ∈ seed.nodes, c.label = .capability →
      (∀ d ∈ seed.nodes, d.label = .capability → SameIdentity h seed d c → d = c) → ∀ id p q,
      ids.resolve c.ref = some id → ids.Linked seed .governedBy id p → ids.Linked seed .governedBy id q → p = q := by
  have hvalid := validateAndIndex_valid hvalid
  refine ⟨fun n hn => ?_, fun n hn m hm hlabel => same_id_iff hash hvalid hminted hn hm hlabel,
    fun t n hn hscoped id hid => one_owner hash hvalid hminted hn hscoped hid, ?_⟩
  · obtain ⟨owner, text, hN⟩ := mint_resolves hash hvalid hminted hn
    rw [hN.id]
    rfl
  · intro c hc hlabel hown id p q hid hp hq
    exact one_governor_of_own_id hash hvalid hminted hc hlabel hown hid hp hq

end Meet

/-! ## Documents -/

/-- Lower case of ASCII, and some digests. -/
def intakeHashing : Hashing where
  lower := asciiLower
  hash := tableHash
    [("change review", "703548"), ("change policy", "d189a7"), ("release policy", "6821d9"),
      ("pol_change_policy_d189a7:review steps", "1af994"), ("std_review_steps_1af994:two approvals", "111b75"),
      ("ENGPRAC-3.0:engineering manager", "0c6a4f"), ("role_engineering_manager_0c6a4f:review every change.", "78da3c")]

theorem intakeHashing_idHash : IdHash intakeHashing := by
  refine idHash_table rfl ?_ ?_
  · decide +kernel
  · simp

def seedNode (label : NodeLabel) (id key value : String) : SeedNode :=
  ⟨label, id, (∅ : ExtTreeMap String SeedValue).insert key (.text value)⟩

def seedEdge (t : EdgeType) (source target : String) : SeedEdge :=
  ⟨t, ⟨t.endpointLabels.1, source⟩, ⟨t.endpointLabels.2, target⟩, ∅⟩

/-- A Policy with a Standard and a Control. -/
def governedSeed : Seed where
  nodes :=
    [seedNode .regulatoryInstrument "ENGPRAC-3.0" "title" "Engineering Practices",
      seedNode .policy "pol-1" "title" "Change Policy",
      seedNode .standard "std-1" "title" "Review Steps", seedNode .control "ctrl-1" "title" "Two Approvals"]
  edges := [seedEdge .supportedBy "pol-1" "std-1", seedEdge .implementedBy "std-1" "ctrl-1"]

theorem minted_structure_governed : ∃ index ids, validateAndIndex governedSeed = .ok index ∧
    mintCanonicalIds intakeHashing governedSeed index = .ok ids ∧
    (ids.resolve ⟨.control, "ctrl-1"⟩).isSome ∧
    ∃! owner, ids.Linked governedSeed .implementedBy owner "ctrl_two_approvals_111b75" := by
  have hmint : ((validateAndIndex governedSeed).toOption.bind fun index =>
      (mintCanonicalIds intakeHashing governedSeed index).toOption.bind fun ids =>
        ids.resolve ⟨.control, "ctrl-1"⟩) = some "ctrl_two_approvals_111b75" := by decide +kernel
  obtain ⟨index, hindex, hmint⟩ := Option.bind_eq_some_iff.1 hmint
  obtain ⟨ids, hids, hcontrol⟩ := Option.bind_eq_some_iff.1 hmint
  have hindex := toOption_eq_some hindex
  have hids := toOption_eq_some hids
  have hstructure := minted_structure intakeHashing_idHash hindex hids
  have hmem : seedNode .control "ctrl-1" "title" "Two Approvals" ∈ governedSeed.nodes := by
    unfold governedSeed
    simp
  exact ⟨index, ids, hindex, hids, hstructure.1 _ hmem, hstructure.2.2.1 _ _ hmem rfl _ hcontrol⟩

/-- Two Capabilities of one name, but for case, under two Policies. -/
def doubledSeed : Seed where
  nodes :=
    [seedNode .regulatoryInstrument "ENGPRAC-3.0" "title" "Engineering Practices",
      seedNode .capability "cap-1" "name" "Change Review", seedNode .capability "cap-2" "name" "change review",
      seedNode .policy "pol-1" "title" "Change Policy", seedNode .policy "pol-2" "title" "Release Policy"]
  edges := [seedEdge .governedBy "cap-1" "pol-1", seedEdge .governedBy "cap-2" "pol-2"]

/-- **Two nodes of an accepted document may meet**, and one id then be governed by two. -/
theorem doubled_capability : ∃ index ids, validateAndIndex doubledSeed = .ok index ∧
    mintCanonicalIds intakeHashing doubledSeed index = .ok ids ∧
    ids.resolve ⟨.capability, "cap-1"⟩ = ids.resolve ⟨.capability, "cap-2"⟩ ∧
    ids.Linked doubledSeed .governedBy "cap_change_review_703548" "pol_change_policy_d189a7" ∧
    ids.Linked doubledSeed .governedBy "cap_change_review_703548" "pol_release_policy_6821d9" := by
  have hall : ((validateAndIndex doubledSeed).toOption.bind fun index =>
      (mintCanonicalIds intakeHashing doubledSeed index).toOption.map fun ids =>
        [ids.resolve ⟨.capability, "cap-1"⟩, ids.resolve ⟨.capability, "cap-2"⟩, ids.resolve ⟨.policy, "pol-1"⟩,
          ids.resolve ⟨.policy, "pol-2"⟩]) =
      some [some "cap_change_review_703548", some "cap_change_review_703548", some "pol_change_policy_d189a7",
        some "pol_release_policy_6821d9"] := by
    decide +kernel
  obtain ⟨index, hindex, hall⟩ := Option.bind_eq_some_iff.1 hall
  obtain ⟨ids, hids, hlist⟩ := Option.map_eq_some_iff.1 hall
  simp only [List.cons.injEq, and_true] at hlist
  obtain ⟨hone, htwo, hchange, hrelease⟩ := hlist
  refine ⟨index, ids, toOption_eq_some hindex, toOption_eq_some hids, hone.trans htwo.symm, ?_, ?_⟩
  · exact ⟨seedEdge .governedBy "cap-1" "pol-1", by simp [doubledSeed], rfl, hone, hchange⟩
  · exact ⟨seedEdge .governedBy "cap-2" "pol-2", by simp [doubledSeed], rfl, htwo, hrelease⟩

end PolicySystem.InternalSeed
