import PolicySystem.Dict.FirstWins
import PolicySystem.DomainMapper.Identity

/-!
# Extraction of Roles and Requirements

How the duties a model found become Roles and Requirements (`domain_mapper/extraction.py`): candidates whose role is no
actor are dropped, the Roles are told apart by their normal names, and the Requirements take the ids of their citations.

* `canonicalizeRoles_ids`: every name leads to its Role;
* `buildRequirementGraph_built`: the Requirements are the first candidates of each citation and text, under the id of
  the citation with the number of the text there.
-/

namespace PolicySystem.DomainMapper

open LastWins (put under)

/-- The type of a duty. -/
inductive RequirementType where
  | requirement
  | prohibition
  | recommendation
  deriving DecidableEq

/-- `RequirementCandidate`. -/
structure RequirementCandidate where
  unitCitationRef : String
  unitArticleNumber : String
  unitParagraphNumber : String
  roleName : String
  roleIsActor : Bool
  text : String
  type : RequirementType
  letterSuffix : Option String
  confidence : Double
  roleName_ne : roleName ≠ "" := by decide
  text_ne : text ≠ "" := by decide
  deriving DecidableEq

/-- `DefinedTermCandidate`. -/
structure DefinedTermCandidate where
  term : String
  citationRef : String

structure RoleNode where
  id : String
  name : String
  confidence : Double
  deriving DecidableEq

structure RoleDefinesEdge where
  roleNodeId : String
  sourceRef : String
  deriving DecidableEq

structure RequirementNode where
  id : String
  text : String
  type : RequirementType
  status : String
  confidence : Double
  roleId : String
  deriving DecidableEq

structure RequirementExpressesEdge where
  requirementNodeId : String
  sourceRef : String
  deriving DecidableEq

/-! ## Candidates -/

/-- `_drop_non_actor_candidates`: the actors, and how many candidates were dropped. -/
def dropNonActorCandidates (candidates : List RequirementCandidate) : List RequirementCandidate × ℕ :=
  let actors := candidates.filter (·.roleIsActor)
  (actors, candidates.length - actors.length)

/-- `_pool_defined_terms`: each normal term with the citation that defines it first. -/
def poolDefinedTerms (rules : StringRules) (terms : List DefinedTermCandidate) : List (String × String) :=
  FirstWins.collect Prod.fst (terms.map fun t => (normalizeTerm rules t.term, t.citationRef))

/-! ## Roles -/

/-- The Role of a name. -/
def roleOf (rules : StringRules) (rid roleName : String) : String :=
  roleId rules.toHashing (normaliseRoleName rules roleName) rid

/-- What `_canonicalize_roles` collects. -/
structure RoleGraph where
  nodes : List RoleNode := []
  edges : List RoleDefinesEdge := []
  nodeIds : List (String × String) := []
  seen : List String := []
  fallback : List (String × String) := []
  deriving DecidableEq

/-- One turn of the loop of `_canonicalize_roles`. -/
def canonicalizeRole (rules : StringRules) (rid : String) (definedTerms : List (String × String)) (g : RoleGraph)
    (c : RequirementCandidate) : RoleGraph :=
  let name := normaliseRoleName rules c.roleName
  let nodeId := roleOf rules rid c.roleName
  let g := { g with nodeIds := put Prod.fst (c.roleName, nodeId) g.nodeIds }
  if nodeId ∈ g.seen then g
  else
    let node : RoleNode := ⟨nodeId, name, c.confidence⟩
    match under Prod.fst (normalizeTerm rules name) definedTerms with
    | some defined =>
      { g with seen := g.seen ++ [nodeId], nodes := g.nodes ++ [node], edges := g.edges ++ [⟨nodeId, defined.2⟩] }
    | none =>
      { g with
        seen := g.seen ++ [nodeId]
        nodes := g.nodes ++ [node]
        edges := g.edges ++ [⟨nodeId, c.unitCitationRef⟩]
        fallback := g.fallback ++ [(nodeId, name)] }

/-- `_canonicalize_roles`. -/
def canonicalizeRoles (rules : StringRules) (rid : String) (definedTerms : List (String × String))
    (candidates : List RequirementCandidate) : RoleGraph :=
  candidates.foldl (canonicalizeRole rules rid definedTerms) {}

/-! ## Requirements -/

/-- The id of a candidate's citation. -/
def baseId (rid : String) (c : RequirementCandidate) : String :=
  requirementId rid c.unitArticleNumber c.unitParagraphNumber c.letterSuffix

/-- The id of the `n`-th text of a citation. -/
def finalId (base : String) (n : ℕ) : String := if n = 1 then base else base ++ "#" ++ toString n

/-- What `_build_requirement_graph` collects. -/
structure RequirementGraph where
  nodes : List RequirementNode := []
  edges : List RequirementExpressesEdge := []
  collided : List String := []
  /-- `texts_seen_by_base_id`: each citation's texts with their ids. -/
  textsSeen : String → List (String × String) := fun _ => []

/-- One turn of the loop of `_build_requirement_graph`; `none` where the name leads to no Role. -/
def buildRequirement (rid : String) (roleNodeIds : List (String × String)) (g : RequirementGraph)
    (c : RequirementCandidate) : Option RequirementGraph :=
  let base := baseId rid c
  let seen := g.textsSeen base
  if c.text ∈ seen.map Prod.fst then some g
  else
    let n := seen.length + 1
    let id := finalId base n
    (under Prod.fst c.roleName roleNodeIds).map fun role =>
      { nodes := g.nodes ++ [⟨id, c.text, c.type, "active", c.confidence, role.2⟩]
        edges := g.edges ++ [⟨id, c.unitCitationRef⟩]
        collided := if n > 1 then g.collided ++ [id] else g.collided
        textsSeen := Function.update g.textsSeen base (seen ++ [(c.text, id)]) }

/-- `_build_requirement_graph`. -/
def buildRequirementGraph (rid : String) (roleNodeIds : List (String × String))
    (candidates : List RequirementCandidate) : Option RequirementGraph :=
  candidates.foldlM (buildRequirement rid roleNodeIds) {}

/-- What `extract_roles_and_requirements` submits, and how many candidates it dropped. -/
structure Extraction where
  roles : RoleGraph
  requirements : RequirementGraph
  dropped : ℕ

/-- `extract_roles_and_requirements` on the candidates and the defined terms of all units. -/
def extractRolesAndRequirements (rules : StringRules) (rid : String) (candidates : List RequirementCandidate)
    (terms : List DefinedTermCandidate) : Option Extraction :=
  let actors := dropNonActorCandidates candidates
  let roles := canonicalizeRoles rules rid (poolDefinedTerms rules terms) actors.1
  (buildRequirementGraph rid roles.nodeIds actors.1).map fun requirements => ⟨roles, requirements, actors.2⟩

/-! ## Every name leads to its Role -/

section Extraction

variable {rules : StringRules} {rid : String} {definedTerms : List (String × String)}
  {candidates done : List RequirementCandidate} {c : RequirementCandidate} {g : RoleGraph}

theorem canonicalizeRole_nodeIds :
    (canonicalizeRole rules rid definedTerms g c).nodeIds = put Prod.fst (c.roleName, roleOf rules rid c.roleName) g.nodeIds := by
  simp only [canonicalizeRole]
  split
  · rfl
  · split <;> rfl

/-- **Every candidate's name leads to the Role of its normal name.** -/
theorem canonicalizeRoles_ids (hc : c ∈ candidates) :
    under Prod.fst c.roleName (canonicalizeRoles rules rid definedTerms candidates).nodeIds =
      some (c.roleName, roleOf rules rid c.roleName) := by
  unfold canonicalizeRoles
  induction candidates using List.reverseRecOn with
  | nil => cases hc
  | append_singleton candidates last ih =>
    rw [List.foldl_append, List.foldl_cons, List.foldl_nil, canonicalizeRole_nodeIds, LastWins.under_put]
    by_cases hname : last.roleName = c.roleName
    · rw [if_pos hname, hname]
    · rw [if_neg hname]
      refine ih ?_
      rcases List.mem_append.1 hc with hc | hc
      · exact hc
      · exact absurd (List.mem_singleton.1 hc ▸ rfl) hname

/-! ## What the Requirements are -/

/-- A candidate's citation and text. -/
def duty (rid : String) (c : RequirementCandidate) : String × String := (baseId rid c, c.text)

/-- The first candidate of each citation and text. -/
def firsts (rid : String) (candidates : List RequirementCandidate) : List RequirementCandidate :=
  FirstWins.collect (duty rid) candidates

/-- The Requirements of the candidates: one for each first candidate, numbered within its citation. -/
structure Built (rules : StringRules) (rid : String) (candidates : List RequirementCandidate) (g : RequirementGraph) :
    Prop where
  duties : g.nodes.map (fun n => (n.text, n.roleId)) =
    (firsts rid candidates).map fun c => (c.text, roleOf rules rid c.roleName)
  ids : g.nodes.map (·.id) = (FirstWins.numbered ((firsts rid candidates).map (baseId rid))).map fun p => finalId p.1 p.2
  seen : ∀ base, (g.textsSeen base).map Prod.fst =
    ((firsts rid candidates).filter (baseId rid · = base)).map (·.text)

theorem Built.initial : Built rules rid [] {} where
  duties := rfl
  ids := rfl
  seen _ := rfl

theorem firsts_concat : firsts rid (done ++ [c]) = FirstWins.keep (duty rid) (firsts rid done) c :=
  FirstWins.collect_concat

theorem Built.mem_seen {g : RequirementGraph} (hg : Built rules rid done g) :
    c.text ∈ (g.textsSeen (baseId rid c)).map Prod.fst ↔ duty rid c ∈ (firsts rid done).map (duty rid) := by
  rw [hg.seen, List.mem_map, List.mem_map]
  constructor
  · rintro ⟨d, hd, htext⟩
    obtain ⟨hd, hbase⟩ := List.mem_filter.1 hd
    exact ⟨d, hd, Prod.ext (of_decide_eq_true hbase) htext⟩
  · rintro ⟨d, hd, heq⟩
    obtain ⟨hbase, htext⟩ := Prod.mk.inj heq
    exact ⟨d, List.mem_filter.2 ⟨hd, decide_eq_true hbase⟩, htext⟩

theorem Built.length_seen {g : RequirementGraph} (hg : Built rules rid done g) (base : String) :
    (g.textsSeen base).length = ((firsts rid done).map (baseId rid)).count base := by
  have hlength := congrArg List.length (hg.seen base)
  rw [List.length_map, List.length_map] at hlength
  rw [hlength, List.count_eq_length_filter, List.filter_map, List.length_map]
  rfl

/-- One turn of the loop keeps the Requirements those of the candidates met. -/
theorem Built.step {roleNodeIds : List (String × String)} {g : RequirementGraph} (hg : Built rules rid done g)
    (hrole : under Prod.fst c.roleName roleNodeIds = some (c.roleName, roleOf rules rid c.roleName)) :
    ∃ g', buildRequirement rid roleNodeIds g c = some g' ∧ Built rules rid (done ++ [c]) g' := by
  unfold buildRequirement
  by_cases hseen : c.text ∈ (g.textsSeen (baseId rid c)).map Prod.fst
  · have hsame : firsts rid (done ++ [c]) = firsts rid done := by
      rw [firsts_concat, FirstWins.keep, if_pos (hg.mem_seen.1 hseen)]
    refine ⟨g, if_pos hseen, ?_, ?_, ?_⟩
    · rw [hsame]; exact hg.duties
    · rw [hsame]; exact hg.ids
    · rw [hsame]; exact hg.seen
  · have hmore : firsts rid (done ++ [c]) = firsts rid done ++ [c] := by
      rw [firsts_concat, FirstWins.keep, if_neg fun h => hseen (hg.mem_seen.2 h)]
    simp only [if_neg hseen, hrole, Option.map_some]
    refine ⟨_, rfl, ?_, ?_, ?_⟩
    · rw [hmore, List.map_append, List.map_append, hg.duties]
      rfl
    · rw [hmore, List.map_append, List.map_append (f := baseId rid), List.map_singleton, List.map_singleton,
        FirstWins.numbered_concat', List.map_append, hg.ids, hg.length_seen]
      rfl
    · intro base
      rw [hmore, List.filter_append, List.map_append]
      by_cases hbase : baseId rid c = base
      · subst hbase
        simp only [Function.update_self]
        rw [List.map_append, hg.seen, List.filter_cons_of_pos (by simp)]
        rfl
      · simp only [Function.update_of_ne (fun h : base = baseId rid c => hbase h.symm)]
        rw [hg.seen, List.filter_cons_of_neg (by simpa using hbase)]
        simp

/-- **Every run over candidates whose names lead to their Roles builds their Requirements.** -/
theorem buildRequirementGraph_built {roleNodeIds : List (String × String)}
    (hroles : ∀ c ∈ candidates, under Prod.fst c.roleName roleNodeIds = some (c.roleName, roleOf rules rid c.roleName)) :
    ∃ g, buildRequirementGraph rid roleNodeIds candidates = some g ∧ Built rules rid candidates g := by
  unfold buildRequirementGraph
  induction candidates using List.reverseRecOn with
  | nil => exact ⟨{}, rfl, Built.initial⟩
  | append_singleton candidates c ih =>
    obtain ⟨g, hrun, hg⟩ := ih fun d hd => hroles d (List.mem_append_left _ hd)
    obtain ⟨g', hstep, hg'⟩ := hg.step (hroles c (by simp))
    refine ⟨g', ?_, hg'⟩
    rw [List.foldlM_append, hrun]
    exact (Option.bind_some _ _).trans ((congrArg (· >>= some) hstep).trans rfl)

/-- **Extraction builds the Requirements of the actors.** -/
theorem extraction_built (rules : StringRules) (rid : String) (candidates : List RequirementCandidate)
    (terms : List DefinedTermCandidate) :
    ∃ e, extractRolesAndRequirements rules rid candidates terms = some e ∧
      Built rules rid (dropNonActorCandidates candidates).1 e.requirements := by
  unfold extractRolesAndRequirements
  simp only
  generalize hroles : canonicalizeRoles rules rid (poolDefinedTerms rules terms) (dropNonActorCandidates candidates).1 = roles
  have hids : ∀ c ∈ (dropNonActorCandidates candidates).1,
      under Prod.fst c.roleName roles.nodeIds = some (c.roleName, roleOf rules rid c.roleName) :=
    fun c hc => hroles ▸ canonicalizeRoles_ids hc
  obtain ⟨g, hrun, hg⟩ := buildRequirementGraph_built hids
  rw [hrun]
  exact ⟨_, rfl, hg⟩

end Extraction

end PolicySystem.DomainMapper
