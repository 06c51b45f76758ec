import PolicySystem.Cleanup.MergePlanner

/-!
# What an approval signs of the graph

The state digests of the Capability and Role merges (`_digest` of `merge_planner.py` and of `role_planner.py`), and
the duplicate rule the Role digest rests on (`duplicate_text_basis`). SHA-256 and the Unicode tables of `casefold` and
`\w` are parameters.
-/

namespace PolicySystem

open Text (Json)

/-! ## Snapshots as JSON -/

/-- `NodeRecord.model_dump(mode="json")`. -/
def NodeRecord.modelDump (n : NodeRecord) : Json Double :=
  dict [("label", .str n.label), ("id", .str n.id), ("properties", propertiesJson n.properties)]

/-- `EdgeRecord.model_dump(mode="json")`. -/
def EdgeRecord.modelDump (e : EdgeRecord) : Json Double :=
  dict [("rel_type", .str e.relType), ("source_label", .str e.sourceLabel), ("source_id", .str e.sourceId),
    ("target_label", .str e.targetLabel), ("target_id", .str e.targetId)]

/-- `GraphSnapshot.model_dump(mode="json")`. -/
def GraphSnapshot.modelDump (s : GraphSnapshot) : Json Double :=
  dict [("nodes", .arr (s.nodes.map NodeRecord.modelDump)), ("edges", .arr (s.edges.map EdgeRecord.modelDump))]

/-- `_digest` of a Capability merge. -/
def capabilityStateDigest (sha256 : Bytes → String) (before : GraphSnapshot) : String :=
  canonicalDigest sha256 before.modelDump

/-! ## Duplicate texts -/

/-- `str.casefold`, and whether a character is a `\w`. -/
structure TextRules where
  casefold : String → String
  isWord : Char → Bool

/-- The maximal runs of alphanumerics of the casefolded text. -/
def TextRules.words (rules : TextRules) (name : String) : List String :=
  (((rules.casefold name).toList.splitOnP fun c => !rules.isWord c || c = '_').filter (· ≠ [])).map String.ofList

/-- `normalise_name`. -/
def TextRules.normaliseName (rules : TextRules) (name : String) : String := " ".intercalate (rules.words name)

inductive DuplicateBasis where
  | identicalText
  | nearText
  deriving DecidableEq

def DuplicateBasis.text : DuplicateBasis → String
  | identicalText => "identical_text"
  | nearText => "near_text"

/-- `_jaccard(...) >= OBLIGATION_NEAR_TEXT_MIN_JACCARD`, the floor being 0.8; two empty sets have 0.0. -/
def jaccardAtLeastFloor (left right : Finset String) : Bool :=
  (left ∪ right).card ≠ 0 && 4 * (left ∪ right).card ≤ 5 * (left ∩ right).card

/-- `duplicate_text_basis`. -/
def duplicateTextBasis (rules : TextRules) (left right : String) : Option DuplicateBasis :=
  if rules.normaliseName left = rules.normaliseName right then some .identicalText
  else if jaccardAtLeastFloor (rules.words left).toFinset (rules.words right).toFinset then some .nearText
  else none

/-- `ObligationDuplicatePair`. -/
structure ObligationDuplicatePair where
  survivorObligationId : String
  survivorText : String
  absorbedObligationId : String
  absorbedText : String
  basis : DuplicateBasis
  deriving DecidableEq

/-- A row's `o.text`; the outer `none` is a refused row. -/
def obligationText (g : Graph) (id : String) : Option (Option String) :=
  (g.nodes[(⟨"Obligation", id⟩ : NodeRef)]?).bind fun content => optionalColumn content.properties["text"]?

/-- The texts `read_role_merge_state` reads with the `HAS` edges, the missing ones left out. -/
def readObligationTexts (g : Graph) (state : RoleMergeState) : Option (List (String × String)) := do
  let rows ← (state.survivorObligationIds ++ state.absorbedObligationIds).mapM fun id =>
    (obligationText g id).map fun text => text.map fun text => (id, text)
  return rows.filterMap id

/-- `_duplicate_pairs`. -/
def duplicatePairs (rules : TextRules) (state : RoleMergeState) (texts : List (String × String)) :
    List ObligationDuplicatePair :=
  (sortedList state.survivorObligationIds).flatMap fun s =>
    (sortedList state.absorbedObligationIds).filterMap fun a => do
      let survivorText ← texts.lookup s
      let absorbedText ← texts.lookup a
      let basis ← duplicateTextBasis rules survivorText absorbedText
      return ⟨s, survivorText, a, absorbedText, basis⟩

/-! ## The Role digest -/

def ObligationDuplicatePair.modelDump (p : ObligationDuplicatePair) : Json Double :=
  dict [("survivor_obligation_id", .str p.survivorObligationId), ("survivor_text", .str p.survivorText),
    ("absorbed_obligation_id", .str p.absorbedObligationId), ("absorbed_text", .str p.absorbedText),
    ("basis", .str p.basis.text)]

/-- The `DEFINES` edges of a side in the digest. -/
def definesJson (side : String) (defines : List RoleDefines) : List (Json Double) :=
  defines.map fun d => .arr [.str side, .str d.instrumentId, optionJson d.sourceRef]

/-- `_digest` of a Role merge. A validated state has one `DEFINES` edge a side, so sorting puts the absorbed one first. -/
def roleStateDigest (sha256 : Bytes → String) (before : GraphSnapshot) (state : RoleMergeState)
    (pairs : List ObligationDuplicatePair) : String :=
  canonicalDigest sha256 (dict [("before", before.modelDump),
    ("defines", .arr (definesJson "absorbed" state.absorbedDefines ++ definesJson "survivor" state.survivorDefines)),
    ("survivor_has", stringsJson (sortedList state.survivorObligationIds)),
    ("duplicate_pairs", .arr (pairs.map ObligationDuplicatePair.modelDump))])

end PolicySystem
