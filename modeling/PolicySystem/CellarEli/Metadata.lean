import PolicySystem.Dict.Grouped
import PolicySystem.Dict.LastWins
import PolicySystem.Text.LastSeparator
import PolicySystem.Text.PyInt
import PolicySystem.Xml.Element

/-!
# The effective date of a Cellar notice

What `extract_metadata` reads the date of an instrument from: the subject blocks of its RDF notice and the
`owl:Axiom` elements that name the role of a date.

* `baseCelex`: the base act of a CELEX number;
* `parseSubjectBlocks`, `parseReificationBlocks`: the two readings of the notice;
* `resolvePredicateCandidates`: the values that may be the date, from the act's own subjects or, failing these, from
  subjects that are no other act;
* `pickEffectiveDate`: the earliest of those of the first role.
-/

namespace PolicySystem.CellarEli

open Xml Text

/-! ## CELEX numbers -/

/-- What the texts are read with: the digits outside ASCII, which `\d` matches too, and `date.fromisoformat`, where a
date is its ordinal. -/
structure DateReader where
  digits : UnicodeDigits
  fromisoformat : String → Option ℕ

/-- `\d`. -/
def DateReader.isDecimal (reader : DateReader) (c : Char) : Bool := reader.digits.isDecimal c

/-- `$`: the end, or a line feed before it. -/
def atEnd (s : List Char) : Bool := s = [] ∨ s = ['\n']

/-- `n` characters of a class, and what follows them. -/
def takeExactly (p : Char → Bool) : ℕ → List Char → Option (List Char × List Char)
  | 0, s => some ([], s)
  | _ + 1, [] => none
  | n + 1, c :: s => if p c then (takeExactly p n s).map fun (taken, rest) => (c :: taken, rest) else none

/-- `[A-Z]{1,2}\d+`: the letters, the digits and what follows them. -/
def typedNumber (reader : DateReader) (s : List Char) : Option (List Char × List Char × List Char) :=
  let code := s.takeWhile Char.isUpper
  let rest := s.dropWhile Char.isUpper
  let number := rest.takeWhile reader.isDecimal
  if (code.length = 1 ∨ code.length = 2) ∧ number ≠ [] then some (code, number, rest.dropWhile reader.isDecimal)
  else none

/-- The type code that `_CELEX_TYPE_CODE_RE` matches. -/
def celexTypeCode (reader : DateReader) (identifier : String) : Option String := do
  let (_, rest) ← takeExactly reader.isDecimal 5 identifier.toList
  let (code, _, rest) ← typedNumber reader rest
  if atEnd rest then some (String.ofList code) else none

/-- The base group that `_CONSOLIDATED_CELEX_RE` matches: year, type and number. -/
def consolidatedGroup (reader : DateReader) (identifier : String) : Option String :=
  match identifier.toList with
  | '0' :: s => do
    let (year, rest) ← takeExactly reader.isDecimal 4 s
    let (code, number, rest) ← typedNumber reader rest
    match rest with
    | '-' :: stamp => do
      let (_, rest) ← takeExactly reader.isDecimal 8 stamp
      if atEnd rest then some (String.ofList (year ++ code ++ number)) else none
    | _ => none
  | _ => none

/-- Why no date could be read; the first three are a `CellarParseError`. -/
inductive MetadataError where
  | notCelex (identifier : String)
  | unsupportedTypeCode (code identifier : String)
  | noEffectiveDate (identifier : String) (predicateNames : List String)
  | invalidIsoformat (value : String)
  deriving DecidableEq

/-- `_base_celex`. -/
def baseCelex (reader : DateReader) (identifier : String) : Except MetadataError String :=
  match consolidatedGroup reader identifier with
  | some group => .ok ("3" ++ group)
  | none =>
    if identifier.toList.head? ≠ some '0' ∧ (celexTypeCode reader identifier).isSome then .ok identifier
    else .error (.notCelex identifier)

/-- `_base_celex_or_none`. -/
def baseCelexOrNone (reader : DateReader) (identifier : String) : Option String := (baseCelex reader identifier).toOption

/-- The types that a CELEX type code stands for. -/
inductive InstrumentType where
  | regulation
  | directive
  deriving DecidableEq

/-- `_INSTRUMENT_TYPE_BY_CELEX_CODE`. -/
def instrumentTypeByCelexCode : String → Option InstrumentType
  | "R" => some .regulation
  | "L" => some .directive
  | _ => none

/-- `_instrument_type_from_celex`. -/
def instrumentTypeFromCelex (reader : DateReader) (identifier : String) : Except MetadataError InstrumentType := do
  let identifier ← baseCelex reader identifier
  match celexTypeCode reader identifier with
  | none => .error (.notCelex identifier)
  | some code =>
    match instrumentTypeByCelexCode code with
    | none => .error (.unsupportedTypeCode code identifier)
    | some instrumentType => .ok instrumentType

/-! ## The notice -/

/-- `_local_name`: what follows the first closing brace of a tag in Clark notation. -/
def localName (tag : String) : String :=
  match tag.toList.dropWhile (· ≠ '}') with
  | [] => tag
  | _ :: name => String.ofList name

/-- `_full_text`. -/
def fullText (e : Element) : String := String.ofList (collapse e.itertext)

def rdfAbout : String := "\x7bhttp://www.w3.org/1999/02/22-rdf-syntax-ns#\x7dabout"

def rdfResource : String := "\x7bhttp://www.w3.org/1999/02/22-rdf-syntax-ns#\x7dresource"

/-- An asserted value with the subject and the predicate it is asserted of. -/
structure Triple where
  subject : String
  predicate : String
  value : String
  deriving DecidableEq

/-- What one element asserts of its subject: predicates and values, in order. -/
structure Block where
  subject : String
  values : List (String × String)
  deriving DecidableEq

/-- Subject to predicate to asserted values. -/
abbrev SubjectBlocks := List (String × List (String × List String))

/-- The element as a subject block, detected by its `rdf:about`. -/
def subjectBlock? (e : Element) : Option Block :=
  (e.get rdfAbout).map fun subject => ⟨subject, e.children.map fun child => (localName child.tag, fullText child)⟩

/-- Append a block's values to those its subject has: `setdefault(name, []).append(text)` under
`blocks.setdefault(subject_iri, {})`. -/
def addBlock (blocks : SubjectBlocks) (b : Block) : SubjectBlocks :=
  let predicates := ((LastWins.under Prod.fst b.subject blocks).map Prod.snd).getD []
  LastWins.put Prod.fst
    (b.subject, b.values.foldl (fun predicates v => Grouped.append v.1 v.2 predicates) predicates) blocks

/-- `annotation_token` matches in a text: what stands between an opening brace and the bar after it. No token holds
a brace, so the search may go on right behind the brace. -/
def findTokens : List Char → List String
  | [] => []
  | '\x7b' :: s =>
    let token := s.takeWhile fun c => c ≠ '|' ∧ c ≠ '\x7b' ∧ c ≠ '\x7d'
    if token ≠ [] ∧ s[token.length]? = some '|' then String.ofList token :: findTokens s else findTokens s
  | _ :: s => findTokens s

/-- The child of that local name, the last of several. -/
def childNamed (e : Element) (name : String) : Option Element := LastWins.last (fun c => localName c.tag) name e.children

/-- The element as the reification of a triple, with the tokens it puts on the triple. -/
def reification? (e : Element) : Option (Triple × List String) := do
  let source ← childNamed e "annotatedSource"
  let prop ← childNamed e "annotatedProperty"
  let target ← childNamed e "annotatedTarget"
  let subject ← source.get rdfResource
  let predicateUri ← prop.get rdfResource
  let predicate :=
    match splitLast '#' predicateUri.toList with
    | none => predicateUri
    | some (_, name) => String.ofList name
  let tokens := ["type_of_date", "comment_on_date"].flatMap fun label =>
    match childNamed e label with
    | none => []
    | some annotation => findTokens (collapse annotation.itertext)
  return (⟨subject, predicate, fullText target⟩, tokens)

/-- What a notice says: its subject blocks and its reification axioms, each in document order. -/
structure Notice where
  blocks : List Block
  axioms : List (Triple × List String)

def readNotice (root : Element) : Notice where
  blocks := root.iter.filterMap subjectBlock?
  axioms := root.iter.filterMap reification?

/-- `_parse_subject_blocks`. -/
def parseSubjectBlocks (n : Notice) : SubjectBlocks := n.blocks.foldl addBlock []

/-- `_parse_reification_blocks`: the last axiom about a triple is the one kept. -/
def parseReificationBlocks (n : Notice) : List (Triple × List String) := LastWins.collect Prod.fst n.axioms

/-! ## The candidates -/

/-- `predicates.get(name, [])`. -/
def valuesUnder (predicates : List (String × List String)) (name : String) : List String := (predicates.lookup name).getD []

def legalIdCelex : String := "resource_legal_id_celex"

/-- The subject asserts that it is the act. -/
def assertsOwn (reader : DateReader) (ownId : String) (predicates : List (String × List String)) : Bool :=
  some ownId ∈ (valuesUnder predicates legalIdCelex).map (baseCelexOrNone reader)

/-- `_own_subjects`. -/
def ownSubjects (reader : DateReader) (blocks : SubjectBlocks) (ownId : String) : List String :=
  (blocks.filter fun b => assertsOwn reader ownId b.2).map Prod.fst

/-- `_values_for`. -/
def valuesFor (blocks : SubjectBlocks) (predicateNames : List String) (subjects : List String) : List Triple :=
  (blocks.filter fun b => b.1 ∈ subjects).flatMap fun b =>
    predicateNames.flatMap fun name => (valuesUnder b.2 name).map fun value => ⟨b.1, name, value⟩

/-- `_resolve_predicate_candidates`. -/
def resolvePredicateCandidates (reader : DateReader) (blocks : SubjectBlocks) (identifier : String)
    (predicateNames : List String) : Except MetadataError (List Triple) := do
  let ownId ← baseCelex reader identifier
  let own := ownSubjects reader blocks ownId
  let ownMatches := valuesFor blocks predicateNames own
  if ownMatches ≠ [] then return ownMatches
  let excluded := (blocks.filter fun b => valuesUnder b.2 legalIdCelex ≠ [] ∧ !assertsOwn reader ownId b.2).map Prod.fst
  let widened := (blocks.map Prod.fst).filter fun subject => subject ∉ own ∧ subject ∉ excluded
  return valuesFor blocks predicateNames widened

/-! ## The date -/

/-- `_EFFECTIVE_DATE_PREDICATES_BY_INSTRUMENT_TYPE`. -/
def effectiveDatePredicates : InstrumentType → List String
  | .regulation => ["date_entry-into-force", "resource_legal_date_entry-into-force"]
  | .directive => ["date_transposition", "directive_date_transposition"]

inductive DateRole where
  | maGeneral
  | ev
  | maPart
  | adoption
  | application
  deriving DecidableEq

/-- `_DATE_ROLE_PRIORITY_BY_INSTRUMENT_TYPE`. -/
def dateRolePriority : InstrumentType → List DateRole
  | .regulation => [.maGeneral, .ev, .maPart]
  | .directive => [.adoption, .application]

/-- `_date_role`. -/
def dateRole (instrumentType : InstrumentType) (tokens : List String) : Option DateRole :=
  match instrumentType with
  | .regulation =>
    if "MA" ∈ tokens then if "MA/PART" ∈ tokens then some .maPart else some .maGeneral
    else if "EV" ∈ tokens then some .ev else none
  | .directive =>
    if "ADOPTION" ∈ tokens then some .adoption
    else if "APPLICATION" ∈ tokens then some .application else none

/-- `reifications.get(triple, frozenset())`. -/
def tokensOf (reifications : List (Triple × List String)) (t : Triple) : List String :=
  ((LastWins.under Prod.fst t reifications).map Prod.snd).getD []

/-- `date.fromisoformat`, which raises. -/
def readDate (reader : DateReader) (value : String) : Except MetadataError ℕ :=
  match reader.fromisoformat value with
  | none => .error (.invalidIsoformat value)
  | some date => .ok date

/-- `by_role[role]`. -/
def bucket (dated : List (ℕ × Option DateRole)) (role : DateRole) : List ℕ :=
  (dated.filter fun d => d.2 = some role).map Prod.fst

/-- `_pick_effective_date`. -/
def pickEffectiveDate (reader : DateReader) (candidates : List Triple) (reifications : List (Triple × List String))
    (instrumentType : InstrumentType) : Except MetadataError (Option ℕ) := do
  if candidates = [] then return none
  let dated ← candidates.mapM fun t => do
    let date ← readDate reader t.value
    return (date, dateRole instrumentType (tokensOf reifications t))
  match (dateRolePriority instrumentType).findSome? fun role => (bucket dated role).min? with
  | some date => return some date
  | none => return (dated.map Prod.fst).min?

/-- `_find_effective_date_from_rdf`. -/
def findEffectiveDateFromRdf (reader : DateReader) (n : Notice) (identifier : String) (instrumentType : InstrumentType) :
    Except MetadataError (Option ℕ) := do
  let candidates ← resolvePredicateCandidates reader (parseSubjectBlocks n) identifier (effectiveDatePredicates instrumentType)
  pickEffectiveDate reader candidates (parseReificationBlocks n) instrumentType

/-- The effective date that `extract_metadata` gives an act by its notice. -/
def effectiveDate (reader : DateReader) (n : Notice) (identifier : String) : Except MetadataError ℕ := do
  let instrumentType ← instrumentTypeFromCelex reader identifier
  match ← findEffectiveDateFromRdf reader n identifier instrumentType with
  | some date => return date
  | none => .error (.noEffectiveDate identifier (effectiveDatePredicates instrumentType))

end PolicySystem.CellarEli
