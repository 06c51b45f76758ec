import PolicySystem.CellarEli.NativeGroup
import PolicySystem.Graph.Trails
import PolicySystem.Order.StableSort

/-!
# The extraction units of a native graph

`read_native_units` (`domain_mapper/adapters/cellar_eli.py`) over a graph that answers its three queries.

* `articleCitation`, `paragraphCitation`, `annexCitation`: the citation patterns;
* `readNativeUnits`: the units, articles and paragraphs sorted by their numbers, then the annexes;
* `nativeHandle`: the answers of a graph.
-/

namespace PolicySystem.DomainMapper

open CellarEli Text StableSort

/-! ## Citations -/

/-- Digits as the group `(\d+)` takes them, with what follows. -/
def digitRun (digits : UnicodeDigits) (s : List Char) : Option (List Char × List Char) :=
  let number := s.takeWhile digits.isDecimal
  if number ≠ [] then some (number, s.dropWhile digits.isDecimal) else none

/-- `^Art\.\s*(\d+)`. -/
def articleStart (digits : UnicodeDigits) : List Char → Option (List Char × List Char)
  | 'A' :: 'r' :: 't' :: '.' :: s => digitRun digits (s.dropWhile isSpace)
  | _ => none

/-- `_ARTICLE_CITATION_RE`. -/
def articleCitation (digits : UnicodeDigits) (s : String) : Option String := do
  let (number, rest) ← articleStart digits s.toList
  if atEnd rest then some (String.ofList number) else none

/-- `_PARAGRAPH_CITATION_RE`. -/
def paragraphCitation (digits : UnicodeDigits) (s : String) : Option (String × String) := do
  let (article, rest) ← articleStart digits s.toList
  match rest with
  | '(' :: rest => do
    let (number, rest) ← digitRun digits rest
    match rest with
    | ')' :: rest => if atEnd rest then some (String.ofList article, String.ofList number) else none
    | _ => none
  | _ => none

/-- `_ANNEX_CITATION_RE`: a label of digits alone is refused. -/
def annexCitation (digits : UnicodeDigits) (s : String) : Option String :=
  match s.toList with
  | 'A' :: 'n' :: 'n' :: 'e' :: 'x' :: s =>
    let rest := s.dropWhile isSpace
    let label := rest.takeWhile fun c => !isSpace c
    if s.takeWhile isSpace ≠ [] ∧ label ≠ [] ∧ atEnd (rest.dropWhile fun c => !isSpace c) ∧
        ¬ label.all digits.isDecimal = true then some (String.ofList label)
    else none
  | _ => none

/-! ## Units -/

/-- `ExtractionUnit`. -/
structure ExtractionUnit where
  citationRef : String
  text : String
  articleNumber : String
  paragraphNumber : String
  articleHeading : String
  deriving DecidableEq

/-- Why the units cannot be read: a citation of an unexpected shape, or `int` of too many digits. -/
inductive ExtractionError where
  | articleShape (citationRef : String)
  | paragraphShape (citationRef : String)
  | annexShape (citationRef : String)
  | number (text : String)
  deriving DecidableEq

/-- A row of the article query. -/
structure ArticleRow where
  id : String
  citationRef : String
  text : String
  heading : String

/-- A row of the paragraph query or of the annex query. -/
structure CitedText where
  citationRef : String
  text : String

/-- A graph that answers the queries, each in the order it asks for. -/
structure NativeHandle where
  articles : String → List ArticleRow
  paragraphs : String → List CitedText
  annexes : String → List CitedText

section Read

variable (digits : UnicodeDigits)

/-- `_paragraph_unit`. -/
def paragraphUnit (heading : String) (row : CitedText) : Except ExtractionError ExtractionUnit :=
  match paragraphCitation digits row.citationRef with
  | none => .error (.paragraphShape row.citationRef)
  | some (article, number) => .ok ⟨row.citationRef, row.text, article, number, heading⟩

/-- `_units_for_article`. -/
def unitsForArticle (graph : NativeHandle) (row : ArticleRow) : Except ExtractionError (List ExtractionUnit) :=
  match articleCitation digits row.citationRef with
  | none => .error (.articleShape row.citationRef)
  | some number =>
    if graph.paragraphs row.id = [] then .ok [⟨row.citationRef, row.text, number, "1", row.heading⟩]
    else (graph.paragraphs row.id).mapM (paragraphUnit digits row.heading)

/-- `_annex_unit`. -/
def annexUnit (row : CitedText) : Except ExtractionError ExtractionUnit :=
  match annexCitation digits row.citationRef with
  | none => .error (.annexShape row.citationRef)
  | some label => .ok ⟨row.citationRef, row.text, label, "1", ""⟩

/-- `int(text)`. -/
def intOf (text : String) : Except ExtractionError ℤ :=
  match digits.pyInt text.toList with
  | some n => .ok n
  | none => .error (.number text)

/-- The key the units are sorted by. -/
def unitKey (unit : ExtractionUnit) : Except ExtractionError (ℤ ×ₗ ℤ) := do
  return toLex (← intOf digits unit.articleNumber, ← intOf digits unit.paragraphNumber)

/-- `units.sort(key=...)`. -/
def sortUnits (units : List ExtractionUnit) : Except ExtractionError (List ExtractionUnit) := do
  let keyed ← units.mapM fun unit => do return (← unitKey digits unit, unit)
  return (sortBy Prod.fst keyed).map Prod.snd

/-- `read_native_units`. -/
def readNativeUnits (graph : NativeHandle) (rid : String) : Except ExtractionError (List ExtractionUnit) := do
  let units ← (graph.articles rid).mapM (unitsForArticle digits graph)
  let sorted ← sortUnits digits units.flatten
  let annexes ← (graph.annexes rid).mapM (annexUnit digits)
  return sorted ++ annexes

end Read

/-! ## A graph's answers -/

section Answers

variable (scan : ScanOrder) (g : Graph)

/-- A text property of a node. -/
def textColumn (n : NodeRef) (key : String) : String :=
  match g.nodes[n]?.bind fun v => v.properties[key]? with
  | some (.scalar (.str s)) => s
  | _ => ""

/-- A node's `order`. -/
def orderColumn (n : NodeRef) : ℤ :=
  match g.nodes[n]?.bind fun v => v.properties["order"]? with
  | some (.scalar (.int i)) => i
  | _ => 0

/-- The stored `HAS` edges. -/
def hasRecords : List EdgeRecord := ((scan.order g.edges).map fun e => e.1.record).filter fun r => r.relType = "HAS"

/-- `(:RegulatoryInstrument {id: $rid})-[:HAS*1..]->(a:L)`: one row a trail. -/
def reachedNodes (rid label : String) : List NodeRef :=
  (Trails.trailEnds EdgeRecord.source EdgeRecord.target (hasRecords scan g).length (hasRecords scan g)
    (instrumentRef rid)).filter fun n => n.label = label

/-- `(:ARTICLE {id: $id})-[:HAS]->(p:PARAGRAPH)`. -/
def paragraphNodes (id : String) : List NodeRef :=
  ((hasRecords scan g).filter fun r => r.source = ⟨"ARTICLE", id⟩ ∧ r.target.label = "PARAGRAPH").map EdgeRecord.target

def citedText (n : NodeRef) : CitedText := ⟨textColumn g n "citation_ref", textColumn g n "text"⟩

def articleRow (n : NodeRef) : ArticleRow :=
  ⟨n.id, textColumn g n "citation_ref", textColumn g n "text", textColumn g n "heading"⟩

/-- The answers to the queries, `ORDER BY` after the match. -/
def nativeHandle : NativeHandle where
  articles rid := (sortBy NodeRef.id (reachedNodes scan g rid "ARTICLE")).map (articleRow g)
  paragraphs id := (sortBy (orderColumn g) (paragraphNodes scan g id)).map (citedText g)
  annexes rid := (sortBy (orderColumn g) (reachedNodes scan g rid "ANNEX")).map (citedText g)

end Answers

end PolicySystem.DomainMapper
