import PolicySystem.CellarEli.Metadata

/-!
# The native structure of a Cellar document

`parse_structure`: the walk over an XHTML document that mints a node for every chapter, section, article, paragraph,
recital and annex, and an edge from its parent.

* `paragraphNumber`, `articleParts`: what the children of an article are;
* `walkBody`: the walk over the enacting terms, where any other `div` is passed through;
* `mintAnnexes`: the annexes of both conventions, one a number.
-/

namespace PolicySystem.CellarEli

open Xml Text

/-! ## Labels and ids -/

/-- `RegulatoryInstrument` and the element types that are minted. -/
inductive Label where
  | regulatoryInstrument
  | chapter
  | section
  | article
  | paragraph
  | annex
  | recital
  deriving DecidableEq

/-- The element kinds that `_STRUCT_ID_RE` tells apart. -/
inductive Kind where
  | cpt
  | sct
  | art
  | anx
  | rct
  deriving DecidableEq

/-- `_ELEMENT_LABEL`, articles included. -/
def Kind.label : Kind → Label
  | .cpt => .chapter
  | .sct => .section
  | .art => .article
  | .anx => .annex
  | .rct => .recital

/-- `_CITATION_WORD`. -/
def Kind.citationWord : Kind → String
  | .cpt => "Chapter"
  | .sct => "Section"
  | .art => "Art."
  | .anx => "Annex"
  | .rct => "Recital"

def isAsciiAlnum (c : Char) : Bool := c.isUpper || c.isLower || c.isDigit

/-- `[A-Za-z0-9]+$`. -/
def elementNumber (s : List Char) : Option String :=
  let number := s.takeWhile isAsciiAlnum
  if number ≠ [] ∧ atEnd (s.dropWhile isAsciiAlnum) then some (String.ofList number) else none

/-- The kind and the number that `_STRUCT_ID_RE` matches. -/
def structId (id : String) : Option (Kind × String) :=
  match id.toList with
  | 'c' :: 'p' :: 't' :: '_' :: s => (elementNumber s).map (.cpt, ·)
  | 's' :: 'c' :: 't' :: '_' :: s => (elementNumber s).map (.sct, ·)
  | 'a' :: 'r' :: 't' :: '_' :: s => (elementNumber s).map (.art, ·)
  | 'a' :: 'n' :: 'x' :: '_' :: s => (elementNumber s).map (.anx, ·)
  | 'r' :: 'c' :: 't' :: '_' :: s => (elementNumber s).map (.rct, ·)
  | _ => none

/-- The second group that `_PARAGRAPH_ID_RE` matches. -/
def paragraphIdNumber (digits : UnicodeDigits) (id : String) : Option (List Char) := do
  let (_, rest) ← takeExactly digits.isDecimal 3 id.toList
  match rest with
  | '.' :: rest => do
    let (number, rest) ← takeExactly digits.isDecimal 3 rest
    if atEnd rest then some number else none
  | _ => none

/-! ## Elements -/

/-- `_own_class`. -/
def ownClass (e : Element) : String := (e.get "class").getD ""

/-- `element.get("id") or ""`. -/
def ownId (e : Element) : String := (e.get "id").getD ""

/-- The tag is that name once the namespaces are stripped. -/
def hasTag (e : Element) (name : String) : Bool := localName e.tag = name

/-- `_LABEL_ONLY_CLASSES`. -/
def labelOnlyClasses : List String := ["oj-ti-art", "oj-ti-section-1", "oj-doc-ti", "title-article-norm", "stitle-article-norm"]

/-- `_is_label_only`. -/
def isLabelOnly (e : Element) : Bool :=
  match words (ownClass e).toList with
  | [] => false
  | first :: _ => String.ofList first ∈ labelOnlyClasses

/-- The element is a heading: `eli-title` or an id in `.tit_1`. -/
def isHeading (e : Element) : Bool := ownClass e = "eli-title" || (ownId e).endsWith ".tit_1"

/-- `_heading_text`. -/
def headingText (e : Element) : String :=
  match e.children.find? isHeading with
  | some heading => fullText heading
  | none => ""

/-- Why a document has no structure. -/
inductive StructureError where
  | noMainContainer
  | invalidNumber (text : List Char)
  deriving DecidableEq

/-- `_PARAGRAPH_NUMBER_LEADING_STRIP`. -/
def leadingStrip : List Char := ['\u2018', '\u2019', Char.ofNat 0x27, '\u25ba', '\u25bc', ' ']

/-- `s.rstrip(". ")`. -/
def rstripDots (s : List Char) : List Char := (s.reverse.dropWhile fun c => c = '.' || c = ' ').reverse

/-- `_normalise_paragraph_number`: `int` raises on digits that are no decimal digits. -/
def normaliseParagraphNumber (digits : UnicodeDigits) (raw : List Char) : Except StructureError String :=
  let cleaned := UnicodeDigits.strip (rstripDots ((UnicodeDigits.strip raw).dropWhile (· ∈ leadingStrip)))
  if cleaned ≠ [] ∧ cleaned.all digits.isDigit then
    match digits.pyInt cleaned with
    | some n => .ok (toString n)
    | none => .error (.invalidNumber cleaned)
  else .ok (String.ofList cleaned)

/-- `_paragraph_number`. -/
def paragraphNumber (digits : UnicodeDigits) (child : Element) : Except StructureError (Option String) :=
  match paragraphIdNumber digits (ownId child) with
  | some number => (normaliseParagraphNumber digits number).map some
  | none =>
    if "norm".toList ∉ words (ownClass child).toList then .ok none
    else
      -- the first marker that is not blank
      match child.iter.find? fun span => hasTag span "span" && decide (ownClass span = "no-parag") &&
          decide (UnicodeDigits.strip span.itertext ≠ []) with
      | some span => (normaliseParagraphNumber digits (UnicodeDigits.strip span.itertext)).map some
      | none => .ok none

/-! ## Nodes and edges -/

structure StructuralNode where
  elementType : Label
  id : String
  text : Option String
  citationRef : String
  heading : Option String
  order : ℕ
  deriving DecidableEq

structure StructuralEdge where
  parentElementType : Label
  parentId : String
  childElementType : Label
  childId : String
  deriving DecidableEq

/-- `_StructuralSink`: what has been minted, each node with the element it was minted for. -/
structure StructuralSink where
  nodes : List (Element × StructuralNode)
  edges : List StructuralEdge
  annexes : List (Element × String)

/-- Append a node and its edge. -/
def StructuralSink.mint (sink : StructuralSink) (source : Element) (node : StructuralNode) (parentLabel : Label)
    (parentId : String) : StructuralSink :=
  { sink with
    nodes := sink.nodes ++ [(source, node)]
    edges := sink.edges ++ [⟨parentLabel, parentId, node.elementType, node.id⟩] }

/-- `f"{regulatory_instrument_id}#{local_id}"`. -/
def nodeId (regulatoryInstrumentId localId : String) : String := regulatoryInstrumentId ++ "#" ++ localId

/-! ## Articles -/

/-- What the loop over the children of an article has found. -/
structure ArticleParts where
  heading : String
  ownTextParts : List String
  paragraphChildren : List (Element × String)

/-- One child of an article. -/
def articleStep (digits : UnicodeDigits) (parts : ArticleParts) (child : Element) : Except StructureError ArticleParts :=
  if isHeading child then .ok { parts with heading := fullText child }
  else if isLabelOnly child then .ok parts
  else do
    match ← paragraphNumber digits child with
    | some number => return { parts with paragraphChildren := parts.paragraphChildren ++ [(child, number)] }
    | none =>
      let text := fullText child
      if text = "" then return parts else return { parts with ownTextParts := parts.ownTextParts ++ [text] }

def articleParts (digits : UnicodeDigits) (div : Element) : Except StructureError ArticleParts :=
  div.children.foldlM (articleStep digits) ⟨"", [], []⟩

/-- The article's own text: none where it has paragraphs. -/
def ArticleParts.text (parts : ArticleParts) : String :=
  if parts.paragraphChildren ≠ [] then "" else " ".intercalate parts.ownTextParts

/-- The id of a paragraph within its instrument. -/
def paragraphLocalId (articleLocalId : String) (paragraph : Element × String) : String :=
  if ownId paragraph.1 = "" then articleLocalId ++ ".p" ++ paragraph.2 else ownId paragraph.1

/-- The node of a paragraph. -/
def paragraphNode (rid articleLocalId articleNumber : String) (paragraph : Element × String) (order : ℕ) : StructuralNode where
  elementType := .paragraph
  id := nodeId rid (paragraphLocalId articleLocalId paragraph)
  text := some (fullText paragraph.1)
  citationRef := "Art. " ++ articleNumber ++ "(" ++ paragraph.2 ++ ")"
  heading := none
  order

/-- `_mint_paragraph` for the paragraphs of an article, numbered from `order`. -/
def mintParagraphs (rid articleLocalId articleNumber : String) :
    List (Element × String) → ℕ → StructuralSink → StructuralSink
  | [], _, sink => sink
  | paragraph :: paragraphs, order, sink =>
    mintParagraphs rid articleLocalId articleNumber paragraphs (order + 1)
      (sink.mint paragraph.1 (paragraphNode rid articleLocalId articleNumber paragraph (order + 1)) .article
        (nodeId rid articleLocalId))

/-- The node of an article. -/
def articleNode (rid localId number : String) (parts : ArticleParts) (order : ℕ) : StructuralNode where
  elementType := .article
  id := nodeId rid localId
  text := some parts.text
  citationRef := "Art. " ++ number
  heading := some parts.heading
  order

/-- `_walk_article`. -/
def walkArticle (digits : UnicodeDigits) (rid : String) (div : Element) (number : String) (parentLabel : Label)
    (parentId : String) (order : ℕ) (sink : StructuralSink) : Except StructureError StructuralSink := do
  let parts ← articleParts digits div
  let sink := sink.mint div (articleNode rid (ownId div) number parts order) parentLabel parentId
  return mintParagraphs rid (ownId div) number parts.paragraphChildren 0 sink

/-! ## The walk -/

/-- The node that `_mint_struct_node` mints for a chapter, a section or a recital. -/
def structNode (rid : String) (kind : Kind) (number : String) (child : Element) (order : ℕ) : StructuralNode where
  elementType := kind.label
  id := nodeId rid (ownId child)
  text := if kind = .rct then some (fullText child) else none
  citationRef := kind.citationWord ++ " " ++ number
  heading := if kind = .rct then none else some (headingText child)
  order

mutual

/-- `_walk_body`: the children in turn, `order` siblings being numbered under the parent already. -/
def walkBody (digits : UnicodeDigits) (rid : String) (parentLabel : Label) (parentId : String) :
    List Element → ℕ → StructuralSink → Except StructureError (ℕ × StructuralSink)
  | [], order, sink => .ok (order, sink)
  | child :: children, order, sink => do
    let (order, sink) ← walkChild digits rid parentLabel parentId child order sink
    walkBody digits rid parentLabel parentId children order sink

/-- One child: a `div` whose id names no structural element is passed through. -/
def walkChild (digits : UnicodeDigits) (rid : String) (parentLabel : Label) (parentId : String) :
    Element → ℕ → StructuralSink → Except StructureError (ℕ × StructuralSink)
  | .mk position tag attributes text children tail, order, sink =>
    let child := Element.mk position tag attributes text children tail
    if hasTag child "div" = false then .ok (order, sink)
    else
      match structId (ownId child) with
      | none => walkBody digits rid parentLabel parentId children order sink
      | some (.art, number) => do
        let sink ← walkArticle digits rid child number parentLabel parentId (order + 1) sink
        return (order + 1, sink)
      | some (.anx, number) => .ok (order, { sink with annexes := sink.annexes ++ [(child, number)] })
      | some (.rct, number) => .ok (order + 1, sink.mint child (structNode rid .rct number child (order + 1)) parentLabel parentId)
      | some (kind, number) => do
        let sink := sink.mint child (structNode rid kind number child (order + 1)) parentLabel parentId
        let (_, sink) ← walkBody digits rid kind.label (nodeId rid (ownId child)) children 0 sink
        return (order + 1, sink)

end

/-! ## Annexes -/

/-- The number of an annex, where the id is one of an annex. -/
def annexNumber (e : Element) : Option String :=
  match structId (ownId e) with
  | some (.anx, number) => some number
  | _ => none

/-- The `eli-container` divs. -/
def containersOf (root : Element) : List Element :=
  root.iter.filter fun e => hasTag e "div" && decide (ownClass e = "eli-container")

/-- The first container that is no annex. -/
def mainContainer (containers : List Element) : Option Element := containers.find? fun e => (annexNumber e).isNone

/-- The annexes that have a container of their own. -/
def separateAnnexes (containers : List Element) : List (Element × String) :=
  containers.filterMap fun e => (annexNumber e).map (e, ·)

/-- `_split_containers`. -/
def splitContainers (containers : List Element) : Except StructureError (Element × List (Element × String)) :=
  match mainContainer containers with
  | none => .error .noMainContainer
  | some main => .ok (main, separateAnnexes containers)

/-- The node of an annex. -/
def annexNode (rid : String) (annex : Element × String) (order : ℕ) : StructuralNode where
  elementType := .annex
  id := nodeId rid (ownId annex.1)
  text := some (fullText annex.1)
  citationRef := "Annex " ++ annex.2
  heading := none
  order

/-- `_mint_annexes`: the first annex of each number, `seen` being the numbers minted already. -/
def mintAnnexes (rid : String) : List (Element × String) → List String → StructuralSink → StructuralSink
  | [], _, sink => sink
  | annex :: annexes, seen, sink =>
    if annex.2 ∈ seen then mintAnnexes rid annexes seen sink
    else mintAnnexes rid annexes (seen ++ [annex.2])
      (sink.mint annex.1 (annexNode rid annex (seen.length + 1)) .regulatoryInstrument rid)

/-- `parse_structure`, each node with the element it is minted for. -/
def parseStructure (digits : UnicodeDigits) (root : Element) (rid : String) :
    Except StructureError (List (Element × StructuralNode) × List StructuralEdge) := do
  let (main, separate) ← splitContainers (containersOf root)
  let (_, sink) ← walkBody digits rid .regulatoryInstrument rid main.children 0 ⟨[], [], []⟩
  let sink := mintAnnexes rid (separate ++ sink.annexes) [] sink
  return (sink.nodes, sink.edges)

end PolicySystem.CellarEli
