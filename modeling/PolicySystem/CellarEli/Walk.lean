import PolicySystem.CellarEli.Structure
import PolicySystem.Dict.FirstWins

/-!
# What the walk over a document mints

* `Walked`: the walk as a relation, one rule for each kind of child;
* `walkBody_walked`: every run of `_walk_body` is such a walk;
* `Walked.structural`: the walk mints the structural elements of the document, in document order.
-/

namespace PolicySystem.CellarEli

open Xml Text

variable {digits : UnicodeDigits} {rid parentId : String} {parentLabel : Label}

/-! ## Mints -/

/-- A node with its edge and the element it is minted for. -/
structure Mint where
  source : Element
  node : StructuralNode
  parentLabel : Label
  parentId : String

/-- A node by label and id. -/
abbrev NodeKey := Label × String

def Mint.key (m : Mint) : NodeKey := (m.node.elementType, m.node.id)

def Mint.parent (m : Mint) : NodeKey := (m.parentLabel, m.parentId)

def Mint.edge (m : Mint) : StructuralEdge := ⟨m.parentLabel, m.parentId, m.node.elementType, m.node.id⟩

def Mint.sourced (m : Mint) : Element × StructuralNode := (m.source, m.node)

/-- The sink that holds these mints and annexes. -/
def sinkOf (ms : List Mint) (annexes : List (Element × String)) : StructuralSink := ⟨ms.map Mint.sourced, ms.map Mint.edge, annexes⟩

theorem mint_sinkOf (ms : List Mint) (annexes : List (Element × String)) (source : Element) (node : StructuralNode)
    (parentLabel : Label) (parentId : String) :
    (sinkOf ms annexes).mint source node parentLabel parentId = sinkOf (ms ++ [⟨source, node, parentLabel, parentId⟩]) annexes := by
  simp [sinkOf, StructuralSink.mint, Mint.sourced, Mint.edge]

/-- The mints for the paragraphs of an article, numbered from `order`. -/
def paragraphMints (rid articleLocalId articleNumber : String) : List (Element × String) → ℕ → List Mint
  | [], _ => []
  | paragraph :: paragraphs, order =>
    ⟨paragraph.1, paragraphNode rid articleLocalId articleNumber paragraph (order + 1), .article, nodeId rid articleLocalId⟩ ::
      paragraphMints rid articleLocalId articleNumber paragraphs (order + 1)

/-- The mints for an article. -/
def articleMints (rid : String) (div : Element) (number : String) (parts : ArticleParts) (parentLabel : Label)
    (parentId : String) (order : ℕ) : List Mint :=
  ⟨div, articleNode rid (ownId div) number parts order, parentLabel, parentId⟩ ::
    paragraphMints rid (ownId div) number parts.paragraphChildren 0

theorem mintParagraphs_sinkOf {articleLocalId number : String} {paragraphs : List (Element × String)} {order : ℕ}
    {ms : List Mint} {annexes : List (Element × String)} :
    mintParagraphs rid articleLocalId number paragraphs order (sinkOf ms annexes) =
      sinkOf (ms ++ paragraphMints rid articleLocalId number paragraphs order) annexes := by
  induction paragraphs generalizing order ms with
  | nil => simp [mintParagraphs, paragraphMints]
  | cons paragraph paragraphs ih => simp [mintParagraphs, paragraphMints, mint_sinkOf, ih]

/-! ## The walk -/

/-- The walk over siblings under a parent that has `order` children already: what it mints, the annexes it meets, and
how many children the parent has then. -/
inductive Walked (digits : UnicodeDigits) (rid : String) :
    Label → String → List Element → ℕ → List Mint → List (Element × String) → ℕ → Prop
  | nil {parentLabel parentId order} : Walked digits rid parentLabel parentId [] order [] [] order
  | cons {parentLabel parentId child children order ms annexes order' ms' annexes' order''}
      (first : Walked digits rid parentLabel parentId [child] order ms annexes order')
      (rest : Walked digits rid parentLabel parentId children order' ms' annexes' order'') :
      Walked digits rid parentLabel parentId (child :: children) order (ms ++ ms') (annexes ++ annexes') order''
  | skip {parentLabel parentId child order} (htag : hasTag child "div" = false) :
      Walked digits rid parentLabel parentId [child] order [] [] order
  | pass {parentLabel parentId child order ms annexes order'} (htag : hasTag child "div" = true)
      (hid : structId (ownId child) = none)
      (inner : Walked digits rid parentLabel parentId child.children order ms annexes order') :
      Walked digits rid parentLabel parentId [child] order ms annexes order'
  | article {parentLabel parentId child number parts order} (htag : hasTag child "div" = true)
      (hid : structId (ownId child) = some (.art, number)) (hparts : articleParts digits child = .ok parts) :
      Walked digits rid parentLabel parentId [child] order
        (articleMints rid child number parts parentLabel parentId (order + 1)) [] (order + 1)
  | annex {parentLabel parentId child number order} (htag : hasTag child "div" = true)
      (hid : structId (ownId child) = some (.anx, number)) :
      Walked digits rid parentLabel parentId [child] order [] [(child, number)] order
  | recital {parentLabel parentId child number order} (htag : hasTag child "div" = true)
      (hid : structId (ownId child) = some (.rct, number)) :
      Walked digits rid parentLabel parentId [child] order
        [⟨child, structNode rid .rct number child (order + 1), parentLabel, parentId⟩] [] (order + 1)
  | container {parentLabel parentId child kind number order ms annexes order'} (htag : hasTag child "div" = true)
      (hid : structId (ownId child) = some (kind, number)) (hkind : kind = .cpt ∨ kind = .sct)
      (inner : Walked digits rid kind.label (nodeId rid (ownId child)) child.children 0 ms annexes order') :
      Walked digits rid parentLabel parentId [child] order
        (⟨child, structNode rid kind number child (order + 1), parentLabel, parentId⟩ :: ms) annexes (order + 1)

mutual

/-- **Every run of the walk is a walk.** -/
theorem walkBody_walked : ∀ (children : List Element) {parentLabel : Label} {parentId : String} {order : ℕ} {ms : List Mint}
    {annexes : List (Element × String)} {r : ℕ × StructuralSink},
    walkBody digits rid parentLabel parentId children order (sinkOf ms annexes) = .ok r →
      ∃ ms' annexes', Walked digits rid parentLabel parentId children order ms' annexes' r.1 ∧
        r.2 = sinkOf (ms ++ ms') (annexes ++ annexes')
  | [], _, _, _, _, _, r, h => by
    obtain rfl := Except.ok.inj h
    exact ⟨[], [], .nil, by simp⟩
  | child :: children, parentLabel, parentId, order, ms, annexes, r, h => by
    unfold walkBody at h
    cases hchild : walkChild digits rid parentLabel parentId child order (sinkOf ms annexes) with
    | error e =>
      rw [hchild] at h
      cases h
    | ok first =>
      obtain ⟨ms₁, annexes₁, hfirst, hsink⟩ := walkChild_walked child hchild
      rw [hchild] at h
      obtain ⟨order', sink'⟩ := first
      simp only at hsink
      subst hsink
      obtain ⟨ms₂, annexes₂, hrest, hsink⟩ := walkBody_walked children h
      exact ⟨ms₁ ++ ms₂, annexes₁ ++ annexes₂, .cons hfirst hrest, by rw [hsink, List.append_assoc, List.append_assoc]⟩

theorem walkChild_walked : ∀ (child : Element) {parentLabel : Label} {parentId : String} {order : ℕ} {ms : List Mint}
    {annexes : List (Element × String)} {r : ℕ × StructuralSink},
    walkChild digits rid parentLabel parentId child order (sinkOf ms annexes) = .ok r →
      ∃ ms' annexes', Walked digits rid parentLabel parentId [child] order ms' annexes' r.1 ∧
        r.2 = sinkOf (ms ++ ms') (annexes ++ annexes')
  | .mk position tag attributes text children tail, parentLabel, parentId, order, ms, annexes, r, h => by
    unfold walkChild at h
    simp only at h
    split at h
    · rename_i htag
      obtain rfl := Except.ok.inj h
      exact ⟨[], [], .skip htag, by simp⟩
    · rename_i htag
      rw [Bool.not_eq_false] at htag
      split at h
      · rename_i hid
        obtain ⟨ms', annexes', hinner, hsink⟩ := walkBody_walked children h
        exact ⟨ms', annexes', .pass htag hid hinner, hsink⟩
      · rename_i number hid
        unfold walkArticle at h
        cases hparts : articleParts digits (.mk position tag attributes text children tail) with
        | error e =>
          rw [hparts] at h
          cases h
        | ok parts =>
          rw [hparts] at h
          obtain rfl := Except.ok.inj h
          refine ⟨_, [], .article htag hid hparts, ?_⟩
          rw [mint_sinkOf, mintParagraphs_sinkOf, List.append_nil, List.append_assoc]
          rfl
      · rename_i number hid
        obtain rfl := Except.ok.inj h
        exact ⟨[], [(_, number)], .annex htag hid, by simp [sinkOf]⟩
      · rename_i number hid
        obtain rfl := Except.ok.inj h
        exact ⟨_, [], .recital htag hid, by rw [mint_sinkOf, List.append_nil]⟩
      · rename_i kind number hart hanx hrct hid
        have hkind : kind = .cpt ∨ kind = .sct := by
          cases kind with
          | cpt => exact .inl rfl
          | sct => exact .inr rfl
          | art => exact absurd rfl hart
          | anx => exact absurd rfl hanx
          | rct => exact absurd rfl hrct
        rw [mint_sinkOf] at h
        cases hbody : walkBody digits rid kind.label (nodeId rid (ownId (.mk position tag attributes text children tail)))
            children 0 (sinkOf (ms ++ [⟨_, structNode rid kind number (.mk position tag attributes text children tail) (order + 1),
              parentLabel, parentId⟩]) annexes) with
        | error e =>
          rw [hbody] at h
          cases h
        | ok inner =>
          obtain ⟨ms', annexes', hinner, hsink⟩ := walkBody_walked children hbody
          rw [hbody] at h
          obtain rfl := Except.ok.inj h
          refine ⟨_, annexes', .container htag hid hkind hinner, ?_⟩
          show inner.2 = _
          rw [hsink, List.append_assoc]
          rfl

end

/-! ## The children of an article -/

/-- The child is neither a heading nor a bare label. -/
def isContent (e : Element) : Bool := !isHeading e && !isLabelOnly e

/-- The child as a numbered paragraph. -/
def paragraph? (digits : UnicodeDigits) (e : Element) : Option (Element × String) :=
  if isContent e then
    match paragraphNumber digits e with
    | .ok (some number) => some (e, number)
    | _ => none
  else none

/-- The text of a child that is content and no paragraph. -/
def ownText? (digits : UnicodeDigits) (e : Element) : Option String :=
  if isContent e ∧ paragraph? digits e = none ∧ fullText e ≠ "" then some (fullText e) else none

theorem articleStep_ok {child : Element} {parts parts' : ArticleParts} (h : articleStep digits parts child = .ok parts') :
    parts'.paragraphChildren = parts.paragraphChildren ++ (paragraph? digits child).toList ∧
      parts'.ownTextParts = parts.ownTextParts ++ (ownText? digits child).toList := by
  unfold articleStep at h
  split at h
  · rename_i hheading
    obtain rfl := Except.ok.inj h
    simp [paragraph?, ownText?, isContent, hheading]
  · rename_i hheading
    split at h
    · rename_i hlabel
      obtain rfl := Except.ok.inj h
      simp [paragraph?, ownText?, isContent, hlabel]
    · rename_i hlabel
      have hcontent : isContent child = true := by simp [isContent, hheading, hlabel]
      cases hnumber : paragraphNumber digits child with
      | error e =>
        rw [hnumber] at h
        cases h
      | ok number =>
        rw [hnumber] at h
        cases number with
        | some number =>
          obtain rfl := Except.ok.inj h
          simp [paragraph?, ownText?, hcontent, hnumber]
        | none =>
          by_cases htext : fullText child = ""
          · have heq := (if_pos htext).symm.trans h
            obtain rfl := Except.ok.inj heq
            simp [paragraph?, ownText?, hcontent, hnumber, htext]
          · have heq := (if_neg htext).symm.trans h
            obtain rfl := Except.ok.inj heq
            simp [paragraph?, ownText?, hcontent, hnumber, htext]

/-- **The parts of an article**: its numbered paragraphs, and the texts of its other content. -/
theorem articleParts_ok {div : Element} {parts : ArticleParts} (h : articleParts digits div = .ok parts) :
    parts.paragraphChildren = div.children.filterMap (paragraph? digits) ∧
      parts.ownTextParts = div.children.filterMap (ownText? digits) := by
  have hfold : ∀ {children : List Element} {parts parts' : ArticleParts},
      (children.foldlM (articleStep digits) parts : Except StructureError ArticleParts) = .ok parts' →
        parts'.paragraphChildren = parts.paragraphChildren ++ children.filterMap (paragraph? digits) ∧
          parts'.ownTextParts = parts.ownTextParts ++ children.filterMap (ownText? digits) := by
    intro children
    induction children with
    | nil =>
      intro parts parts' h
      obtain rfl := Except.ok.inj h
      simp
    | cons child children ih =>
      intro parts parts' h
      rw [List.foldlM_cons] at h
      cases hstep : articleStep digits parts child with
      | error e =>
        rw [hstep] at h
        cases h
      | ok next =>
        rw [hstep] at h
        obtain ⟨hparagraphs, htexts⟩ := articleStep_ok hstep
        obtain ⟨hrest, hrest'⟩ := ih h
        have hcons : ∀ {β : Type} (f : Element → Option β),
            (child :: children).filterMap f = (f child).toList ++ children.filterMap f := by
          intro β f
          rw [List.filterMap_cons]
          cases f child <;> rfl
        rw [hrest, hrest', hparagraphs, htexts, hcons, hcons, List.append_assoc, List.append_assoc]
        exact ⟨rfl, rfl⟩
  exact hfold h

theorem paragraph?_fst {e : Element} {paragraph : Element × String} (h : paragraph? digits e = some paragraph) :
    paragraph.1 = e := by
  unfold paragraph? at h
  split at h
  · split at h
    · obtain rfl := Option.some_inj.1 h
      rfl
    · cases h
  · cases h

theorem paragraphs_sublist (children : List Element) :
    ((children.filterMap (paragraph? digits)).map Prod.fst).Sublist children := by
  induction children with
  | nil => exact .refl []
  | cons child children ih =>
    rw [List.filterMap_cons]
    cases hchild : paragraph? digits child with
    | none => exact ih.cons child
    | some paragraph =>
      rw [List.map_cons, paragraph?_fst hchild]
      exact ih.cons_cons child

/-! ## The structural elements -/

mutual

/-- The structural elements among an element and what it contains, in document order: those that the walk meets. -/
def structural : Element → List (Element × Kind × String)
  | .mk position tag attributes text children tail =>
    let e := Element.mk position tag attributes text children tail
    if hasTag e "div" = false then []
    else
      match structId (ownId e) with
      | none => structuralAll children
      | some (kind, number) => (e, kind, number) :: if kind = .cpt ∨ kind = .sct then structuralAll children else []

def structuralAll : List Element → List (Element × Kind × String)
  | [] => []
  | e :: es => structural e ++ structuralAll es

end

theorem structural_eq (e : Element) : structural e =
    if hasTag e "div" = false then []
    else match structId (ownId e) with
      | none => structuralAll e.children
      | some (kind, number) => (e, kind, number) :: if kind = .cpt ∨ kind = .sct then structuralAll e.children else [] := by
  cases e with
  | mk position tag attributes text children tail => rfl

theorem structuralAll_singleton (e : Element) : structuralAll [e] = structural e := List.append_nil _

/-- The annexes among the structural elements. -/
def annexesOf (elements : List (Element × Kind × String)) : List (Element × String) :=
  elements.filterMap fun e => if e.2.1 = .anx then some (e.1, e.2.2) else none

/-- The paragraphs of an article. -/
def paragraphsOf (digits : UnicodeDigits) (div : Element) : List (Element × String) :=
  match articleParts digits div with
  | .ok parts => parts.paragraphChildren
  | .error _ => []

/-- What is minted for a structural element: source, label and id within the instrument. -/
def localMints (digits : UnicodeDigits) (e : Element × Kind × String) : List (Element × Label × String) :=
  match e.2.1 with
  | .anx => []
  | .art => (e.1, .article, ownId e.1) ::
      (paragraphsOf digits e.1).map fun paragraph => (paragraph.1, .paragraph, paragraphLocalId (ownId e.1) paragraph)
  | kind => [(e.1, kind.label, ownId e.1)]

variable {es : List Element} {order order' : ℕ} {ms : List Mint} {annexes : List (Element × String)}

theorem paragraphMints_local {articleLocalId number : String} {paragraphs : List (Element × String)} {order : ℕ} :
    (paragraphMints rid articleLocalId number paragraphs order).map (fun m => (m.source, m.node.elementType, m.node.id)) =
      paragraphs.map fun paragraph => (paragraph.1, .paragraph, nodeId rid (paragraphLocalId articleLocalId paragraph)) := by
  induction paragraphs generalizing order with
  | nil => rfl
  | cons paragraph paragraphs ih =>
    rw [paragraphMints, List.map_cons, List.map_cons, ih]
    rfl

/-- **The walk mints the structural elements**, and collects the annexes among them. -/
theorem Walked.structural (h : Walked digits rid parentLabel parentId es order ms annexes order') :
    ms.map (fun m => (m.source, m.node.elementType, m.node.id)) =
        ((structuralAll es).flatMap (localMints digits)).map (fun e => (e.1, e.2.1, nodeId rid e.2.2)) ∧
      annexes = annexesOf (structuralAll es) := by
  induction h with
  | nil => exact ⟨rfl, rfl⟩
  | @cons _ _ child children _ _ _ _ _ _ _ _ _ ih ih' =>
    rw [structuralAll_singleton] at ih
    have hall : structuralAll (child :: children) = CellarEli.structural child ++ structuralAll children := rfl
    constructor
    · rw [List.map_append, ih.1, ih'.1, hall, List.flatMap_append, List.map_append]
    · rw [ih.2, ih'.2, hall]
      exact List.filterMap_append.symm
  | skip htag =>
    rw [structuralAll_singleton, structural_eq, if_pos htag]
    exact ⟨rfl, rfl⟩
  | pass htag hid _ ih =>
    rw [structuralAll_singleton, structural_eq, htag, hid]
    exact ih
  | article htag hid hparts =>
    rw [structuralAll_singleton, structural_eq, htag, hid]
    refine ⟨?_, rfl⟩
    simp only [articleMints, List.map_cons, paragraphMints_local]
    simp [localMints, paragraphsOf, hparts, articleNode]
  | annex htag hid =>
    rw [structuralAll_singleton, structural_eq, htag, hid]
    exact ⟨rfl, rfl⟩
  | recital htag hid =>
    rw [structuralAll_singleton, structural_eq, htag, hid]
    exact ⟨rfl, rfl⟩
  | container htag hid hkind _ ih =>
    rw [structuralAll_singleton, structural_eq, htag, hid]
    rcases hkind with rfl | rfl
    · exact ⟨by rw [List.map_cons, ih.1]; rfl, ih.2⟩
    · exact ⟨by rw [List.map_cons, ih.1]; rfl, ih.2⟩

/-! ## Document order -/

theorem articleParts_sublist {div : Element} {parts : ArticleParts} (h : articleParts digits div = .ok parts) :
    (parts.paragraphChildren.map Prod.fst).Sublist div.children := by
  rw [(articleParts_ok h).1]
  exact paragraphs_sublist _

/-- **The mints stand in document order**, and so do the annexes. -/
theorem Walked.sublist (h : Walked digits rid parentLabel parentId es order ms annexes order') :
    (ms.map Mint.source).Sublist (Element.iterAll es) ∧ (annexes.map Prod.fst).Sublist (Element.iterAll es) := by
  have hparagraphs : ∀ {articleLocalId number : String} {paragraphs : List (Element × String)} {order : ℕ},
      (paragraphMints rid articleLocalId number paragraphs order).map Mint.source = paragraphs.map Prod.fst := by
    intro articleLocalId number paragraphs order
    induction paragraphs generalizing order with
    | nil => rfl
    | cons paragraph paragraphs ih => rw [paragraphMints, List.map_cons, List.map_cons, ih]
  have hsingle : ∀ child : Element, Element.iterAll [child] = child :: Element.iterAll child.children := by
    intro child
    show child.iter ++ [] = _
    rw [List.append_nil, Element.iter_eq]
  induction h with
  | nil => exact ⟨.refl [], .refl []⟩
  | @cons _ _ child children _ _ _ _ _ _ _ _ _ ih ih' =>
    have happend : Element.iterAll (child :: children) = Element.iterAll [child] ++ Element.iterAll children :=
      Element.iterAll_append [child] children
    rw [happend, List.map_append, List.map_append]
    exact ⟨ih.1.append ih'.1, ih.2.append ih'.2⟩
  | skip => exact ⟨List.nil_sublist _, List.nil_sublist _⟩
  | pass _ _ _ ih =>
    rw [hsingle]
    exact ⟨ih.1.cons _, ih.2.cons _⟩
  | article _ _ hparts =>
    rw [hsingle]
    refine ⟨?_, List.nil_sublist _⟩
    rw [articleMints, List.map_cons, hparagraphs]
    exact ((articleParts_sublist hparts).trans (Element.sublist_iterAll _)).cons_cons _
  | annex =>
    rw [hsingle]
    exact ⟨List.nil_sublist _, (List.nil_sublist _).cons_cons _⟩
  | recital =>
    rw [hsingle]
    exact ⟨(List.nil_sublist _).cons_cons _, List.nil_sublist _⟩
  | container _ _ _ _ ih =>
    rw [hsingle]
    exact ⟨ih.1.cons_cons _, ih.2.cons _⟩

end PolicySystem.CellarEli
