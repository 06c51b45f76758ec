import PolicySystem.CellarEli.Walk
import Mathlib.Logic.Relation

/-!
# The parsed structure as a tree

* `Walked.family`: below a parent, what a walk mints is a tree whose siblings are numbered from one;
* `ParsedTree`: the parsed structure is a tree in document order that keeps the text of the articles;
* `parsed_tree_iff`: it is one if and only if the markup has no repeated id, no annex beside other elements of the
  instrument or out of order, and no text of an article outside its paragraphs or its content.
-/

namespace PolicySystem.CellarEli

open Xml Text

variable {digits : UnicodeDigits} {rid parentId : String} {parentLabel : Label} {es : List Element} {order order' : ℕ}
  {ms ms' : List Mint} {annexes : List (Element × String)}

/-! ## Families of mints -/

/-- The mints under a parent. -/
def childrenOf (q : NodeKey) (ms : List Mint) : List Mint := ms.filter fun m => m.parent = q

/-- There is an edge. -/
def Linked (ms : List Mint) (a b : NodeKey) : Prop := ∃ m ∈ ms, m.parent = a ∧ m.key = b

theorem Linked.mono (h : ms ⊆ ms') {a b : NodeKey} (hab : Linked ms a b) : Linked ms' a b := by
  obtain ⟨m, hm, hparent, hkey⟩ := hab
  exact ⟨m, h hm, hparent, hkey⟩

theorem reached_mono (h : ms ⊆ ms') {a b : NodeKey} (hab : Relation.TransGen (Linked ms) a b) :
    Relation.TransGen (Linked ms') a b :=
  Relation.TransGen.mono (fun _ _ => Linked.mono h) _ _ hab

/-- What an article keeps under its node. -/
def KeepsParts (digits : UnicodeDigits) (rid : String) (ms : List Mint) (m : Mint) : Prop :=
  ∃ parts number order, articleParts digits m.source = .ok parts ∧ m.node = articleNode rid (ownId m.source) number parts order ∧
    childrenOf m.key ms = paragraphMints rid (ownId m.source) number parts.paragraphChildren 0

/-- A family under a parent: every mint hangs on the parent or on a mint, the children of each are numbered from one,
those of the parent on from `order`, and articles keep their parts. -/
structure Family (digits : UnicodeDigits) (rid : String) (parent : NodeKey) (order : ℕ) (ms : List Mint) (order' : ℕ) :
    Prop where
  le : order ≤ order'
  parents : ∀ m ∈ ms, m.parent = parent ∨ m.parent ∈ ms.map Mint.key
  reached : ∀ m ∈ ms, Relation.TransGen (Linked ms) parent m.key
  top : (parent :: ms.map Mint.key).Nodup → (childrenOf parent ms).map (·.node.order) = List.range' (order + 1) (order' - order)
  inner : (parent :: ms.map Mint.key).Nodup → ∀ q ∈ ms.map Mint.key, ∃ n, (childrenOf q ms).map (·.node.order) = List.range' 1 n
  articles : (parent :: ms.map Mint.key).Nodup → ∀ m ∈ ms, m.node.elementType = .article → KeepsParts digits rid ms m

/-- No mint of a family hangs on a node outside it. -/
theorem Family.childrenOf_eq_nil {parent : NodeKey} (h : Family digits rid parent order ms order') {q : NodeKey}
    (hparent : q ≠ parent) (hq : q ∉ ms.map Mint.key) : childrenOf q ms = [] := by
  unfold childrenOf
  rw [List.filter_eq_nil_iff]
  intro m hm htrue
  have heq : m.parent = q := of_decide_eq_true htrue
  rcases h.parents m hm with hp | hp
  · exact hparent (heq.symm.trans hp)
  · exact hq (heq ▸ hp)

theorem childrenOf_append (q : NodeKey) (ms ms' : List Mint) : childrenOf q (ms ++ ms') = childrenOf q ms ++ childrenOf q ms' :=
  List.filter_append ..

theorem childrenOf_cons (q : NodeKey) (m : Mint) (ms : List Mint) :
    childrenOf q (m :: ms) = if m.parent = q then m :: childrenOf q ms else childrenOf q ms := by
  unfold childrenOf
  rw [List.filter_cons]
  simp only [decide_eq_true_eq]

theorem family_nil (parent : NodeKey) (order : ℕ) : Family digits rid parent order [] order where
  le := le_refl order
  parents := by simp
  reached := by simp
  top := by simp [childrenOf]
  inner := by simp
  articles := by simp

/-- Families of siblings one after the other. -/
theorem Family.append {parent : NodeKey} {order'' : ℕ} (h : Family digits rid parent order ms order')
    (h' : Family digits rid parent order' ms' order'') : Family digits rid parent order (ms ++ ms') order'' := by
  have hle := h.le
  have hle' := h'.le
  have hsplit : (parent :: (ms ++ ms').map Mint.key).Nodup → (parent :: ms.map Mint.key).Nodup ∧
      (parent :: ms'.map Mint.key).Nodup ∧ ∀ q ∈ ms.map Mint.key, q ∉ ms'.map Mint.key := by
    intro hnodup
    rw [List.map_append, List.nodup_cons, List.nodup_append] at hnodup
    obtain ⟨hparent, hnodup, hnodup', hdisjoint⟩ := hnodup
    rw [List.mem_append, not_or] at hparent
    refine ⟨List.nodup_cons.2 ⟨hparent.1, hnodup⟩, List.nodup_cons.2 ⟨hparent.2, hnodup'⟩, fun q hq hq' => ?_⟩
    exact hdisjoint q hq q hq' rfl
  -- the children of a node of one family are all in that family
  have hleft : ∀ {q}, (parent :: (ms ++ ms').map Mint.key).Nodup → q ∈ ms.map Mint.key →
      childrenOf q (ms ++ ms') = childrenOf q ms := by
    intro q hnodup hq
    obtain ⟨hms, -, hdisjoint⟩ := hsplit hnodup
    have hne : q ≠ parent := by
      rintro rfl
      exact (List.nodup_cons.1 hms).1 hq
    rw [childrenOf_append, h'.childrenOf_eq_nil hne (hdisjoint q hq), List.append_nil]
  have hright : ∀ {q}, (parent :: (ms ++ ms').map Mint.key).Nodup → q ∈ ms'.map Mint.key →
      childrenOf q (ms ++ ms') = childrenOf q ms' := by
    intro q hnodup hq
    obtain ⟨-, hms', hdisjoint⟩ := hsplit hnodup
    have hne : q ≠ parent := by
      rintro rfl
      exact (List.nodup_cons.1 hms').1 hq
    rw [childrenOf_append, h.childrenOf_eq_nil hne fun hq' => hdisjoint q hq' hq, List.nil_append]
  refine ⟨by omega, fun m hm => ?_, fun m hm => ?_, fun hnodup => ?_, fun hnodup q hq => ?_, fun hnodup m hm hlabel => ?_⟩
  · rw [List.map_append, List.mem_append]
    rcases List.mem_append.1 hm with hm | hm
    · exact (h.parents m hm).imp_right .inl
    · exact (h'.parents m hm).imp_right .inr
  · rcases List.mem_append.1 hm with hm | hm
    · exact reached_mono (List.subset_append_left ..) (h.reached m hm)
    · exact reached_mono (List.subset_append_right ..) (h'.reached m hm)
  · obtain ⟨hms, hms', -⟩ := hsplit hnodup
    rw [childrenOf_append, List.map_append, h.top hms, h'.top hms']
    have hstart : order' + 1 = order + 1 + 1 * (order' - order) := by omega
    rw [hstart, List.range'_append, show order' - order + (order'' - order') = order'' - order by omega]
  · rw [List.map_append, List.mem_append] at hq
    obtain ⟨hms, hms', -⟩ := hsplit hnodup
    rcases hq with hq | hq
    · rw [hleft hnodup hq]
      exact h.inner hms q hq
    · rw [hright hnodup hq]
      exact h'.inner hms' q hq
  · obtain ⟨hms, hms', -⟩ := hsplit hnodup
    rcases List.mem_append.1 hm with hm | hm
    · obtain ⟨parts, number, n, hparts, hnode, hchildren⟩ := h.articles hms m hm hlabel
      exact ⟨parts, number, n, hparts, hnode, by rw [hleft hnodup (List.mem_map_of_mem hm), hchildren]⟩
    · obtain ⟨parts, number, n, hparts, hnode, hchildren⟩ := h'.articles hms' m hm hlabel
      exact ⟨parts, number, n, hparts, hnode, by rw [hright hnodup (List.mem_map_of_mem hm), hchildren]⟩

/-- **A mint with the family under it**, the next child of its parent. -/
theorem Family.under {parent : NodeKey} {m : Mint} (h : Family digits rid m.key 0 ms order') (hparent : m.parent = parent)
    (horder : m.node.order = order + 1)
    (harticle : m.node.elementType = .article → ∃ parts number, articleParts digits m.source = .ok parts ∧
      m.node = articleNode rid (ownId m.source) number parts (order + 1) ∧
      childrenOf m.key ms = paragraphMints rid (ownId m.source) number parts.paragraphChildren 0) :
    Family digits rid parent order (m :: ms) (order + 1) := by
  have hsplit : (parent :: (m :: ms).map Mint.key).Nodup → parent ≠ m.key ∧ parent ∉ ms.map Mint.key ∧
      (m.key :: ms.map Mint.key).Nodup := by
    intro hnodup
    rw [List.map_cons, List.nodup_cons] at hnodup
    rw [List.mem_cons, not_or] at hnodup
    exact ⟨hnodup.1.1, hnodup.1.2, hnodup.2⟩
  have hbelow : ∀ {q}, (parent :: (m :: ms).map Mint.key).Nodup → q ≠ parent → childrenOf q (m :: ms) = childrenOf q ms := by
    intro q _ hne
    rw [childrenOf_cons, if_neg fun heq => hne (heq.symm.trans hparent)]
  refine ⟨Nat.le_succ order, fun n hn => ?_, fun n hn => ?_, fun hnodup => ?_, fun hnodup q hq => ?_, fun hnodup n hn hlabel => ?_⟩
  · rw [List.map_cons, List.mem_cons]
    rcases List.mem_cons.1 hn with rfl | hn
    · exact .inl hparent
    · exact .inr (h.parents n hn)
  · have hfirst : Linked (m :: ms) parent m.key := ⟨m, List.mem_cons_self .., hparent, rfl⟩
    rcases List.mem_cons.1 hn with rfl | hn
    · exact .single hfirst
    · exact .head hfirst (reached_mono (List.subset_cons_self ..) (h.reached n hn))
  · obtain ⟨hne, hnotin, -⟩ := hsplit hnodup
    rw [childrenOf_cons, if_pos hparent, h.childrenOf_eq_nil hne hnotin, List.map_singleton, horder,
      Nat.add_sub_cancel_left]
    rfl
  · obtain ⟨hne, hnotin, hms⟩ := hsplit hnodup
    have hqne : q ≠ parent := by
      rintro rfl
      exact (List.nodup_cons.1 hnodup).1 hq
    rw [hbelow hnodup hqne]
    rw [List.map_cons, List.mem_cons] at hq
    rcases hq with rfl | hq
    · exact ⟨order' - 0, h.top hms⟩
    · exact h.inner hms q hq
  · obtain ⟨hne, hnotin, hms⟩ := hsplit hnodup
    rcases List.mem_cons.1 hn with rfl | hn
    · obtain ⟨parts, number, hparts, hnode, hchildren⟩ := harticle hlabel
      exact ⟨parts, number, order + 1, hparts, hnode, by rw [hbelow hnodup (Ne.symm hne), hchildren]⟩
    · obtain ⟨parts, number, k, hparts, hnode, hchildren⟩ := h.articles hms n hn hlabel
      have hkey : n.key ≠ parent := by
        rintro heq
        exact hnotin (heq ▸ List.mem_map_of_mem hn)
      exact ⟨parts, number, k, hparts, hnode, by rw [hbelow hnodup hkey, hchildren]⟩

/-- The paragraphs of an article. -/
theorem family_paragraphs {articleLocalId number : String} {paragraphs : List (Element × String)} {order : ℕ} :
    Family digits rid (.article, nodeId rid articleLocalId) order (paragraphMints rid articleLocalId number paragraphs order)
      (order + paragraphs.length) := by
  induction paragraphs generalizing order with
  | nil => exact family_nil _ order
  | cons paragraph paragraphs ih =>
    have hfirst : Family digits rid (.article, nodeId rid articleLocalId) order
        [⟨paragraph.1, paragraphNode rid articleLocalId number paragraph (order + 1), .article, nodeId rid articleLocalId⟩]
        (order + 1) := by
      refine (family_nil _ 0).under rfl rfl fun hlabel => ?_
      cases hlabel
    rw [List.length_cons, show order + (paragraphs.length + 1) = order + 1 + paragraphs.length by omega]
    exact hfirst.append ih

/-- The mints for the paragraphs all hang on the article. -/
theorem childrenOf_paragraphs {articleLocalId number : String} {paragraphs : List (Element × String)} {order : ℕ} :
    childrenOf (.article, nodeId rid articleLocalId) (paragraphMints rid articleLocalId number paragraphs order) =
      paragraphMints rid articleLocalId number paragraphs order := by
  induction paragraphs generalizing order with
  | nil => rfl
  | cons paragraph paragraphs ih =>
    rw [paragraphMints, childrenOf_cons, ih]
    exact if_pos rfl

/-- **What a walk mints is a family** under its parent. -/
theorem Walked.family (h : Walked digits rid parentLabel parentId es order ms annexes order') :
    Family digits rid (parentLabel, parentId) order ms order' := by
  induction h with
  | nil => exact family_nil ..
  | cons _ _ ih ih' => exact ih.append ih'
  | skip => exact family_nil ..
  | pass _ _ _ ih => exact ih
  | article _ _ hparts =>
    exact family_paragraphs.under rfl rfl fun _ => ⟨_, _, hparts, rfl, childrenOf_paragraphs⟩
  | annex => exact family_nil ..
  | recital =>
    refine (family_nil _ 0).under rfl rfl fun hlabel => ?_
    cases hlabel
  | @container _ _ _ kind _ _ _ _ _ _ _ hkind _ ih =>
    refine Family.under ih rfl rfl fun hlabel => ?_
    rcases hkind with rfl | rfl
    · cases hlabel
    · cases hlabel

/-! ## Annexes -/

/-- The mints for annexes, numbered from `order`. -/
def annexMints (rid : String) : List (Element × String) → ℕ → List Mint
  | [], _ => []
  | annex :: annexes, order =>
    ⟨annex.1, annexNode rid annex (order + 1), .regulatoryInstrument, rid⟩ :: annexMints rid annexes (order + 1)

theorem annexMints_concat {annexes : List (Element × String)} {annex : Element × String} {order : ℕ} :
    annexMints rid (annexes ++ [annex]) order = annexMints rid annexes order ++
      [⟨annex.1, annexNode rid annex (order + annexes.length + 1), .regulatoryInstrument, rid⟩] := by
  induction annexes generalizing order with
  | nil => rfl
  | cons first annexes ih =>
    rw [List.cons_append, annexMints, ih, annexMints, List.cons_append, List.length_cons,
      show order + 1 + annexes.length + 1 = order + (annexes.length + 1) + 1 by omega]

/-- The annexes minted are the first of each number. -/
theorem mintAnnexes_sinkOf {kept : List (Element × String)} :
    mintAnnexes rid annexes (kept.map Prod.snd) (sinkOf (ms ++ annexMints rid kept 0) ms'') =
      sinkOf (ms ++ annexMints rid (annexes.foldl (FirstWins.keep Prod.snd) kept) 0) ms'' := by
  induction annexes generalizing kept with
  | nil => rfl
  | cons annex annexes ih =>
    rw [mintAnnexes, List.foldl_cons]
    by_cases hseen : annex.2 ∈ kept.map Prod.snd
    · have hkeep : FirstWins.keep Prod.snd kept annex = kept := if_pos hseen
      rw [if_pos hseen, hkeep]
      exact ih
    · have hkeep : FirstWins.keep Prod.snd kept annex = kept ++ [annex] := if_neg hseen
      rw [if_neg hseen, hkeep, ← ih, mint_sinkOf, List.map_append, annexMints_concat, List.length_map, Nat.zero_add,
        List.append_assoc]
      rfl

theorem family_annexes {order : ℕ} :
    Family digits rid (.regulatoryInstrument, rid) order (annexMints rid annexes order) (order + annexes.length) := by
  induction annexes generalizing order with
  | nil => exact family_nil _ order
  | cons annex annexes ih =>
    have hfirst : Family digits rid (.regulatoryInstrument, rid) order
        [⟨annex.1, annexNode rid annex (order + 1), .regulatoryInstrument, rid⟩] (order + 1) := by
      refine (family_nil _ 0).under rfl rfl fun hlabel => ?_
      cases hlabel
    rw [List.length_cons, show order + (annexes.length + 1) = order + 1 + annexes.length by omega]
    exact hfirst.append ih

/-! ## The document -/

/-- A document: its elements in the order of their start tags. -/
structure Document where
  root : Element
  ordered : root.iter.Pairwise fun e e' => e.position < e'.position

/-- The annexes that are minted: the first of each number, those in containers of their own before those in `main`. -/
def keptAnnexes (root main : Element) : List (Element × String) :=
  FirstWins.collect Prod.snd (separateAnnexes (containersOf root) ++ annexesOf (structuralAll main.children))

/-- **What is minted for a document**: the walk over its main container, then the annexes. -/
theorem parseStructure_ok {root : Element} {result : List (Element × StructuralNode) × List StructuralEdge}
    (h : parseStructure digits root rid = .ok result) :
    ∃ main ms annexes n, mainContainer (containersOf root) = some main ∧
      Walked digits rid .regulatoryInstrument rid main.children 0 ms annexes n ∧
      result = ((ms ++ annexMints rid (keptAnnexes root main) 0).map Mint.sourced,
        (ms ++ annexMints rid (keptAnnexes root main) 0).map Mint.edge) := by
  unfold parseStructure splitContainers at h
  cases hmain : mainContainer (containersOf root) with
  | none =>
    rw [hmain] at h
    cases h
  | some main =>
    rw [hmain] at h
    have hempty : (⟨[], [], []⟩ : StructuralSink) = sinkOf [] [] := rfl
    rw [hempty] at h
    simp only [bind, Except.bind] at h
    cases hwalk : walkBody digits rid .regulatoryInstrument rid main.children 0 (sinkOf [] []) with
    | error e =>
      rw [hwalk] at h
      cases h
    | ok walked =>
      obtain ⟨ms, annexes, hwalked, hsink⟩ := walkBody_walked main.children hwalk
      rw [hwalk] at h
      obtain rfl := Except.ok.inj h
      refine ⟨main, ms, annexes, walked.1, rfl, hwalked, ?_⟩
      have hmint := @mintAnnexes_sinkOf rid ms (separateAnnexes (containersOf root) ++ annexes) annexes []
      rw [show annexMints rid [] 0 = [] from rfl, List.append_nil, List.map_nil] at hmint
      unfold keptAnnexes FirstWins.collect
      rw [← hwalked.structural.2]
      simp only [hsink, List.nil_append]
      show ((mintAnnexes rid _ [] (sinkOf ms annexes)).nodes, (mintAnnexes rid _ [] (sinkOf ms annexes)).edges) = _
      rw [show (sinkOf ms annexes).annexes = annexes from rfl, hmint]
      rfl

/-! ## The text of an article -/

/-- The words of an article's div other than those of its headings and bare labels, in document order. -/
def contentWords (div : Element) : List (List Char) :=
  words div.text.toList ++ div.children.flatMap fun c =>
    (if isContent c then words c.itertext else []) ++ words c.tail.toList

/-- The article's text stands in its children alone and, where it has paragraphs, in these alone. -/
def WholeArticle (digits : UnicodeDigits) (div : Element) : Prop :=
  words div.text.toList = [] ∧ ∀ c ∈ div.children, words c.tail.toList = [] ∧
    (paragraphsOf digits div ≠ [] → isContent c = true → paragraph? digits c = none → words c.itertext = [])

theorem words_fullText (e : Element) : words (fullText e).toList = words e.itertext := by
  unfold fullText
  rw [String.toList_ofList, words_collapse]

theorem words_intercalate (ts : List String) : words (" ".intercalate ts).toList = ts.flatMap fun t => words t.toList := by
  have hjoin : (" ".intercalate ts).toList = join (ts.map String.toList) := by
    induction ts with
    | nil => rfl
    | cons t ts ih =>
      cases ts with
      | nil => simp [join]
      | cons u ts =>
        rw [String.intercalate_cons_cons, String.toList_append, String.toList_append, ih]
        simp [join, List.intercalate]
  rw [hjoin, words_joined, List.flatMap_map]

theorem flatMap_filterMap {α β γ : Type} (f : α → Option β) (g : β → List γ) (l : List α) :
    (l.filterMap f).flatMap g = l.flatMap fun a => ((f a).map g).getD [] := by
  induction l with
  | nil => rfl
  | cons a l ih =>
    rw [List.filterMap_cons, List.flatMap_cons, ← ih]
    cases f a <;> rfl

/-- The words an article's node and its paragraphs have, child by child. -/
theorem words_parts {div : Element} {parts : ArticleParts} (h : articleParts digits div = .ok parts) :
    words parts.text.toList ++ parts.paragraphChildren.flatMap (fun p => words (fullText p.1).toList) =
      div.children.flatMap fun c =>
        if isContent c ∧ ((paragraph? digits c).isSome ∨ paragraphsOf digits div = []) then words c.itertext else [] := by
  obtain ⟨hparagraphs, htexts⟩ := articleParts_ok h
  have hof : paragraphsOf digits div = parts.paragraphChildren := by
    unfold paragraphsOf
    rw [h]
  have hnone : ∀ c, isContent c = false → paragraph? digits c = none := by
    intro c hc
    unfold paragraph?
    rw [hc]
    rfl
  rw [hof]
  unfold ArticleParts.text
  by_cases hnil : parts.paragraphChildren = []
  · rw [if_neg (not_not.2 hnil), hnil, List.flatMap_nil, List.append_nil, words_intercalate, htexts, flatMap_filterMap]
    refine List.flatMap_congr fun c hc => ?_
    have hparagraph : paragraph? digits c = none := by
      rw [hnil] at hparagraphs
      exact List.filterMap_eq_nil_iff.1 hparagraphs.symm c hc
    unfold ownText?
    by_cases hcontent : isContent c = true
    · by_cases hempty : fullText c = ""
      · have hwords := words_fullText c
        rw [hempty] at hwords
        simp [hempty, hcontent, ← hwords]
      · simp [hempty, hcontent, hparagraph, words_fullText]
    · simp [hcontent]
  · rw [if_pos hnil, hparagraphs, flatMap_filterMap]
    show [] ++ _ = _
    rw [List.nil_append]
    refine List.flatMap_congr fun c hc => ?_
    rw [← hparagraphs]
    cases hparagraph : paragraph? digits c with
    | none => simp [hnil]
    | some p =>
      have hcontent : isContent c = true := by
        by_contra hcontent
        rw [hnone c (Bool.eq_false_iff.2 hcontent)] at hparagraph
        cases hparagraph
      simp [hcontent, paragraph?_fst hparagraph, words_fullText]

theorem length_flatMap_le {α β : Type} {A B : α → List β} {l : List α} (hle : ∀ a ∈ l, (A a).length ≤ (B a).length) :
    (l.flatMap A).length ≤ (l.flatMap B).length := by
  induction l with
  | nil => exact le_refl _
  | cons a l ih =>
    have hfirst := hle a (List.mem_cons_self ..)
    have hrest := ih fun b hb => hle b (List.mem_cons_of_mem _ hb)
    rw [List.flatMap_cons, List.flatMap_cons, List.length_append, List.length_append]
    omega

/-- Lists of the same total length, each of the one at most as long as the other's, are each as long. -/
theorem length_eq_of_flatMap {α β : Type} {A B : α → List β} {front : List β} {l : List α}
    (hle : ∀ a ∈ l, (A a).length ≤ (B a).length) (h : (l.flatMap A).length = front.length + (l.flatMap B).length) :
    front = [] ∧ ∀ a ∈ l, (A a).length = (B a).length := by
  have hsum := length_flatMap_le hle
  have heq : (l.flatMap A).length = (l.flatMap B).length := by omega
  refine ⟨List.length_eq_zero_iff.1 (by omega), ?_⟩
  clear h hsum
  induction l with
  | nil => simp
  | cons a l ih =>
    have hfirst := hle a (List.mem_cons_self ..)
    have hrest := length_flatMap_le fun b hb => hle b (List.mem_cons_of_mem _ hb)
    rw [List.flatMap_cons, List.flatMap_cons, List.length_append, List.length_append] at heq
    intro b hb
    rcases List.mem_cons.1 hb with rfl | hb
    · omega
    · exact ih (fun c hc => hle c (List.mem_cons_of_mem _ hc)) (by omega) b hb

/-- **An article keeps its text** if and only if nothing of it stands outside. -/
theorem keeps_iff {div : Element} {parts : ArticleParts} (h : articleParts digits div = .ok parts) :
    words parts.text.toList ++ parts.paragraphChildren.flatMap (fun p => words (fullText p.1).toList) = contentWords div ↔
      WholeArticle digits div := by
  rw [words_parts h]
  unfold contentWords WholeArticle
  constructor
  · intro heq
    have hlength := congrArg List.length heq
    rw [List.length_append] at hlength
    obtain ⟨hfront, heach⟩ := length_eq_of_flatMap (fun c _ => by
      rw [List.length_append]
      split
      · rename_i hkept
        rw [if_pos hkept.1]
        omega
      · exact Nat.zero_le _) hlength
    refine ⟨hfront, fun c hc => ?_⟩
    have hc := heach c hc
    rw [List.length_append] at hc
    by_cases hcontent : isContent c = true
    · by_cases hkept : (paragraph? digits c).isSome = true ∨ paragraphsOf digits div = []
      · rw [if_pos ⟨hcontent, hkept⟩, if_pos hcontent] at hc
        refine ⟨List.length_eq_zero_iff.1 (by omega), fun hne _ hnone => ?_⟩
        rcases hkept with hsome | hnil
        · rw [hnone] at hsome
          cases hsome
        · exact absurd hnil hne
      · rw [if_neg fun hboth => hkept hboth.2, if_pos hcontent, List.length_nil] at hc
        exact ⟨List.length_eq_zero_iff.1 (by omega), fun _ _ _ => List.length_eq_zero_iff.1 (by omega)⟩
    · rw [if_neg fun hboth => hcontent hboth.1, if_neg hcontent, List.length_nil] at hc
      exact ⟨List.length_eq_zero_iff.1 (by omega), fun _ hyes => absurd hyes hcontent⟩
  · rintro ⟨hfront, heach⟩
    rw [hfront, List.nil_append]
    refine List.flatMap_congr fun c hc => ?_
    obtain ⟨htail, hown⟩ := heach c hc
    rw [htail, List.append_nil]
    by_cases hcontent : isContent c = true
    · rw [if_pos hcontent]
      split
      · rfl
      · rename_i hkept
        rw [not_and, not_or] at hkept
        obtain ⟨hnone, hne⟩ := hkept hcontent
        exact (hown hne hcontent (by simpa using hnone)).symm
    · rw [if_neg hcontent, if_neg fun hboth => hcontent hboth.1]

/-! ## The parsed structure -/

def nodeKey (n : StructuralNode) : NodeKey := (n.elementType, n.id)

def parentKey (e : StructuralEdge) : NodeKey := (e.parentElementType, e.parentId)

def childKey (e : StructuralEdge) : NodeKey := (e.childElementType, e.childId)

/-- The nodes that an edge from `q` leads to. -/
def childNodes (nodes : List (Element × StructuralNode)) (edges : List StructuralEdge) (q : NodeKey) :
    List (Element × StructuralNode) :=
  nodes.filter fun n => edges.any fun e => parentKey e = q ∧ childKey e = nodeKey n.2

/-- The text of a node. -/
def nodeText (n : StructuralNode) : List Char := (n.text.getD "").toList

/-- **The parsed structure is a tree that keeps the text.** -/
structure ParsedTree (rid : String) (nodes : List (Element × StructuralNode)) (edges : List StructuralEdge) : Prop where
  distinct : (nodes.map fun n => n.2.id).Nodup
  oneParent : ∀ n ∈ nodes, ∃ e, edges.filter (fun e => childKey e = nodeKey n.2) = [e] ∧
    (parentKey e = (.regulatoryInstrument, rid) ∨ ∃ p ∈ nodes, nodeKey p.2 = parentKey e)
  reachable : ∀ n ∈ nodes, Relation.TransGen (fun a b => ∃ e ∈ edges, parentKey e = a ∧ childKey e = b)
    (.regulatoryInstrument, rid) (nodeKey n.2)
  /-- In document order, siblings are numbered from one. -/
  ordered : ∀ q, ∃ siblings : List (Element × StructuralNode), siblings.Perm (childNodes nodes edges q) ∧
    siblings.Pairwise (fun a b => a.1.position < b.1.position) ∧ siblings.map (·.2.order) = List.range' 1 siblings.length
  /-- The content of an article is its node's text, followed by those of its paragraphs. -/
  keepsText : ∀ n ∈ nodes, n.2.elementType = .article → words (nodeText n.2) ++
    (childNodes nodes edges (nodeKey n.2)).flatMap (fun p => words (nodeText p.2)) = contentWords n.1

/-- The ids that are minted, within the instrument: those of the structural elements and their paragraphs, and of the
annexes. -/
def localIds (digits : UnicodeDigits) (root main : Element) : List String :=
  ((structuralAll main.children).flatMap (localMints digits)).map (·.2.2) ++ (keptAnnexes root main).map fun a => ownId a.1

/-- The markup has no repeated id, has annexes only where nothing else hangs on the instrument, in document order, and
has no text of an article outside its content. -/
structure WellMarked (digits : UnicodeDigits) (root main : Element) : Prop where
  ids : (localIds digits root main).Nodup
  annexes : keptAnnexes root main = [] ∨ (∀ e ∈ structuralAll main.children, e.2.1 = .anx) ∧
    (keptAnnexes root main).Pairwise fun a b => a.1.position < b.1.position
  articles : ∀ e ∈ structuralAll main.children, e.2.1 = .art → WholeArticle digits e.1

/-- With distinct keys the nodes under a key are those that hang on it. -/
theorem childNodes_sourced (h : (ms.map Mint.key).Nodup) (q : NodeKey) :
    childNodes (ms.map Mint.sourced) (ms.map Mint.edge) q = (childrenOf q ms).map Mint.sourced := by
  unfold childNodes childrenOf
  rw [List.filter_map]
  refine congrArg (List.map Mint.sourced) (List.filter_congr fun m hm => ?_)
  rw [Function.comp_apply, Bool.eq_iff_iff, List.any_eq_true, decide_eq_true_eq]
  constructor
  · rintro ⟨e, he, hlink⟩
    obtain ⟨m', hm', rfl⟩ := List.mem_map.1 he
    obtain ⟨hparent, hchild⟩ := of_decide_eq_true hlink
    obtain rfl := List.inj_on_of_nodup_map h hm' hm hchild
    exact hparent
  · intro hparent
    exact ⟨m.edge, List.mem_map_of_mem hm, decide_eq_true ⟨hparent, rfl⟩⟩

/-! ## When it is a tree -/

section Parsed

variable {root main : Element} {doc : Document}

theorem annexMints_spec {order : ℕ} {m : Mint} (hm : m ∈ annexMints rid annexes order) :
    m.parent = (.regulatoryInstrument, rid) ∧ m.node.elementType = .annex := by
  induction annexes generalizing order with
  | nil => cases hm
  | cons annex annexes ih =>
    rcases List.mem_cons.1 hm with rfl | hm
    · exact ⟨rfl, rfl⟩
    · exact ih hm

theorem annexMints_local {order : ℕ} : (annexMints rid annexes order).map (fun m => (m.source, m.node.id)) =
    annexes.map fun a => (a.1, nodeId rid (ownId a.1)) := by
  induction annexes generalizing order with
  | nil => rfl
  | cons annex annexes ih =>
    rw [annexMints, List.map_cons, List.map_cons, ih]
    rfl

theorem nodeId_inj {a b : String} (h : nodeId rid a = nodeId rid b) : a = b := by
  unfold nodeId at h
  have hlist := congrArg String.toList h
  rw [String.toList_append, String.toList_append, String.toList_append, String.toList_append] at hlist
  exact String.toList_inj.1 (List.append_cancel_left hlist)

theorem nodeId_ne (a : String) : nodeId rid a ≠ rid := by
  intro h
  have hlength := congrArg (fun s => s.toList.length) h
  unfold nodeId at hlength
  simp only [String.toList_append, List.length_append] at hlength
  have hmark : "#".toList.length = 1 := rfl
  omega

/-- The ids minted for a document. -/
theorem ids_eq (h : Walked digits rid .regulatoryInstrument rid main.children 0 ms annexes order') :
    (ms ++ annexMints rid (keptAnnexes root main) 0).map (·.node.id) = (localIds digits root main).map (nodeId rid) := by
  have hms := congrArg (List.map fun e : Element × Label × String => e.2.2) h.structural.1
  have has := congrArg (List.map Prod.snd) (@annexMints_local rid (keptAnnexes root main) 0)
  rw [List.map_map, List.map_map] at hms has
  unfold localIds
  rw [List.map_append, List.map_append, List.map_map, List.map_map]
  exact congrArg₂ _ hms has

/-- An article is minted for each structural element that is one, and only for these. -/
theorem article_iff (h : Walked digits rid .regulatoryInstrument rid main.children 0 ms annexes order') {div : Element} :
    (∃ m ∈ ms, m.node.elementType = .article ∧ m.source = div) ↔
      ∃ e ∈ structuralAll main.children, e.2.1 = .art ∧ e.1 = div := by
  have hmem : (∃ m ∈ ms, m.node.elementType = .article ∧ m.source = div) ↔
      ∃ id, (div, Label.article, id) ∈ ms.map fun m => (m.source, m.node.elementType, m.node.id) := by
    simp only [List.mem_map, Prod.mk.injEq]
    constructor
    · rintro ⟨m, hm, hlabel, hsource⟩
      exact ⟨m.node.id, m, hm, hsource, hlabel, rfl⟩
    · rintro ⟨_, m, hm, hsource, hlabel, -⟩
      exact ⟨m, hm, hlabel, hsource⟩
  rw [hmem, h.structural.1]
  simp only [List.mem_map, List.mem_flatMap, Prod.mk.injEq]
  constructor
  · rintro ⟨_, ⟨source, label, id⟩, ⟨⟨element, kind, number⟩, he, hlocal⟩, rfl, rfl, -⟩
    unfold localMints at hlocal
    cases kind with
    | art =>
      rcases List.mem_cons.1 hlocal with heq | hparagraph
      · exact ⟨_, he, rfl, (congrArg Prod.fst heq).symm⟩
      · obtain ⟨p, -, heq⟩ := List.mem_map.1 hparagraph
        cases congrArg (fun e => e.2.1) heq
    | anx => cases hlocal
    | cpt => cases congrArg (fun e => e.2.1) (List.mem_singleton.1 hlocal)
    | sct => cases congrArg (fun e => e.2.1) (List.mem_singleton.1 hlocal)
    | rct => cases congrArg (fun e => e.2.1) (List.mem_singleton.1 hlocal)
  · rintro ⟨⟨element, kind, number⟩, he, rfl, rfl⟩
    exact ⟨_, (element, .article, ownId element), ⟨_, he, List.mem_cons_self ..⟩, rfl, rfl, rfl⟩

/-- Nothing but annexes is structural where the walk mints nothing. -/
theorem walked_nil_iff (h : Walked digits rid .regulatoryInstrument rid main.children 0 ms annexes order') :
    ms = [] ↔ ∀ e ∈ structuralAll main.children, e.2.1 = .anx := by
  have hnil : ms = [] ↔ (structuralAll main.children).flatMap (localMints digits) = [] := by
    rw [← List.map_eq_nil_iff, h.structural.1, List.map_eq_nil_iff]
  rw [hnil, List.flatMap_eq_nil_iff]
  refine forall₂_congr fun e _ => ?_
  obtain ⟨element, kind, number⟩ := e
  cases kind <;> simp [localMints]

/-- The mints of a document, with distinct keys, under a root of their own. -/
structure Minted (digits : UnicodeDigits) (rid : String) (root main : Element) (ms : List Mint) : Prop where
  walked : ∃ annexes n, Walked digits rid .regulatoryInstrument rid main.children 0 ms annexes n
  container : mainContainer (containersOf root) = some main
  ids : (localIds digits root main).Nodup

namespace Minted

/-- All that is minted. -/
abbrev all (rid : String) (root main : Element) (ms : List Mint) : List Mint := ms ++ annexMints rid (keptAnnexes root main) 0

theorem nodup (h : Minted digits rid root main ms) :
    ((Label.regulatoryInstrument, rid) :: (all rid root main ms).map Mint.key).Nodup := by
  obtain ⟨annexes, n, hwalked⟩ := h.walked
  have hids := @ids_eq _ _ _ _ _ root main hwalked
  have hnodup : ((all rid root main ms).map (·.node.id)).Nodup := by
    rw [hids]
    exact h.ids.map fun _ _ => nodeId_inj
  rw [List.nodup_cons]
  constructor
  · intro hmem
    obtain ⟨m, hm, hkey⟩ := List.mem_map.1 hmem
    have hid : m.node.id ∈ (all rid root main ms).map (·.node.id) := List.mem_map_of_mem hm
    rw [hids] at hid
    obtain ⟨a, -, ha⟩ := List.mem_map.1 hid
    exact nodeId_ne a (ha.trans (congrArg Prod.snd hkey))
  · have hsnd : (all rid root main ms).map (·.node.id) = ((all rid root main ms).map Mint.key).map Prod.snd := by
      rw [List.map_map]
      rfl
    rw [hsnd] at hnodup
    exact hnodup.of_map

theorem nodup_walked (h : Minted digits rid root main ms) : ((Label.regulatoryInstrument, rid) :: ms.map Mint.key).Nodup := by
  have hall := h.nodup
  unfold all at hall
  rw [List.map_append] at hall
  exact hall.sublist ((List.sublist_append_left ..).cons_cons _)

/-- The annexes are children of the instrument. -/
theorem childrenOf_annexes (q : NodeKey) : childrenOf q (annexMints rid annexes 0) =
    if q = (.regulatoryInstrument, rid) then annexMints rid annexes 0 else [] := by
  unfold childrenOf
  split
  · rename_i hq
    exact List.filter_eq_self.2 fun m hm => decide_eq_true ((annexMints_spec hm).1.trans hq.symm)
  · rename_i hq
    exact List.filter_eq_nil_iff.2 fun m hm htrue => hq ((of_decide_eq_true htrue).symm.trans (annexMints_spec hm).1)

/-- The nodes under a key. -/
theorem childNodes_eq (h : Minted digits rid root main ms) (q : NodeKey) :
    childNodes ((all rid root main ms).map Mint.sourced) ((all rid root main ms).map Mint.edge) q =
      (childrenOf q ms ++ if q = (.regulatoryInstrument, rid) then annexMints rid (keptAnnexes root main) 0 else []).map
        Mint.sourced := by
  rw [childNodes_sourced (List.nodup_cons.1 h.nodup).2, childrenOf_append, childrenOf_annexes]

/-- The divs that nodes are minted for by the walk stand in document order. -/
theorem sorted (h : Minted digits rid doc.root main ms) (q : NodeKey) :
    ((childrenOf q ms).map Mint.sourced).Pairwise fun a b => a.1.position < b.1.position := by
  obtain ⟨annexes, n, hwalked⟩ := h.walked
  have hmem : main ∈ doc.root.iter := (List.mem_filter.1 (List.mem_of_find?_eq_some h.container)).1
  have hiter : (Element.iterAll main.children).Sublist doc.root.iter := by
    refine List.Sublist.trans ?_ (Element.iter_sublist doc.root hmem)
    rw [Element.iter_eq]
    exact List.sublist_cons_self ..
  have hpairwise := doc.ordered.sublist (hwalked.sublist.1.trans hiter)
  rw [List.pairwise_map] at hpairwise ⊢
  exact hpairwise.sublist List.filter_sublist

theorem orders_annexes : (annexMints rid annexes 0).map (·.node.order) = List.range' 1 annexes.length := by
  have hall : ∀ {annexes : List (Element × String)} {order : ℕ},
      (annexMints rid annexes order).map (·.node.order) = List.range' (order + 1) annexes.length := by
    intro annexes
    induction annexes with
    | nil => intro order; rfl
    | cons annex annexes ih =>
      intro order
      rw [annexMints, List.map_cons, ih, List.length_cons, List.range'_succ]
      rfl
  exact hall

/-- Below the instrument the siblings are numbered in document order. -/
theorem ordered_below (h : Minted digits rid doc.root main ms) {q : NodeKey} (hq : q ≠ (.regulatoryInstrument, rid)) :
    ∃ siblings : List (Element × StructuralNode),
      siblings.Perm (childNodes ((all rid doc.root main ms).map Mint.sourced) ((all rid doc.root main ms).map Mint.edge) q) ∧
      siblings.Pairwise (fun a b => a.1.position < b.1.position) ∧
      siblings.map (·.2.order) = List.range' 1 siblings.length := by
  obtain ⟨annexes, n, hwalked⟩ := h.walked
  refine ⟨_, .refl _, ?_⟩
  rw [h.childNodes_eq, if_neg hq, List.append_nil]
  refine ⟨h.sorted q, ?_⟩
  rw [List.map_map, List.length_map]
  by_cases hmem : q ∈ ms.map Mint.key
  · obtain ⟨k, hk⟩ := hwalked.family.inner h.nodup_walked q hmem
    have hlength := congrArg List.length hk
    rw [List.length_map, List.length_range'] at hlength
    rw [hlength]
    exact hk
  · rw [hwalked.family.childrenOf_eq_nil hq hmem]
    rfl

/-- **The children of the instrument** are numbered in document order if and only if the annexes stand alone under it,
in document order. -/
theorem ordered_top_iff (h : Minted digits rid doc.root main ms) :
    (∃ siblings : List (Element × StructuralNode), siblings.Perm (childNodes ((all rid doc.root main ms).map Mint.sourced)
        ((all rid doc.root main ms).map Mint.edge) (.regulatoryInstrument, rid)) ∧
      siblings.Pairwise (fun a b => a.1.position < b.1.position) ∧
      siblings.map (·.2.order) = List.range' 1 siblings.length) ↔
    keptAnnexes doc.root main = [] ∨ (∀ e ∈ structuralAll main.children, e.2.1 = .anx) ∧
      (keptAnnexes doc.root main).Pairwise fun a b => a.1.position < b.1.position := by
  obtain ⟨annexes, n, hwalked⟩ := h.walked
  have htop := hwalked.family.top h.nodup_walked
  have horders := @orders_annexes rid (keptAnnexes doc.root main)
  have hpositions : ((annexMints rid (keptAnnexes doc.root main) 0).map Mint.sourced).Pairwise
      (fun a b => a.1.position < b.1.position) ↔
        (keptAnnexes doc.root main).Pairwise fun a b => a.1.position < b.1.position := by
    have hsources := congrArg (List.map Prod.fst) (@annexMints_local rid (keptAnnexes doc.root main) 0)
    rw [List.map_map, List.map_map] at hsources
    have hmap : ∀ {α : Type} (f : α → Element) (l : List α),
        l.Pairwise (fun a b => (f a).position < (f b).position) ↔ (l.map f).Pairwise fun a b => a.position < b.position := by
      intro α f l
      rw [List.pairwise_map]
    rw [hmap Prod.fst, List.map_map, hmap Prod.fst]
    exact iff_of_eq (congrArg _ hsources)
  rw [h.childNodes_eq, if_pos rfl]
  constructor
  · rintro ⟨siblings, hperm, hsorted, hnumbers⟩
    by_cases hannexes : keptAnnexes doc.root main = []
    · exact .inl hannexes
    · refine .inr ?_
      have hnodup : (childrenOf (.regulatoryInstrument, rid) ms ++ annexMints rid (keptAnnexes doc.root main) 0).map
          (·.node.order) |>.Nodup := by
        have hp := hperm.map (·.2.order)
        rw [hnumbers, List.map_map] at hp
        exact hp.nodup_iff.1 List.nodup_range'
      rw [List.map_append, htop, horders, List.nodup_append] at hnodup
      -- both have a first child
      have hnone : childrenOf (.regulatoryInstrument, rid) ms = [] := by
        by_contra hne
        have hlength := congrArg List.length htop
        rw [List.length_map, List.length_range'] at hlength
        have hpos := List.length_pos_iff.2 hne
        have hposa := List.length_pos_iff.2 hannexes
        exact hnodup.2.2 1 (by rw [List.mem_range'_1]; omega) 1 (by rw [List.mem_range'_1]; omega) rfl
      have hms : ms = [] := by
        by_contra hne
        obtain ⟨m, hm⟩ := List.exists_mem_of_ne_nil _ hne
        obtain ⟨b, ⟨m', hm', hparent, -⟩, -⟩ := Relation.TransGen.head'_iff.1 (hwalked.family.reached m hm)
        have hchild : m' ∈ childrenOf (.regulatoryInstrument, rid) ms := List.mem_filter.2 ⟨hm', decide_eq_true hparent⟩
        rw [hnone] at hchild
        cases hchild
      refine ⟨(walked_nil_iff hwalked).1 hms, hpositions.1 ?_⟩
      rw [hnone, List.nil_append] at hperm
      have hlt : ∀ l : List (Element × StructuralNode), l.map (·.2.order) = List.range' 1 l.length →
          l.Pairwise fun a b => a.2.order < b.2.order := by
        intro l hl
        have hrange : (List.range' 1 l.length).Pairwise (· < ·) := List.pairwise_lt_range'
        rw [← hl, List.pairwise_map] at hrange
        exact hrange
      have hsame : siblings = (annexMints rid (keptAnnexes doc.root main) 0).map Mint.sourced := by
        refine hperm.eq_of_pairwise (fun a b _ _ hab hba => absurd hab (by omega)) (hlt siblings hnumbers) (hlt _ ?_)
        rw [List.map_map, List.length_map]
        have hlength := congrArg List.length horders
        rw [List.length_map, List.length_range'] at hlength
        rw [hlength]
        exact horders
      rw [← hsame]
      exact hsorted
  · rintro (hnil | ⟨honly, hsorted⟩)
    · rw [hnil, show annexMints rid [] 0 = [] from rfl, List.append_nil]
      refine ⟨_, .refl _, h.sorted _, ?_⟩
      have hlength := congrArg List.length htop
      rw [List.length_map, List.length_range'] at hlength
      rw [List.map_map, List.length_map, hlength]
      exact htop
    · have hms : ms = [] := (walked_nil_iff hwalked).2 honly
      rw [hms, show childrenOf _ [] = [] from rfl, List.nil_append]
      refine ⟨_, .refl _, hpositions.2 hsorted, ?_⟩
      have hlength := congrArg List.length horders
      rw [List.length_map, List.length_range'] at hlength
      rw [List.map_map, List.length_map, hlength]
      exact horders

/-- **The articles keep their text** if and only if none has text outside its content. -/
theorem keepsText_iff (h : Minted digits rid root main ms) :
    (∀ n ∈ (all rid root main ms).map Mint.sourced, n.2.elementType = .article → words (nodeText n.2) ++
      (childNodes ((all rid root main ms).map Mint.sourced) ((all rid root main ms).map Mint.edge) (nodeKey n.2)).flatMap
        (fun p => words (nodeText p.2)) = contentWords n.1) ↔
      ∀ e ∈ structuralAll main.children, e.2.1 = .art → WholeArticle digits e.1 := by
  obtain ⟨annexes, k, hwalked⟩ := h.walked
  have hparagraphs : ∀ {articleLocalId number : String} {paragraphs : List (Element × String)} {order : ℕ},
      ((paragraphMints rid articleLocalId number paragraphs order).map Mint.sourced).flatMap (fun p => words (nodeText p.2)) =
        paragraphs.flatMap fun p => words (fullText p.1).toList := by
    intro articleLocalId number paragraphs
    induction paragraphs with
    | nil => intro order; rfl
    | cons paragraph paragraphs ih =>
      intro order
      rw [paragraphMints, List.map_cons, List.flatMap_cons, ih, List.flatMap_cons]
      rfl
  -- what one article keeps
  have hone : ∀ m ∈ ms, m.node.elementType = .article → (words (nodeText m.node) ++
      (childNodes ((all rid root main ms).map Mint.sourced) ((all rid root main ms).map Mint.edge) m.key).flatMap
        (fun p => words (nodeText p.2)) = contentWords m.source ↔ WholeArticle digits m.source) := by
    intro m hm hlabel
    obtain ⟨parts, number, order, hparts, hnode, hchildren⟩ := hwalked.family.articles h.nodup_walked m hm hlabel
    have hne : m.key ≠ (.regulatoryInstrument, rid) := by
      intro heq
      have hfst : m.node.elementType = .regulatoryInstrument := congrArg Prod.fst heq
      rw [hlabel] at hfst
      cases hfst
    have htext : words (nodeText m.node) = words parts.text.toList := by
      rw [hnode]
      rfl
    rw [h.childNodes_eq, if_neg hne, List.append_nil, hchildren, hparagraphs, htext]
    exact keeps_iff hparts
  constructor
  · intro hall e he hkind
    obtain ⟨m, hm, hlabel, hsource⟩ := (article_iff hwalked).2 ⟨e, he, hkind, rfl⟩
    rw [← hsource]
    exact (hone m hm hlabel).1 (hall m.sourced (List.mem_map_of_mem (List.mem_append_left _ hm)) hlabel)
  · intro hall n hn hlabel
    obtain ⟨m, hm, rfl⟩ := List.mem_map.1 hn
    rcases List.mem_append.1 hm with hm | hm
    · obtain ⟨e, he, hkind, hsource⟩ := (article_iff hwalked).1 ⟨m, hm, hlabel, rfl⟩
      exact (hone m hm hlabel).2 (hsource ▸ hall e he hkind)
    · have hannex := (annexMints_spec hm).2
      have hlabel : m.node.elementType = .article := hlabel
      rw [hannex] at hlabel
      cases hlabel

/-- Every node hangs on the instrument or on a node, by one edge, and is reached from the instrument. -/
theorem tree (h : Minted digits rid root main ms) : ∀ n ∈ (all rid root main ms).map Mint.sourced,
    (∃ e, ((all rid root main ms).map Mint.edge).filter (fun e => childKey e = nodeKey n.2) = [e] ∧
      (parentKey e = (.regulatoryInstrument, rid) ∨ ∃ p ∈ (all rid root main ms).map Mint.sourced, nodeKey p.2 = parentKey e)) ∧
    Relation.TransGen (fun a b => ∃ e ∈ (all rid root main ms).map Mint.edge, parentKey e = a ∧ childKey e = b)
      (.regulatoryInstrument, rid) (nodeKey n.2) := by
  obtain ⟨annexes, k, hwalked⟩ := h.walked
  have hannexes := @family_annexes digits rid (keptAnnexes root main) 0
  intro n hn
  obtain ⟨m, hm, rfl⟩ := List.mem_map.1 hn
  have hlinked : ∀ {a b}, Relation.TransGen (Linked (all rid root main ms)) a b →
      Relation.TransGen (fun a b => ∃ e ∈ (all rid root main ms).map Mint.edge, parentKey e = a ∧ childKey e = b) a b := by
    intro a b hab
    refine Relation.TransGen.mono (fun a b => ?_) _ _ hab
    rintro ⟨m, hm, hparent, hkey⟩
    exact ⟨m.edge, List.mem_map_of_mem hm, hparent, hkey⟩
  refine ⟨⟨m.edge, ?_, ?_⟩, ?_⟩
  · have hnodup := (List.nodup_cons.1 h.nodup).2
    have hedges : (all rid root main ms).map Mint.key = ((all rid root main ms).map Mint.edge).map childKey := by
      rw [List.map_map]
      rfl
    rw [hedges] at hnodup
    have hunique : ((all rid root main ms).map Mint.edge).filter (fun e => childKey e = childKey m.edge) = [m.edge] := by
      have hmem : m.edge ∈ (all rid root main ms).map Mint.edge := List.mem_map_of_mem hm
      generalize (all rid root main ms).map Mint.edge = edges at hnodup hmem
      induction edges with
      | nil => cases hmem
      | cons e edges ih =>
        rw [List.map_cons, List.nodup_cons] at hnodup
        rcases List.mem_cons.1 hmem with heq | hmem
        · rw [← heq, List.filter_cons_of_pos (by simp)]
          rw [← heq] at hnodup
          refine congrArg (m.edge :: ·) (List.filter_eq_nil_iff.2 fun e' he' htrue => hnodup.1 ?_)
          rw [← of_decide_eq_true htrue]
          exact List.mem_map_of_mem he'
        · rw [List.filter_cons_of_neg]
          · exact ih hnodup.2 hmem
          · intro htrue
            refine hnodup.1 ?_
            rw [of_decide_eq_true htrue]
            exact List.mem_map_of_mem hmem
    exact hunique
  · have hparents : m.parent = (.regulatoryInstrument, rid) ∨ m.parent ∈ (all rid root main ms).map Mint.key := by
      rcases List.mem_append.1 hm with hm | hm
      · refine (hwalked.family.parents m hm).imp_right fun hp => ?_
        rw [List.map_append]
        exact List.mem_append_left _ hp
      · exact .inl (annexMints_spec hm).1
    refine hparents.imp_right fun hp => ?_
    obtain ⟨p, hp, hkey⟩ := List.mem_map.1 hp
    exact ⟨p.sourced, List.mem_map_of_mem hp, hkey⟩
  · refine hlinked ?_
    rcases List.mem_append.1 hm with hm | hm
    · exact reached_mono (List.subset_append_left ..) (hwalked.family.reached m hm)
    · exact reached_mono (List.subset_append_right ..) (hannexes.reached m hm)

end Minted

end Parsed

/-- **The parsed structure is a tree that keeps the text** if and only if the document is well marked. -/
theorem parsed_tree_iff (digits : UnicodeDigits) (doc : Document) (rid : String)
    {nodes : List (Element × StructuralNode)} {edges : List StructuralEdge}
    (h : parseStructure digits doc.root rid = .ok (nodes, edges)) :
    ParsedTree rid nodes edges ↔
      ∃ main, mainContainer (containersOf doc.root) = some main ∧ WellMarked digits doc.root main := by
  obtain ⟨main, ms, annexes, n, hmain, hwalked, hresult⟩ := parseStructure_ok h
  rw [Prod.mk.injEq] at hresult
  obtain ⟨rfl, rfl⟩ := hresult
  have hids := @ids_eq _ _ _ _ _ doc.root main hwalked
  constructor
  · intro htree
    have hdistinct : ((localIds digits doc.root main).map (nodeId rid)).Nodup := by
      rw [← hids]
      have hnodes := htree.distinct
      rw [List.map_map] at hnodes
      exact hnodes
    have hminted : Minted digits rid doc.root main ms := ⟨⟨annexes, n, hwalked⟩, hmain, hdistinct.of_map⟩
    exact ⟨main, hmain, hminted.ids, hminted.ordered_top_iff.1 (htree.ordered _), hminted.keepsText_iff.1 htree.keepsText⟩
  · rintro ⟨main', hmain', hmarked⟩
    obtain rfl : main = main' := Option.some_inj.1 (hmain.symm.trans hmain')
    have hminted : Minted digits rid doc.root main ms := ⟨⟨annexes, n, hwalked⟩, hmain, hmarked.ids⟩
    refine ⟨?_, fun m hm => (hminted.tree m hm).1, fun m hm => (hminted.tree m hm).2, fun q => ?_,
      hminted.keepsText_iff.2 hmarked.articles⟩
    · rw [List.map_map]
      show ((ms ++ _).map (·.node.id)).Nodup
      rw [hids]
      exact hmarked.ids.map fun _ _ => nodeId_inj
    · by_cases hq : q = (.regulatoryInstrument, rid)
      · rw [hq]
        exact hminted.ordered_top_iff.2 hmarked.annexes
      · exact hminted.ordered_below hq

/-! ## Two documents -/

/-- Digits of ASCII only. -/
def asciiDigits : UnicodeDigits := ⟨fun _ => none, fun _ => false⟩

/-- A paragraph of the consolidated markup, its mark before its text. -/
def markedParagraph (position : ℕ) (mark text : String) : Element :=
  .mk position "div" [("class", "norm")] "" [.mk (position + 1) "span" [("class", "no-parag")] mark [] "",
    .mk (position + 2) "div" [] text [] ""] ""

/-- A document of one article with two paragraphs. -/
def articleDocument (mark mark' : String) : Element :=
  .mk 0 "html" [] "" [.mk 1 "div" [("class", "eli-container")] "" [.mk 2 "div" [("id", "art_1")] ""
    [markedParagraph 3 mark "The operator reports.", markedParagraph 6 mark' "The authority answers."] ""] ""] ""

/-- The document with the paragraphs 1 and 2 is parsed into a tree. -/
theorem parsed_tree_article : ∃ nodes edges,
    parseStructure asciiDigits (articleDocument "1." "2.") "X" = .ok (nodes, edges) ∧ ParsedTree "X" nodes edges := by
  have hordered : (articleDocument "1." "2.").iter.Pairwise fun e e' => e.position < e'.position := by decide +kernel
  have hok : (parseStructure asciiDigits (articleDocument "1." "2.") "X").isOk = true := by decide +kernel
  cases h : parseStructure asciiDigits (articleDocument "1." "2.") "X" with
  | error error =>
    rw [h] at hok
    cases hok
  | ok result =>
    obtain ⟨nodes, edges⟩ := result
    refine ⟨nodes, edges, rfl,
      (parsed_tree_iff asciiDigits ⟨articleDocument "1." "2.", hordered⟩ "X" h).2 ⟨_, rfl, ?_, .inl ?_, ?_⟩⟩
    · show (localIds asciiDigits (articleDocument "1." "2.") _).Nodup
      decide +kernel
    · show keptAnnexes (articleDocument "1." "2.") _ = []
      decide +kernel
    · intro e he hkind
      have hcontent : ∀ e ∈ structuralAll [Element.mk 2 "div" [("id", "art_1")] ""
          [markedParagraph 3 "1." "The operator reports.", markedParagraph 6 "2." "The authority answers."] ""],
          words e.1.text.toList = [] ∧ ∀ c ∈ e.1.children, words c.tail.toList = [] ∧
            (paragraph? asciiDigits c).isSome = true := by
        decide +kernel
      obtain ⟨hfront, heach⟩ := hcontent e he
      refine ⟨hfront, fun c hc => ⟨(heach c hc).1, fun _ _ hnone => ?_⟩⟩
      have hsome := (heach c hc).2
      rw [hnone] at hsome
      cases hsome

/-- **Two paragraphs marked 1** get one id. -/
theorem repeated_paragraph : ¬ ∀ (digits : UnicodeDigits) (doc : Document) (rid : String)
    (nodes : List (Element × StructuralNode)) (edges : List StructuralEdge),
    parseStructure digits doc.root rid = .ok (nodes, edges) → ParsedTree rid nodes edges := by
  intro h
  have hordered : (articleDocument "1." "1.").iter.Pairwise fun e e' => e.position < e'.position := by decide +kernel
  have hids : (parseStructure asciiDigits (articleDocument "1." "1.") "X").toOption.map (fun r => r.1.map (·.2.id)) =
      some ["X#art_1", "X#art_1.p1", "X#art_1.p1"] := by
    decide +kernel
  cases hparse : parseStructure asciiDigits (articleDocument "1." "1.") "X" with
  | error error =>
    rw [hparse] at hids
    cases hids
  | ok result =>
    obtain ⟨nodes, edges⟩ := result
    have htree := h asciiDigits ⟨articleDocument "1." "1.", hordered⟩ "X" nodes edges hparse
    rw [hparse] at hids
    have hids : nodes.map (·.2.id) = ["X#art_1", "X#art_1.p1", "X#art_1.p1"] := Option.some_inj.1 hids
    have hnodup := htree.distinct
    rw [hids] at hnodup
    exact absurd hnodup (by decide)

end PolicySystem.CellarEli
