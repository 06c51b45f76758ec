import PolicySystem.DomainMapper.NativeUnits

/-!
# Reading what ingestion wrote

`read_native_units` on the native graph of a parsed document.

* `articleCitation_eq`, `paragraphCitation_eq`, `annexCitation_eq`: the patterns on the citations that are minted;
* `Cites`: what the mints of a document cite;
* `units_read`: the units of a document whose articles and paragraphs are numbered, unless an annex is.
-/

namespace PolicySystem.DomainMapper

open Std (ExtTreeMap)
open Xml Text CellarEli StableSort

/-! ## Citations -/

/-- A number in ASCII digits, few enough for `int`. -/
structure Numeral (s : String) : Prop where
  ne_nil : s.toList ≠ []
  digit : ∀ c ∈ s.toList, c.isDigit = true
  short : s.toList.length ≤ 4300

instance (s : String) : Decidable (Numeral s) :=
  decidable_of_iff (s.toList.isEmpty = false ∧ s.toList.all Char.isDigit = true ∧ Nat.ble s.toList.length 4300 = true) (by
    rw [List.isEmpty_eq_false_iff, List.all_eq_true, Nat.ble_eq]
    exact ⟨fun h => ⟨h.1, h.2.1, h.2.2⟩, fun h => ⟨h.1, h.2, h.3⟩⟩)

section Citations

variable {digits : UnicodeDigits}

theorem isDigit_bounds {c : Char} (h : c.isDigit = true) : 48 ≤ c.toNat ∧ c.toNat ≤ 57 := by
  simp only [Char.isDigit, Bool.and_eq_true, decide_eq_true_eq] at h
  exact ⟨h.1, h.2⟩

theorem isDecimal_of_isDigit {c : Char} (h : c.isDigit = true) : digits.isDecimal c = true := by
  have hbounds := isDigit_bounds h
  rw [UnicodeDigits.isDecimal_ascii (by omega)]
  exact h

theorem isAsciiAlnum_bounds {c : Char} (h : isAsciiAlnum c = true) : 48 ≤ c.toNat ∧ c.toNat ≤ 122 := by
  simp only [isAsciiAlnum, Bool.or_eq_true, Char.isUpper, Char.isLower, Bool.and_eq_true, decide_eq_true_eq] at h
  rcases h with (h | h) | h
  · have h1 : 65 ≤ c.toNat := h.1
    have h2 : c.toNat ≤ 90 := h.2
    omega
  · have h1 : 97 ≤ c.toNat := h.1
    have h2 : c.toNat ≤ 122 := h.2
    omega
  · have hdigit := isDigit_bounds h
    omega

theorem isSpace_of_isAsciiAlnum {c : Char} (h : isAsciiAlnum c = true) : isSpace c = false := by
  have hbounds := isAsciiAlnum_bounds h
  unfold isSpace
  rw [decide_eq_false_iff_not]
  omega

theorem isSpace_of_isDigit {c : Char} (h : c.isDigit = true) : isSpace c = false :=
  isSpace_of_isAsciiAlnum (by simp [isAsciiAlnum, h])

/-- A run of characters of a class, up to where the class ends. -/
theorem takeWhile_run {p : Char → Bool} {s r : List Char} (hs : ∀ c ∈ s, p c = true) (hr : ∀ c ∈ r.head?, p c = false) :
    (s ++ r).takeWhile p = s ∧ (s ++ r).dropWhile p = r := by
  have hstop : r.takeWhile p = [] ∧ r.dropWhile p = r := by
    cases r with
    | nil => exact ⟨rfl, rfl⟩
    | cons c r =>
      have hc := hr c rfl
      exact ⟨List.takeWhile_cons_of_neg (by simp [hc]), List.dropWhile_cons_of_neg (by simp [hc])⟩
  rw [List.takeWhile_append_of_pos hs, List.dropWhile_append_of_pos hs, hstop.1, hstop.2, List.append_nil]
  exact ⟨rfl, rfl⟩

theorem digitRun_numeral {s : String} (h : Numeral s) {r : List Char} (hr : ∀ c ∈ r.head?, digits.isDecimal c = false) :
    digitRun digits (s.toList ++ r) = some (s.toList, r) := by
  obtain ⟨htake, hdrop⟩ := takeWhile_run (fun c hc => @isDecimal_of_isDigit digits c (h.digit c hc)) hr
  unfold digitRun
  rw [htake, hdrop]
  exact if_pos h.ne_nil

/-- One space, then characters that are none. -/
theorem dropSpace {s : List Char} (hs : ∀ c ∈ s.head?, isSpace c = false) : (' ' :: s).dropWhile isSpace = s := by
  have hspace : isSpace ' ' = true := by decide
  rw [List.dropWhile_cons_of_pos hspace]
  exact (takeWhile_run (s := []) (fun c hc => by cases hc) hs).2

theorem articleStart_eq {s : String} (h : Numeral s) {r : List Char} (hr : ∀ c ∈ r.head?, digits.isDecimal c = false) :
    articleStart digits ('A' :: 'r' :: 't' :: '.' :: ' ' :: (s.toList ++ r)) = some (s.toList, r) := by
  show digitRun digits ((' ' :: (s.toList ++ r)).dropWhile isSpace) = _
  rw [dropSpace, digitRun_numeral h hr]
  intro c hc
  have hne := h.ne_nil
  cases hs : s.toList with
  | nil => exact absurd hs hne
  | cons d t =>
    rw [hs] at hc
    obtain rfl : d = c := Option.some_inj.1 hc
    exact isSpace_of_isDigit (h.digit d (by rw [hs]; exact List.mem_cons_self))

/-- **An article's citation** is read where its number is a numeral. -/
theorem articleCitation_eq {n : String} (h : Numeral n) : articleCitation digits ("Art. " ++ n) = some n := by
  have hstart := @articleStart_eq digits n h [] (fun c hc => by cases hc)
  rw [List.append_nil] at hstart
  unfold articleCitation
  rw [String.toList_append, show "Art. ".toList ++ n.toList = 'A' :: 'r' :: 't' :: '.' :: ' ' :: n.toList from rfl, hstart]
  show (if atEnd [] then some (String.ofList n.toList) else none) = _
  rw [String.ofList_toList]
  rfl

theorem paragraphCitation_eq {n m : String} (h : Numeral n) (h' : Numeral m) :
    paragraphCitation digits ("Art. " ++ n ++ "(" ++ m ++ ")") = some (n, m) := by
  have hopen : digits.isDecimal '(' = false := by
    rw [UnicodeDigits.isDecimal_ascii (by decide)]
    decide
  have hclose : digits.isDecimal ')' = false := by
    rw [UnicodeDigits.isDecimal_ascii (by decide)]
    decide
  have hstart := @articleStart_eq digits n h ('(' :: (m.toList ++ [')'])) (by
    intro c hc
    obtain rfl := Option.some_inj.1 hc
    exact hopen)
  have hnumber := @digitRun_numeral digits m h' [')'] (by
    intro c hc
    obtain rfl := Option.some_inj.1 hc
    exact hclose)
  have htext : ("Art. " ++ n ++ "(" ++ m ++ ")").toList =
      'A' :: 'r' :: 't' :: '.' :: ' ' :: (n.toList ++ '(' :: (m.toList ++ [')'])) := by
    simp
  unfold paragraphCitation
  rw [htext, hstart]
  show (digitRun digits (m.toList ++ [')']) >>= _) = _
  rw [hnumber]
  show (if atEnd [] then some (String.ofList n.toList, String.ofList m.toList) else none) = _
  rw [String.ofList_toList, String.ofList_toList]
  rfl

/-- **An annex's citation** is refused where its label is of digits alone. -/
theorem annexCitation_eq {label : String} (hne : label.toList ≠ []) (halnum : ∀ c ∈ label.toList, isAsciiAlnum c = true) :
    annexCitation digits ("Annex " ++ label) =
      if ∀ c ∈ label.toList, c.isDigit = true then none else some label := by
  have htext : ("Annex " ++ label).toList = 'A' :: 'n' :: 'n' :: 'e' :: 'x' :: ' ' :: label.toList := by simp
  have hword : ∀ c ∈ label.toList, (!isSpace c) = true := by
    intro c hc
    rw [isSpace_of_isAsciiAlnum (halnum c hc)]
    rfl
  have hdrop : (' ' :: label.toList).dropWhile isSpace = label.toList := by
    refine dropSpace fun c hc => ?_
    have hmem : c ∈ label.toList := List.mem_of_mem_head? hc
    exact isSpace_of_isAsciiAlnum (halnum c hmem)
  have hspaces : (' ' :: label.toList).takeWhile isSpace ≠ [] := by
    rw [List.takeWhile_cons_of_pos (by decide)]
    exact List.cons_ne_nil _ _
  have hrun := takeWhile_run (r := []) hword (fun c hc => by cases hc)
  rw [List.append_nil] at hrun
  have hdigits : label.toList.all digits.isDecimal = true ↔ ∀ c ∈ label.toList, c.isDigit = true := by
    rw [List.all_eq_true]
    refine forall_congr' fun c => imp_congr_right fun hc => ?_
    have hbounds := isAsciiAlnum_bounds (halnum c hc)
    rw [UnicodeDigits.isDecimal_ascii (by omega)]
  unfold annexCitation
  rw [htext]
  simp only [hdrop, hrun.1, hrun.2, hdigits]
  by_cases hall : ∀ c ∈ label.toList, c.isDigit = true
  · rw [if_pos hall, if_neg fun h => h.2.2.2 hall]
  · rw [if_neg hall, if_pos ⟨hspaces, hne, rfl, hall⟩, String.ofList_toList]

theorem strip_numeral {s : List Char} (h : ∀ c ∈ s, c.isDigit = true) : UnicodeDigits.strip s = s := by
  have hdrop : ∀ {t : List Char}, (∀ c ∈ t, c.isDigit = true) → t.dropWhile isSpace = t := by
    intro t ht
    refine (takeWhile_run (s := []) (fun c hc => by cases hc) fun c hc => ?_).2
    have hmem : c ∈ t := List.mem_of_mem_head? hc
    exact isSpace_of_isDigit (ht c hmem)
  unfold UnicodeDigits.strip
  rw [hdrop h, hdrop fun c hc => h c (List.mem_reverse.1 hc), List.reverse_reverse]

theorem value_digit {c : Char} (h : c.isDigit = true) : digits.value c = some (c.toNat - 48) := if_pos h

theorem readDigits_numeral {s : List Char} (h : ∀ c ∈ s, c.isDigit = true) (n : ℕ) : ∃ m, digits.readDigits n s = some m := by
  induction s generalizing n with
  | nil => exact ⟨n, rfl⟩
  | cons c s ih =>
    obtain ⟨m, hm⟩ := ih (fun d hd => h d (List.mem_cons_of_mem _ hd)) (10 * n + (c.toNat - 48))
    have hdigit := h c List.mem_cons_self
    have hne : c ≠ '_' := by
      rintro rfl
      exact absurd hdigit (by decide)
    refine ⟨m, ?_⟩
    rw [UnicodeDigits.readDigits.eq_3 _ _ _ _ fun _ _ heq _ => absurd heq hne, value_digit hdigit, Option.bind_some]
    exact hm

/-- A numeral is read by `int`. -/
theorem pyInt_numeral {s : String} (h : Numeral s) : ∃ n, digits.pyInt s.toList = some n := by
  obtain ⟨hne, hdigit, hshort⟩ := h
  unfold UnicodeDigits.pyInt
  rw [strip_numeral hdigit]
  cases hs : s.toList with
  | nil => exact absurd hs hne
  | cons c t =>
    rw [hs] at hdigit hshort
    have hc := hdigit c List.mem_cons_self
    have hlength : (t.filter fun d => d ≠ '_').length < 4300 := by
      have hle := List.length_filter_le (fun d : Char => decide (d ≠ '_')) t
      rw [List.length_cons] at hshort
      omega
    obtain ⟨m, hm⟩ := @readDigits_numeral digits t (fun d hd => hdigit d (List.mem_cons_of_mem _ hd)) (c.toNat - 48)
    have hread : digits.readNatural (c :: t) = some m := by
      show (if _ then _ else _) = _
      rw [if_pos hlength, value_digit hc, Option.bind_some]
      exact hm
    have hplus : c ≠ '+' := by
      rintro rfl
      exact absurd hc (by decide)
    have hminus : c ≠ '-' := by
      rintro rfl
      exact absurd hc (by decide)
    refine ⟨Int.ofNat m, ?_⟩
    split
    · rename_i heq
      exact absurd (List.cons.inj heq).1 hplus
    · rename_i heq
      exact absurd (List.cons.inj heq).1 hminus
    · rw [hread]
      rfl

end Citations

/-! ## The units of a document -/

/-- The number in the id of a structural element. -/
def numberOf (e : Element) : String := ((structId (ownId e)).map Prod.snd).getD ""

/-- The number of a paragraph. -/
def paragraphNumberOf (digits : UnicodeDigits) (e : Element) : String :=
  match paragraphNumber digits e with
  | .ok (some number) => number
  | _ => ""

/-- The unit of a whole node. -/
def wholeUnit (n : Element × StructuralNode) : ExtractionUnit :=
  ⟨n.2.citationRef, n.2.text.getD "", numberOf n.1, "1", n.2.heading.getD ""⟩

/-- The unit of a paragraph of an article. -/
def partUnit (digits : UnicodeDigits) (n p : Element × StructuralNode) : ExtractionUnit :=
  ⟨p.2.citationRef, p.2.text.getD "", numberOf n.1, paragraphNumberOf digits p.1, n.2.heading.getD ""⟩

/-- One unit a paragraph, or one for an article without paragraphs. -/
def articleUnits (digits : UnicodeDigits) (nodes : List (Element × StructuralNode)) (edges : List StructuralEdge)
    (n : Element × StructuralNode) : List ExtractionUnit :=
  if childNodes nodes edges (nodeKey n.2) = [] then [wholeUnit n]
  else (childNodes nodes edges (nodeKey n.2)).map (partUnit digits n)

/-- The units of the articles, in the order of the document. -/
def documentUnits (digits : UnicodeDigits) (nodes : List (Element × StructuralNode)) (edges : List StructuralEdge) :
    List ExtractionUnit :=
  (nodes.filter fun n => n.2.elementType = .article).flatMap (articleUnits digits nodes edges)

/-- The units of the annexes, in the order of their nodes. -/
def annexUnits (nodes : List (Element × StructuralNode)) : List ExtractionUnit :=
  (nodes.filter fun n => n.2.elementType = .annex).map wholeUnit

/-- The articles and the paragraphs are numbered in digits. -/
structure Numbered (digits : UnicodeDigits) (nodes : List (Element × StructuralNode)) : Prop where
  articles : ∀ n ∈ nodes, n.2.elementType = .article → Numeral (numberOf n.1)
  paragraphs : ∀ n ∈ nodes, n.2.elementType = .paragraph → Numeral (paragraphNumberOf digits n.1)

instance (digits : UnicodeDigits) (nodes : List (Element × StructuralNode)) : Decidable (Numbered digits nodes) :=
  decidable_of_iff ((∀ n ∈ nodes, n.2.elementType = .article → Numeral (numberOf n.1)) ∧
    ∀ n ∈ nodes, n.2.elementType = .paragraph → Numeral (paragraphNumberOf digits n.1))
    ⟨fun h => ⟨h.1, h.2⟩, fun h => ⟨h.1, h.2⟩⟩

/-- An annex is named by digits alone. -/
def BareAnnex (nodes : List (Element × StructuralNode)) : Prop :=
  ∃ n ∈ nodes, n.2.elementType = .annex ∧ ∀ c ∈ (numberOf n.1).toList, c.isDigit = true

instance (nodes : List (Element × StructuralNode)) : Decidable (BareAnnex nodes) :=
  decidable_of_iff (∃ n ∈ nodes, n.2.elementType = .annex ∧ (numberOf n.1).toList.all Char.isDigit = true) (by
    simp only [List.all_eq_true]
    exact Iff.rfl)

section Cites

variable {digits : UnicodeDigits} {celex : String} {root main : Element} {ms : List Mint}

/-- The number in an id is alphanumeric. -/
theorem structId_alnum {id number : String} {kind : Kind} (h : structId id = some (kind, number)) :
    number.toList ≠ [] ∧ ∀ c ∈ number.toList, isAsciiAlnum c = true := by
  have hnumber : ∀ {s : List Char} {k : Kind}, (elementNumber s).map (k, ·) = some (kind, number) →
      number.toList ≠ [] ∧ ∀ c ∈ number.toList, isAsciiAlnum c = true := by
    intro s k hs
    obtain ⟨n, hn, heq⟩ := Option.map_eq_some_iff.1 hs
    obtain rfl : n = number := congrArg Prod.snd heq
    unfold elementNumber at hn
    simp only at hn
    split at hn
    · rename_i hcond
      obtain rfl := Option.some_inj.1 hn
      rw [String.toList_ofList]
      exact ⟨hcond.1, fun c hc => List.mem_takeWhile_imp hc⟩
    · cases hn
  unfold structId at h
  split at h
  · exact hnumber h
  · exact hnumber h
  · exact hnumber h
  · exact hnumber h
  · exact hnumber h
  · cases h

/-- Articles are minted for their divs. -/
theorem walked_article {parentLabel : Label} {parentId : String} {es : List Element} {order order' : ℕ} {ms : List Mint}
    {annexes : List (Element × String)} (h : Walked digits celex parentLabel parentId es order ms annexes order') :
    ∀ m ∈ ms, m.node.elementType = .article → ∃ parts number order, structId (ownId m.source) = some (.art, number) ∧
      articleParts digits m.source = .ok parts ∧ m.node = articleNode celex (ownId m.source) number parts order := by
  induction h with
  | nil | skip | annex =>
    intro m hm
    cases hm
  | cons first rest ih ih' =>
    intro m hm
    rcases List.mem_append.1 hm with hm | hm
    · exact ih m hm
    · exact ih' m hm
  | pass htag hid inner ih => exact ih
  | article htag hid hparts =>
    intro m hm hlabel
    rcases List.mem_cons.1 hm with rfl | hm
    · exact ⟨_, _, _, hid, hparts, rfl⟩
    · rw [paragraphMints_label m hm] at hlabel
      cases hlabel
  | recital htag hid =>
    intro m hm hlabel
    obtain rfl := List.mem_singleton.1 hm
    cases hlabel
  | container htag hid hkind inner ih =>
    intro m hm hlabel
    rcases List.mem_cons.1 hm with rfl | hm
    · rcases hkind with rfl | rfl <;> cases hlabel
    · exact ih m hm hlabel

theorem paragraph?_number {e : Element} {paragraph : Element × String} (h : paragraph? digits e = some paragraph) :
    paragraph.2 = paragraphNumberOf digits paragraph.1 := by
  unfold paragraph? at h
  split at h
  · split at h
    · rename_i number hnumber
      obtain rfl := Option.some_inj.1 h
      unfold paragraphNumberOf
      simp only [hnumber]
    · cases h
  · cases h

theorem paragraphMints_cite {localId number : String} {paragraphs : List (Element × String)} {order : ℕ} :
    ∀ m ∈ paragraphMints celex localId number paragraphs order, ∃ p ∈ paragraphs, m.source = p.1 ∧
      m.node.citationRef = "Art. " ++ number ++ "(" ++ p.2 ++ ")" ∧ m.node.heading = none := by
  induction paragraphs generalizing order with
  | nil =>
    intro m hm
    cases hm
  | cons paragraph paragraphs ih =>
    intro m hm
    rcases List.mem_cons.1 hm with rfl | hm
    · exact ⟨paragraph, List.mem_cons_self, rfl, rfl, rfl⟩
    · obtain ⟨p, hp, hcite⟩ := ih m hm
      exact ⟨p, List.mem_cons_of_mem _ hp, hcite⟩

/-- **What a document's articles cite**: their number, and under them the numbers of their paragraphs, in order. -/
theorem article_cites (h : Minted digits celex root main ms) {m : Mint} (hm : m ∈ ms) (hlabel : m.node.elementType = .article) :
    m.node.citationRef = "Art. " ++ numberOf m.source ∧
      ∀ p ∈ childrenOf m.key (Minted.all celex root main ms), p.node.elementType = .paragraph ∧
        p.node.citationRef = "Art. " ++ numberOf m.source ++ "(" ++ paragraphNumberOf digits p.source ++ ")" := by
  obtain ⟨annexes, n, hwalked⟩ := h.walked
  obtain ⟨parts, number, order, hid, hparts, hnode⟩ := walked_article hwalked m hm hlabel
  obtain ⟨parts', number', order', hparts', hnode', hchildren⟩ := hwalked.family.articles h.nodup_walked m hm hlabel
  have hnumber : numberOf m.source = number := by
    unfold numberOf
    rw [hid]
    rfl
  have hcite : m.node.citationRef = "Art. " ++ number := by
    rw [hnode]
    rfl
  have hsame : number' = number := by
    have hcite' : m.node.citationRef = "Art. " ++ number' := by
      rw [hnode']
      rfl
    exact (String.append_right_inj _).1 (hcite'.symm.trans hcite)
  rw [hsame] at hchildren
  rw [hnumber]
  refine ⟨hcite, fun p hp => ?_⟩
  have hbelow : childrenOf m.key (Minted.all celex root main ms) = childrenOf m.key ms := by
    rw [childrenOf_append, Minted.childrenOf_annexes, if_neg, List.append_nil]
    intro heq
    have hfst : m.node.elementType = .regulatoryInstrument := congrArg Prod.fst heq
    rw [hlabel] at hfst
    cases hfst
  rw [hbelow, hchildren] at hp
  refine ⟨paragraphMints_label p hp, ?_⟩
  obtain ⟨paragraph, hparagraph, hsource, hcite, -⟩ := paragraphMints_cite p hp
  rw [(articleParts_ok hparts').1, List.mem_filterMap] at hparagraph
  obtain ⟨e, -, he⟩ := hparagraph
  rw [hcite, hsource, paragraph?_number he]

mutual

/-- A structural element is one by its id. -/
theorem structural_id : ∀ (e : Element) {x : Element × Kind × String}, x ∈ structural e → structId (ownId x.1) = some x.2
  | .mk position tag attributes text children tail, x, h => by
    rw [structural_eq] at h
    split at h
    · cases h
    · split at h
      · exact structuralAll_id children h
      · rename_i kind number hid
        rcases List.mem_cons.1 h with rfl | h
        · exact hid
        · split at h
          · exact structuralAll_id children h
          · cases h

theorem structuralAll_id : ∀ (es : List Element) {x : Element × Kind × String}, x ∈ structuralAll es →
    structId (ownId x.1) = some x.2
  | [], x, h => by cases h
  | e :: es, x, h => by
    rcases List.mem_append.1 h with h | h
    · exact structural_id e h
    · exact structuralAll_id es h

end

/-- The annexes that are minted are numbered by their ids. -/
theorem keptAnnexes_number {a : Element × String} (ha : a ∈ keptAnnexes root main) :
    structId (ownId a.1) = some (.anx, a.2) := by
  rcases List.mem_append.1 (FirstWins.mem_of_mem_collect ha) with hmem | hmem
  · obtain ⟨e, -, he⟩ := List.mem_filterMap.1 hmem
    obtain ⟨number, hnumber, rfl⟩ := Option.map_eq_some_iff.1 he
    unfold annexNumber at hnumber
    split at hnumber
    · rename_i n hid
      obtain rfl := Option.some_inj.1 hnumber
      exact hid
    · cases hnumber
  · obtain ⟨e, he, heq⟩ := List.mem_filterMap.1 hmem
    split at heq
    · rename_i hkind
      obtain rfl := Option.some_inj.1 heq
      rw [structuralAll_id _ he, ← hkind]
    · cases heq

theorem annexMints_cite {annexes : List (Element × String)} {order : ℕ} : ∀ m ∈ annexMints celex annexes order,
    ∃ a ∈ annexes, m.source = a.1 ∧ m.node.citationRef = "Annex " ++ a.2 ∧ m.node.heading = none := by
  induction annexes generalizing order with
  | nil =>
    intro m hm
    cases hm
  | cons annex annexes ih =>
    intro m hm
    rcases List.mem_cons.1 hm with rfl | hm
    · exact ⟨annex, List.mem_cons_self, rfl, rfl, rfl⟩
    · obtain ⟨a, ha, hcite⟩ := ih m hm
      exact ⟨a, List.mem_cons_of_mem _ ha, hcite⟩

/-- **What a document's annexes cite.** -/
theorem annex_cites {m : Mint} (hm : m ∈ annexMints celex (keptAnnexes root main) 0) :
    m.node.citationRef = "Annex " ++ numberOf m.source ∧ m.node.heading = none ∧ (numberOf m.source).toList ≠ [] ∧
      ∀ c ∈ (numberOf m.source).toList, isAsciiAlnum c = true := by
  obtain ⟨a, ha, hsource, hcite, hheading⟩ := annexMints_cite m hm
  have hid := keptAnnexes_number ha
  have hnumber : numberOf m.source = a.2 := by
    unfold numberOf
    rw [hsource, hid]
    rfl
  rw [hnumber]
  exact ⟨hcite, hheading, structId_alnum hid⟩

end Cites

/-! ## The native graph -/

/-- A graph that holds what was minted for a document under an instrument, and otherwise edges that lead nowhere from
there. -/
structure Ingested (digits : UnicodeDigits) (celex rid : String) (root main : Element) (ms : List Mint) (G : Graph) : Prop where
  minted : Minted digits celex root main ms
  columns : ∀ m ∈ Minted.all celex root main ms, G.nodes[m.ref]? = some ((default : NodeContent).upsert m.node.properties none)
  edges : ∃ old : Multiset EdgeKey,
    edgeKeys G = ((Minted.all celex root main ms).map fun m => (CellarEli.hasEdge rid m.edge).edgeKey : Multiset EdgeKey) + old ∧
      ∀ k ∈ old, k.source ∉ instrumentRef rid :: (Minted.all celex root main ms).map Mint.ref

section Native

variable {digits : UnicodeDigits} {celex rid : String} {root main : Element} {ms : List Mint} {scan : ScanOrder} {G : Graph}

/-- The record of a mint's edge. -/
def recordOf (rid : String) (m : Mint) : EdgeRecord := (CellarEli.hasEdge rid m.edge).edgeKey.record

theorem recordOf_source (m : Mint) : (recordOf rid m).source = m.from rid := rfl

theorem recordOf_target (m : Mint) : (recordOf rid m).target = m.ref := rfl

theorem hasRecords_perm (scan : ScanOrder) (h : Ingested digits celex rid root main ms G) : ∃ old : List EdgeRecord,
    (hasRecords scan G).Perm ((Minted.all celex root main ms).map (recordOf rid) ++ old) ∧
      ∀ r ∈ old, r.source ∉ instrumentRef rid :: (Minted.all celex root main ms).map Mint.ref := by
  obtain ⟨old, hkeys, hold⟩ := h.edges
  obtain ⟨old, rfl⟩ : ∃ l : List EdgeKey, (l : Multiset EdgeKey) = old := Quot.exists_rep old
  refine ⟨(old.map EdgeKey.record).filter fun r => r.relType = "HAS", ?_, ?_⟩
  · have hperm : ((scan.order G.edges).map Prod.fst).Perm
        (((Minted.all celex root main ms).map fun m => (CellarEli.hasEdge rid m.edge).edgeKey) ++ old) := by
      rw [← Multiset.coe_eq_coe, ← Multiset.map_coe, scan.perm, ← Multiset.coe_add]
      exact hkeys
    have hrecords := (hperm.map EdgeKey.record).filter fun r : EdgeRecord => decide (r.relType = "HAS")
    rw [List.map_map, List.map_append, List.map_map, List.filter_append] at hrecords
    have hall : ((Minted.all celex root main ms).map (EdgeKey.record ∘ fun m => (CellarEli.hasEdge rid m.edge).edgeKey)).filter
        (fun r : EdgeRecord => decide (r.relType = "HAS")) = (Minted.all celex root main ms).map (recordOf rid) := by
      refine List.filter_eq_self.2 fun r hr => ?_
      obtain ⟨m, -, rfl⟩ := List.mem_map.1 hr
      rfl
    rw [hall] at hrecords
    exact hrecords
  · intro r hr
    obtain ⟨k, hk, rfl⟩ := List.mem_map.1 (List.mem_filter.1 hr).1
    exact hold k hk

/-- The instrument reaches every mint over `HAS` edges. -/
theorem reached_ref (h : Minted digits celex root main ms) {m : Mint} (hm : m ∈ Minted.all celex root main ms) :
    Relation.TransGen (Trails.Step EdgeRecord.source EdgeRecord.target ((Minted.all celex root main ms).map (recordOf rid)))
      (instrumentRef rid) m.ref := by
  have hreach := (h.tree m.sourced (List.mem_map_of_mem hm)).2
  have hkey : anchored rid (nodeKey m.sourced.2) = m.ref := if_neg (h.noInstrument m hm)
  rw [← hkey, show instrumentRef rid = anchored rid (.regulatoryInstrument, celex) from rfl]
  refine Relation.TransGen.lift (anchored rid) (fun a b hstep => ?_) _ _ hreach
  obtain ⟨e, he, rfl, rfl⟩ := hstep
  obtain ⟨m', hm', rfl⟩ := List.mem_map.1 he
  refine ⟨recordOf rid m', List.mem_map_of_mem hm', rfl, ?_⟩
  exact (if_neg (h.noInstrument m' hm')).symm

/-- **The instrument's nodes of a label**, each once. -/
theorem reachedNodes_perm (scan : ScanOrder) (h : Ingested digits celex rid root main ms G) (label : Label) :
    (reachedNodes scan G rid label.name).Perm
      (((Minted.all celex root main ms).filter fun m => m.node.elementType = label).map Mint.ref) := by
  obtain ⟨old, hperm, hold⟩ := hasRecords_perm scan h
  have htargets : ((Minted.all celex root main ms).map (recordOf rid)).map EdgeRecord.target =
      (Minted.all celex root main ms).map Mint.ref := by
    rw [List.map_map]
    rfl
  have hroot : instrumentRef rid ∉ (Minted.all celex root main ms).map Mint.ref := by
    intro hmem
    obtain ⟨m, hm, heq⟩ := List.mem_map.1 hmem
    exact keyRef_ne_instrument (h.minted.noInstrument m hm) rid heq
  have hends : (Trails.trailEnds EdgeRecord.source EdgeRecord.target (hasRecords scan G).length (hasRecords scan G)
      (instrumentRef rid)).Perm ((Minted.all celex root main ms).map Mint.ref) := by
    refine (Trails.trailEnds_perm hperm).trans ?_
    rw [Trails.trailEnds_append, ← htargets]
    · refine Trails.trailEnds_tree ?_ ?_ ?_ ?_
      · rw [htargets]
        exact h.minted.refs_nodup
      · rw [htargets]
        exact hroot
      · rw [hperm.length_eq, List.length_append]
        exact Nat.le_add_right _ _
      · intro r hr
        obtain ⟨m, hm, rfl⟩ := List.mem_map.1 hr
        exact reached_ref h.minted hm
    · intro r hr
      have hnot := hold r hr
      rw [List.mem_cons, not_or] at hnot
      rw [htargets]
      exact hnot
  have hfilter := hends.filter fun n : NodeRef => decide (n.label = label.name)
  rw [List.filter_map] at hfilter
  have hlabels : (Minted.all celex root main ms).filter ((fun n : NodeRef => decide (n.label = label.name)) ∘ Mint.ref) =
      (Minted.all celex root main ms).filter fun m => m.node.elementType = label := by
    refine List.filter_congr fun m _ => ?_
    rw [Function.comp_apply]
    exact decide_eq_decide.2 Label.name_injective.eq_iff
  rw [hlabels] at hfilter
  exact hfilter

/-! ### Columns -/

theorem properties_get (n : StructuralNode) (key : String) : n.properties[key]? =
    if key = "text" then n.text.map textValue
    else if key = "heading" then n.heading.map textValue
    else if key = "order" then some (.scalar (.int n.order))
    else if key = "citation_ref" then some (textValue n.citationRef)
    else none := by
  unfold StructuralNode.properties
  cases n.text <;> cases n.heading <;>
    simp only [ExtTreeMap.getElem?_insert, Std.compare_eq_iff_eq, ExtTreeMap.getElem?_empty, Option.map_some, Option.map_none] <;>
    grind

theorem column_ref (h : Ingested digits celex rid root main ms G) {m : Mint} (hm : m ∈ Minted.all celex root main ms)
    (key : String) : (G.nodes[m.ref]?.bind fun v => v.properties[key]?) = m.node.properties[key]? := by
  rw [h.columns m hm, Option.bind_some]
  show ((∅ : PropertyMap) ∪ m.node.properties)[key]? = _
  rw [ExtTreeMap.getElem?_union, ExtTreeMap.getElem?_empty, Option.or_none]

theorem citation_ref (h : Ingested digits celex rid root main ms G) {m : Mint} (hm : m ∈ Minted.all celex root main ms) :
    textColumn G m.ref "citation_ref" = m.node.citationRef := by
  unfold textColumn
  rw [column_ref h hm, properties_get]
  rfl

theorem text_ref (h : Ingested digits celex rid root main ms G) {m : Mint} (hm : m ∈ Minted.all celex root main ms) :
    textColumn G m.ref "text" = m.node.text.getD "" := by
  unfold textColumn
  rw [column_ref h hm, properties_get, if_pos rfl]
  cases m.node.text <;> rfl

theorem heading_ref (h : Ingested digits celex rid root main ms G) {m : Mint} (hm : m ∈ Minted.all celex root main ms) :
    textColumn G m.ref "heading" = m.node.heading.getD "" := by
  unfold textColumn
  rw [column_ref h hm, properties_get, if_neg (by decide), if_pos rfl]
  cases m.node.heading <;> rfl

theorem order_ref (h : Ingested digits celex rid root main ms G) {m : Mint} (hm : m ∈ Minted.all celex root main ms) :
    orderColumn G m.ref = m.node.order := by
  unfold orderColumn
  rw [column_ref h hm, properties_get]
  rfl

/-- Siblings numbered from one come back in their order. -/
theorem sortBy_order (h : Ingested digits celex rid root main ms G) {siblings : List Mint}
    (hmem : siblings ⊆ Minted.all celex root main ms) {n : ℕ} (hn : siblings.map (·.node.order) = List.range' 1 n)
    {refs : List NodeRef} (hperm : refs.Perm (siblings.map Mint.ref)) :
    sortBy (orderColumn G) refs = siblings.map Mint.ref := by
  refine sortBy_of_perm ?_ hperm
  have hlt : (siblings.map (·.node.order)).Pairwise (· < ·) := hn ▸ List.pairwise_lt_range'
  rw [List.pairwise_map] at hlt ⊢
  refine List.Pairwise.imp_of_mem (fun ha hb hab => ?_) hlt
  rw [order_ref h (hmem ha), order_ref h (hmem hb)]
  exact_mod_cast hab

/-! ### Paragraphs -/

/-- The edges of an article lead to its paragraphs. -/
theorem from_ref_iff (h : Minted digits celex root main ms) {m m' : Mint} (hm : m ∈ Minted.all celex root main ms) :
    m'.from rid = m.ref ↔ m'.parent = m.key := by
  have hlabel : m.key.1 ≠ .regulatoryInstrument := h.noInstrument m hm
  unfold Mint.from anchored
  split
  · rename_i hparent
    constructor
    · intro heq
      exact absurd heq.symm (keyRef_ne_instrument hlabel rid)
    · intro heq
      exact absurd (heq ▸ hparent) hlabel
  · exact keyRef_injective.eq_iff

theorem paragraphNodes_perm (h : Ingested digits celex rid root main ms G) {m : Mint}
    (hm : m ∈ Minted.all celex root main ms) (hlabel : m.node.elementType = .article)
    (hchildren : ∀ p ∈ childrenOf m.key (Minted.all celex root main ms), p.node.elementType = .paragraph) :
    (paragraphNodes scan G m.ref.id).Perm ((childrenOf m.key (Minted.all celex root main ms)).map Mint.ref) := by
  obtain ⟨old, hperm, hold⟩ := hasRecords_perm scan h
  have hrefname : (⟨"ARTICLE", m.ref.id⟩ : NodeRef) = m.ref := by
    show (⟨"ARTICLE", m.node.id⟩ : NodeRef) = ⟨m.node.elementType.name, m.node.id⟩
    rw [hlabel]
    rfl
  have hfilter := (hperm.filter fun r : EdgeRecord => decide (r.source = m.ref ∧ r.target.label = "PARAGRAPH")).map
    EdgeRecord.target
  have hnone : old.filter (fun r : EdgeRecord => decide (r.source = m.ref ∧ r.target.label = "PARAGRAPH")) = [] := by
    refine List.filter_eq_nil_iff.2 fun r hr htrue => hold r hr ?_
    rw [(of_decide_eq_true htrue).1]
    exact List.mem_cons_of_mem _ (List.mem_map_of_mem hm)
  have hbelow : ((Minted.all celex root main ms).map (recordOf rid)).filter
      (fun r : EdgeRecord => decide (r.source = m.ref ∧ r.target.label = "PARAGRAPH")) =
      (childrenOf m.key (Minted.all celex root main ms)).map (recordOf rid) := by
    unfold childrenOf
    rw [List.filter_map]
    refine congrArg _ (List.filter_congr fun m' hm' => ?_)
    rw [Function.comp_apply, decide_eq_decide]
    show m'.from rid = m.ref ∧ m'.ref.label = "PARAGRAPH" ↔ _
    rw [from_ref_iff h.minted hm]
    refine and_iff_left_of_imp fun hparent => ?_
    have hparagraph := hchildren m' (List.mem_filter.2 ⟨hm', decide_eq_true hparent⟩)
    show m'.node.elementType.name = _
    rw [hparagraph]
    rfl
  rw [List.filter_append, hnone, List.append_nil, hbelow, List.map_map] at hfilter
  unfold paragraphNodes
  rw [hrefname]
  exact hfilter

theorem mapM_map_ok {α β γ ε : Type} {f : β → Except ε γ} {row : α → β} {image : α → γ} {xs : List α}
    (h : ∀ x ∈ xs, f (row x) = .ok (image x)) : (xs.map row).mapM f = .ok (xs.map image) := by
  induction xs with
  | nil => rfl
  | cons x xs ih =>
    rw [List.map_cons, List.mapM_cons, h x List.mem_cons_self, ih fun y hy => h y (List.mem_cons_of_mem _ hy)]
    rfl

/-- An article is minted by the walk. -/
theorem mem_walked {m : Mint} (hm : m ∈ Minted.all celex root main ms) (hlabel : m.node.elementType = .article) : m ∈ ms := by
  rcases List.mem_append.1 hm with hm | hm
  · exact hm
  · rw [(annexMints_spec hm).2] at hlabel
    cases hlabel

theorem article_children (h : Minted digits celex root main ms) {m : Mint} (hm : m ∈ ms)
    (hlabel : m.node.elementType = .article) :
    ∃ n, (childrenOf m.key (Minted.all celex root main ms)).map (·.node.order) = List.range' 1 n := by
  obtain ⟨annexes, n, hwalked⟩ := h.walked
  have hne : m.key ≠ (.regulatoryInstrument, celex) := by
    intro heq
    have hfst : m.node.elementType = .regulatoryInstrument := congrArg Prod.fst heq
    rw [hlabel] at hfst
    cases hfst
  rw [childrenOf_append, Minted.childrenOf_annexes, if_neg hne, List.append_nil]
  exact hwalked.family.inner h.nodup_walked _ (List.mem_map_of_mem hm)

/-- **The rows of an article** give its units. -/
theorem unitsForArticle_eq (h : Ingested digits celex rid root main ms G)
    (hnumbered : Numbered digits ((Minted.all celex root main ms).map Mint.sourced)) {m : Mint}
    (hm : m ∈ Minted.all celex root main ms) (hlabel : m.node.elementType = .article) :
    unitsForArticle digits (nativeHandle scan G) (articleRow G m.ref) =
      .ok (articleUnits digits ((Minted.all celex root main ms).map Mint.sourced)
        ((Minted.all celex root main ms).map Mint.edge) m.sourced) := by
  obtain ⟨hcite, hparts⟩ := article_cites h.minted (mem_walked hm hlabel) hlabel
  obtain ⟨n, horders⟩ := article_children h.minted (mem_walked hm hlabel) hlabel
  have hbelow : childrenOf m.key (Minted.all celex root main ms) ⊆ Minted.all celex root main ms :=
    fun p hp => (List.mem_filter.1 hp).1
  have hrows : (nativeHandle scan G).paragraphs (articleRow G m.ref).id =
      (childrenOf m.key (Minted.all celex root main ms)).map (citedText G ∘ Mint.ref) := by
    rw [← List.map_map]
    refine congrArg (List.map (citedText G)) (sortBy_order h hbelow horders ?_)
    exact paragraphNodes_perm h hm hlabel fun p hp => (hparts p hp).1
  have hnumber : Numeral (numberOf m.source) := hnumbered.articles m.sourced (List.mem_map_of_mem hm) hlabel
  have hrowcite : (articleRow G m.ref).citationRef = "Art. " ++ numberOf m.source := (citation_ref h hm).trans hcite
  have hchildren : childNodes ((Minted.all celex root main ms).map Mint.sourced)
      ((Minted.all celex root main ms).map Mint.edge) (nodeKey m.sourced.2) =
      (childrenOf m.key (Minted.all celex root main ms)).map Mint.sourced :=
    childNodes_sourced (List.nodup_cons.1 h.minted.nodup).2 _
  unfold unitsForArticle articleUnits
  rw [hrows, hrowcite, articleCitation_eq hnumber, hchildren]
  simp only [List.map_eq_nil_iff]
  split
  · show Except.ok [_] = _
    rw [← hcite]
    show Except.ok [ExtractionUnit.mk _ (textColumn G m.ref "text") _ _ (textColumn G m.ref "heading")] = _
    rw [text_ref h hm, heading_ref h hm]
    rfl
  · rw [List.map_map]
    refine mapM_map_ok fun p hp => ?_
    obtain ⟨hparagraph, hpcite⟩ := hparts p hp
    have hpnumber : Numeral (paragraphNumberOf digits p.source) :=
      hnumbered.paragraphs p.sourced (List.mem_map_of_mem (hbelow hp)) hparagraph
    have hpcolumn : (citedText G p.ref).citationRef =
        "Art. " ++ numberOf m.source ++ "(" ++ paragraphNumberOf digits p.source ++ ")" :=
      (citation_ref h (hbelow hp)).trans hpcite
    unfold paragraphUnit
    rw [Function.comp_apply, hpcolumn, paragraphCitation_eq hnumber hpnumber, ← hpcite]
    show Except.ok (ExtractionUnit.mk _ (textColumn G p.ref "text") _ _ (textColumn G m.ref "heading")) = _
    rw [text_ref h (hbelow hp), heading_ref h hm]
    rfl

/-! ### Annexes -/

theorem annexes_eq (h : Minted digits celex root main ms) :
    (Minted.all celex root main ms).filter (fun m => m.node.elementType = .annex) =
      annexMints celex (keptAnnexes root main) 0 := by
  obtain ⟨annexes, n, hwalked⟩ := h.walked
  have hnone : ms.filter (fun m => m.node.elementType = .annex) = [] :=
    List.filter_eq_nil_iff.2 fun m hm htrue => (hwalked.labels m hm).2 (of_decide_eq_true htrue)
  have hall : (annexMints celex (keptAnnexes root main) 0).filter (fun m => m.node.elementType = .annex) =
      annexMints celex (keptAnnexes root main) 0 :=
    List.filter_eq_self.2 fun m hm => decide_eq_true (annexMints_spec hm).2
  rw [List.filter_append, hnone, hall, List.nil_append]

theorem annexRows_eq (h : Ingested digits celex rid root main ms G) :
    (nativeHandle scan G).annexes rid =
      (annexMints celex (keptAnnexes root main) 0).map (citedText G ∘ Mint.ref) := by
  rw [← List.map_map]
  refine congrArg (List.map (citedText G)) (sortBy_order h (List.subset_append_right ..) Minted.orders_annexes ?_)
  have hperm := reachedNodes_perm scan h .annex
  rw [annexes_eq h.minted] at hperm
  exact hperm

/-- **The row of an annex** gives its unit, unless its name is of digits alone. -/
theorem annexUnit_eq (h : Ingested digits celex rid root main ms G) {m : Mint}
    (hm : m ∈ annexMints celex (keptAnnexes root main) 0) :
    annexUnit digits (citedText G m.ref) =
      if ∀ c ∈ (numberOf m.source).toList, c.isDigit = true then .error (.annexShape m.node.citationRef)
      else .ok (wholeUnit m.sourced) := by
  obtain ⟨hcite, hheading, hne, halnum⟩ := annex_cites hm
  have hall : m ∈ Minted.all celex root main ms := List.mem_append_right _ hm
  have hrow : (citedText G m.ref).citationRef = "Annex " ++ numberOf m.source := (citation_ref h hall).trans hcite
  have htext : (citedText G m.ref).text = m.node.text.getD "" := text_ref h hall
  unfold annexUnit
  rw [hrow, annexCitation_eq hne halnum, htext]
  split
  · rename_i hnone
    rw [if_pos (by_contra fun hnot => by rw [if_neg hnot] at hnone; cases hnone), ← hcite]
  · rename_i label hsome
    split at hsome
    · cases hsome
    · rename_i hnot
      obtain rfl := Option.some_inj.1 hsome
      rw [if_neg hnot]
      show _ = Except.ok (ExtractionUnit.mk m.node.citationRef (m.node.text.getD "") _ _ (m.node.heading.getD ""))
      rw [hheading, hcite]
      rfl

/-- Rows of which some are refused are refused for one of them. -/
theorem mapM_map_error {α β γ ε : Type} {f : β → Except ε γ} {row : α → β} {image : α → γ} {reason : α → ε} {P : α → Prop}
    [DecidablePred P] {xs : List α} (h : ∀ x ∈ xs, f (row x) = if P x then .error (reason x) else .ok (image x))
    (hsome : ∃ x ∈ xs, P x) : ∃ x ∈ xs, (xs.map row).mapM f = .error (reason x) := by
  induction xs with
  | nil =>
    obtain ⟨x, hx, -⟩ := hsome
    cases hx
  | cons x xs ih =>
    rw [List.map_cons, List.mapM_cons, h x List.mem_cons_self]
    by_cases hx : P x
    · rw [if_pos hx]
      exact ⟨x, List.mem_cons_self, rfl⟩
    · have hrest : ∃ y ∈ xs, P y := by
        obtain ⟨y, hy, hP⟩ := hsome
        rcases List.mem_cons.1 hy with rfl | hy
        · exact absurd hP hx
        · exact ⟨y, hy, hP⟩
      obtain ⟨y, hy, heq⟩ := ih (fun z hz => h z (List.mem_cons_of_mem _ hz)) hrest
      rw [if_neg hx, heq]
      exact ⟨y, List.mem_cons_of_mem _ hy, rfl⟩

/-! ### Sorting -/

/-- The numbers a unit is sorted by. -/
def numbersOf (digits : UnicodeDigits) (u : ExtractionUnit) : ℤ ×ₗ ℤ :=
  toLex ((digits.pyInt u.articleNumber.toList).getD 0, (digits.pyInt u.paragraphNumber.toList).getD 0)

theorem unitKey_eq {u : ExtractionUnit} (ha : Numeral u.articleNumber) (hp : Numeral u.paragraphNumber) :
    unitKey digits u = .ok (numbersOf digits u) := by
  obtain ⟨n, hn⟩ := @pyInt_numeral digits _ ha
  obtain ⟨k, hk⟩ := @pyInt_numeral digits _ hp
  unfold unitKey intOf numbersOf
  rw [hn, hk]
  rfl

theorem sortUnits_eq {units : List ExtractionUnit} (h : ∀ u ∈ units, Numeral u.articleNumber ∧ Numeral u.paragraphNumber) :
    sortUnits digits units = .ok (sortBy (numbersOf digits) units) := by
  have hkeyed : units.mapM (fun unit => do return (← unitKey digits unit, unit)) =
      Except.ok (ε := ExtractionError) (units.map fun u => (numbersOf digits u, u)) := by
    have hmap := @mapM_map_ok _ _ _ ExtractionError (fun unit => do return (← unitKey digits unit, unit)) id
      (fun u => (numbersOf digits u, u)) units fun u hu => by
        obtain ⟨ha, hp⟩ := h u hu
        show (unitKey digits u >>= _) = _
        rw [unitKey_eq ha hp]
        rfl
    rwa [List.map_id] at hmap
  unfold sortUnits
  rw [hkeyed]
  show Except.ok _ = _
  have hsort : (sortBy (numbersOf digits) units).map (fun u => (numbersOf digits u, u)) =
      sortBy Prod.fst (units.map fun u => (numbersOf digits u, u)) := List.map_mergeSort fun _ _ _ _ => rfl
  rw [← hsort, List.map_map]
  exact congrArg Except.ok (List.map_id _)

theorem numeral_one : Numeral "1" where
  ne_nil := List.cons_ne_nil _ _
  digit := by
    intro c hc
    obtain rfl := List.mem_singleton.1 hc
    decide
  short := by
    have hlength : "1".toList.length = 1 := rfl
    omega

theorem documentUnits_numeral (h : Minted digits celex root main ms)
    (hnumbered : Numbered digits ((Minted.all celex root main ms).map Mint.sourced)) :
    ∀ u ∈ documentUnits digits ((Minted.all celex root main ms).map Mint.sourced)
      ((Minted.all celex root main ms).map Mint.edge), Numeral u.articleNumber ∧ Numeral u.paragraphNumber := by
  intro u hu
  obtain ⟨n, hn, hu⟩ := List.mem_flatMap.1 hu
  obtain ⟨hn, hlabel⟩ := List.mem_filter.1 hn
  have hlabel : n.2.elementType = .article := of_decide_eq_true hlabel
  have hnumber : Numeral (numberOf n.1) := hnumbered.articles n hn hlabel
  by_cases hnone : childNodes ((Minted.all celex root main ms).map Mint.sourced)
      ((Minted.all celex root main ms).map Mint.edge) (nodeKey n.2) = []
  · rw [articleUnits, if_pos hnone, List.mem_singleton] at hu
    rw [hu]
    exact ⟨hnumber, numeral_one⟩
  · rw [articleUnits, if_neg hnone, List.mem_map] at hu
    obtain ⟨p, hp, rfl⟩ := hu
    refine ⟨hnumber, hnumbered.paragraphs p (List.mem_filter.1 hp).1 ?_⟩
    obtain ⟨m, hm, rfl⟩ := List.mem_map.1 hn
    rw [childNodes_sourced (List.nodup_cons.1 h.nodup).2] at hp
    obtain ⟨m', hm', rfl⟩ := List.mem_map.1 hp
    exact ((article_cites h (mem_walked hm hlabel) hlabel).2 m' hm').1

/-! ### All units -/

/-- The rows of the articles give the units of the document, in the order of the ids. -/
theorem articleRows_eq (scan : ScanOrder) (h : Ingested digits celex rid root main ms G)
    (hnumbered : Numbered digits ((Minted.all celex root main ms).map Mint.sourced)) :
    ∃ lists, ((nativeHandle scan G).articles rid).mapM (unitsForArticle digits (nativeHandle scan G)) = .ok lists ∧
      lists.flatten.Perm (documentUnits digits ((Minted.all celex root main ms).map Mint.sourced)
        ((Minted.all celex root main ms).map Mint.edge)) := by
  set articles := (Minted.all celex root main ms).filter fun m => m.node.elementType = .article with harticles
  let unitsOf : NodeRef → List ExtractionUnit := fun n =>
    ((unitsForArticle digits (nativeHandle scan G) (articleRow G n)).toOption).getD []
  have hunits : ∀ m ∈ articles, unitsForArticle digits (nativeHandle scan G) (articleRow G m.ref) =
      .ok (articleUnits digits ((Minted.all celex root main ms).map Mint.sourced)
        ((Minted.all celex root main ms).map Mint.edge) m.sourced) := by
    intro m hm
    obtain ⟨hm, hlabel⟩ := List.mem_filter.1 hm
    exact unitsForArticle_eq h hnumbered hm (of_decide_eq_true hlabel)
  have hperm : (sortBy NodeRef.id (reachedNodes scan G rid "ARTICLE")).Perm (articles.map Mint.ref) :=
    (sortBy_perm _).trans (reachedNodes_perm scan h .article)
  refine ⟨(sortBy NodeRef.id (reachedNodes scan G rid "ARTICLE")).map unitsOf, mapM_map_ok fun n hn => ?_, ?_⟩
  · obtain ⟨m, hm, rfl⟩ := List.mem_map.1 (hperm.mem_iff.1 hn)
    show _ = Except.ok (((unitsForArticle digits (nativeHandle scan G) (articleRow G m.ref)).toOption).getD [])
    rw [hunits m hm]
    rfl
  · have hflat := hperm.flatMap_right unitsOf
    rw [List.flatMap_map] at hflat
    rw [← List.flatMap_def]
    refine hflat.trans (List.Perm.of_eq ?_)
    unfold documentUnits
    rw [List.filter_map, List.flatMap_map]
    refine List.flatMap_congr fun m hm => ?_
    show ((unitsForArticle digits (nativeHandle scan G) (articleRow G m.ref)).toOption).getD [] = _
    rw [hunits m hm]
    rfl

theorem bareAnnex_iff (h : Minted digits celex root main ms) : BareAnnex ((Minted.all celex root main ms).map Mint.sourced) ↔
    ∃ m ∈ annexMints celex (keptAnnexes root main) 0, ∀ c ∈ (numberOf m.source).toList, c.isDigit = true := by
  rw [← annexes_eq h]
  constructor
  · rintro ⟨n, hn, hlabel, hdigit⟩
    obtain ⟨m, hm, rfl⟩ := List.mem_map.1 hn
    exact ⟨m, List.mem_filter.2 ⟨hm, decide_eq_true hlabel⟩, hdigit⟩
  · rintro ⟨m, hm, hdigit⟩
    obtain ⟨hm, hlabel⟩ := List.mem_filter.1 hm
    exact ⟨m.sourced, List.mem_map_of_mem hm, of_decide_eq_true hlabel, hdigit⟩

/-- **Reading what ingestion wrote.** -/
theorem read_ingested (scan : ScanOrder) (h : Ingested digits celex rid root main ms G)
    (hnumbered : Numbered digits ((Minted.all celex root main ms).map Mint.sourced)) :
    (BareAnnex ((Minted.all celex root main ms).map Mint.sourced) →
      ∃ citationRef, readNativeUnits digits (nativeHandle scan G) rid = .error (.annexShape citationRef)) ∧
    (¬ BareAnnex ((Minted.all celex root main ms).map Mint.sourced) → ∃ units,
      readNativeUnits digits (nativeHandle scan G) rid =
        .ok (sortBy (numbersOf digits) units ++ annexUnits ((Minted.all celex root main ms).map Mint.sourced)) ∧
      units.Perm (documentUnits digits ((Minted.all celex root main ms).map Mint.sourced)
        ((Minted.all celex root main ms).map Mint.edge))) := by
  obtain ⟨lists, hlists, hperm⟩ := articleRows_eq scan h hnumbered
  have hsort := @sortUnits_eq digits lists.flatten fun u hu =>
    documentUnits_numeral h.minted hnumbered u (hperm.mem_iff.1 hu)
  have hread : readNativeUnits digits (nativeHandle scan G) rid =
      ((annexMints celex (keptAnnexes root main) 0).map (citedText G ∘ Mint.ref)).mapM (annexUnit digits) >>= fun annexes =>
        .ok (sortBy (numbersOf digits) lists.flatten ++ annexes) := by
    unfold readNativeUnits
    rw [hlists, annexRows_eq h]
    show (sortUnits digits lists.flatten >>= _) = _
    rw [hsort]
    rfl
  have hrow : ∀ m ∈ annexMints celex (keptAnnexes root main) 0, annexUnit digits ((citedText G ∘ Mint.ref) m) =
      if ∀ c ∈ (numberOf m.source).toList, c.isDigit = true then .error (.annexShape m.node.citationRef)
      else .ok (wholeUnit m.sourced) := fun m hm => annexUnit_eq h hm
  rw [hread, bareAnnex_iff h.minted]
  constructor
  · intro hbare
    obtain ⟨m, -, hfails⟩ := mapM_map_error hrow hbare
    rw [hfails]
    exact ⟨_, rfl⟩
  · intro hnot
    refine ⟨lists.flatten, ?_, hperm⟩
    have hannexes : ((annexMints celex (keptAnnexes root main) 0).map (citedText G ∘ Mint.ref)).mapM (annexUnit digits) =
        .ok ((annexMints celex (keptAnnexes root main) 0).map (wholeUnit ∘ Mint.sourced)) := by
      refine mapM_map_ok fun m hm => ?_
      rw [hrow m hm, if_neg fun hdigit => hnot ⟨m, hm, hdigit⟩]
      rfl
    rw [hannexes]
    show Except.ok (_ ++ _) = _
    rw [← annexes_eq h.minted]
    unfold annexUnits
    rw [List.filter_map, List.map_map]
    rfl

end Native

/-! ## A document -/

/-- The native graph of a parsed document with distinct ids, over a graph that has none of its nodes. -/
theorem ingested_of_parse {digits : UnicodeDigits} {doc : Document} {celex rid : String}
    {nodes : List (Element × StructuralNode)} {edges : List StructuralEdge}
    (hparse : parseStructure digits doc.root celex = .ok (nodes, edges)) (hdistinct : (nodes.map fun n => n.2.id).Nodup)
    (instrument : PropertyMap) (existing : List NodeRef) {g : Graph}
    (hfresh : ∀ n ∈ instrumentRef rid :: nodes.map (fun n => keyRef (nodeKey n.2)), n ∉ g.nodes) :
    ∃ main ms, nodes = (Minted.all celex doc.root main ms).map Mint.sourced ∧
      edges = (Minted.all celex doc.root main ms).map Mint.edge ∧
      Ingested digits celex rid doc.root main ms (nativeGraph g rid instrument nodes edges existing) := by
  obtain ⟨main, ms, annexes, n, hmain, hwalked, hresult⟩ := parseStructure_ok hparse
  rw [Prod.mk.injEq] at hresult
  obtain ⟨rfl, rfl⟩ := hresult
  have hids := @ids_eq _ _ _ _ _ doc.root main hwalked
  have hlocal : ((localIds digits doc.root main).map (nodeId celex)).Nodup := by
    rw [← hids]
    rw [List.map_map] at hdistinct
    exact hdistinct
  have hminted : Minted digits celex doc.root main ms := ⟨⟨annexes, n, hwalked⟩, hmain, hlocal.of_map⟩
  have hrefs : (((ms ++ annexMints celex (keptAnnexes doc.root main) 0).map Mint.sourced).map
      fun n => keyRef (nodeKey n.2)) = (Minted.all celex doc.root main ms).map Mint.ref := by
    rw [List.map_map]
    rfl
  rw [hrefs] at hfresh
  obtain ⟨hcolumns, hkeys⟩ := @Minted.graph _ _ rid _ _ _ instrument existing g hminted hfresh
  exact ⟨main, ms, rfl, rfl, hminted, hcolumns, edgeKeys g, hkeys, fun k hk hmem => hfresh _ hmem (ends_of_mem hk).1⟩

/-- What the walk mints stands in the order of the document. -/
theorem walked_ordered {digits : UnicodeDigits} {doc : Document} {celex : String} {main : Element} {ms : List Mint}
    (h : Minted digits celex doc.root main ms) :
    (((Minted.all celex doc.root main ms).map Mint.sourced).filter fun n => n.2.elementType ≠ .annex).Pairwise
      fun a b => a.1.position < b.1.position := by
  obtain ⟨annexes, n, hwalked⟩ := h.walked
  have hmem : main ∈ doc.root.iter := (List.mem_filter.1 (List.mem_of_find?_eq_some h.container)).1
  have hiter : (Element.iterAll main.children).Sublist doc.root.iter := by
    refine List.Sublist.trans ?_ (Element.iter_sublist doc.root hmem)
    rw [Element.iter_eq]
    exact List.sublist_cons_self ..
  have hpairwise := doc.ordered.sublist (hwalked.sublist.1.trans hiter)
  have hwalk : ((Minted.all celex doc.root main ms).filter fun m => m.node.elementType ≠ .annex) = ms := by
    rw [List.filter_append, List.filter_eq_self.2 fun m hm => decide_eq_true (hwalked.labels m hm).2,
      List.filter_eq_nil_iff.2 fun m hm htrue => absurd (annexMints_spec hm).2 (of_decide_eq_true htrue), List.append_nil]
  rw [List.filter_map, List.pairwise_map]
  rw [List.pairwise_map] at hpairwise
  show ((Minted.all celex doc.root main ms).filter fun m => m.node.elementType ≠ .annex).Pairwise _
  rw [hwalk]
  exact hpairwise

/-- **The units of a parsed document**: where its ids are distinct and its articles and paragraphs are numbered, over a
graph that has none of its nodes, an annex named by digits alone is refused; otherwise there is one unit a paragraph, one
for an article without paragraphs and one an annex. The units of the articles are sorted by their numbers, so in the order
of the document where these ascend; the annexes follow. -/
theorem units_read (digits : UnicodeDigits) (doc : Document) (celex rid : String)
    {nodes : List (Element × StructuralNode)} {edges : List StructuralEdge}
    (hparse : parseStructure digits doc.root celex = .ok (nodes, edges))
    (hdistinct : (nodes.map fun n => n.2.id).Nodup) (hnumbered : Numbered digits nodes)
    (instrument : PropertyMap) (existing : List NodeRef) (g : Graph)
    (hfresh : ∀ n ∈ instrumentRef rid :: nodes.map (fun n => keyRef (nodeKey n.2)), n ∉ g.nodes) (scan : ScanOrder) :
    ((nodes.filter fun n => n.2.elementType ≠ .annex).Pairwise fun a b => a.1.position < b.1.position) ∧
    (BareAnnex nodes → ∃ citationRef,
      readNativeUnits digits (nativeHandle scan (nativeGraph g rid instrument nodes edges existing)) rid =
        .error (.annexShape citationRef)) ∧
    (¬ BareAnnex nodes → ∃ units,
      readNativeUnits digits (nativeHandle scan (nativeGraph g rid instrument nodes edges existing)) rid =
        .ok (units ++ annexUnits nodes) ∧
      units.Perm (documentUnits digits nodes edges) ∧
      units.Pairwise (fun u u' => numbersOf digits u ≤ numbersOf digits u') ∧
      ((documentUnits digits nodes edges).Pairwise (fun u u' => numbersOf digits u < numbersOf digits u') →
        units = documentUnits digits nodes edges)) := by
  obtain ⟨main, ms, rfl, rfl, hingested⟩ := ingested_of_parse hparse hdistinct instrument existing hfresh
  obtain ⟨hbare, hread⟩ := read_ingested scan hingested hnumbered
  refine ⟨walked_ordered hingested.minted, hbare, fun hnot => ?_⟩
  obtain ⟨units, hok, hperm⟩ := hread hnot
  exact ⟨_, hok, (sortBy_perm units).trans hperm, sortBy_pairwise units, fun hlt => sortBy_of_perm hlt hperm⟩

/-! ## Two documents -/

/-- What `units_read` asks of the parsed structure, for a document whose units cite these. -/
def ReadsAs (digits : UnicodeDigits) (nodes : List (Element × StructuralNode)) (edges : List StructuralEdge)
    (citations : List String) : Prop :=
  (nodes.map fun n => n.2.id).Nodup ∧ Numbered digits nodes ∧ ¬ BareAnnex nodes ∧
    (documentUnits digits nodes edges).Pairwise (fun u u' => numbersOf digits u < numbersOf digits u') ∧
    (documentUnits digits nodes edges ++ annexUnits nodes).map ExtractionUnit.citationRef = citations

instance (digits : UnicodeDigits) (nodes : List (Element × StructuralNode)) (edges : List StructuralEdge)
    (citations : List String) : Decidable (ReadsAs digits nodes edges citations) :=
  inferInstanceAs (Decidable (_ ∧ _ ∧ _ ∧ _ ∧ _))

/-- The units of an article with the paragraphs 1 and 2. -/
theorem units_read_article : ∃ nodes edges units,
    parseStructure asciiDigits (articleDocument "1." "2.") "X" = .ok (nodes, edges) ∧
    readNativeUnits asciiDigits (nativeHandle default (nativeGraph ∅ "X" ∅ nodes edges [])) "X" = .ok units ∧
    units.map ExtractionUnit.citationRef = ["Art. 1(1)", "Art. 1(2)"] := by
  have hordered : (articleDocument "1." "2.").iter.Pairwise fun e e' => e.position < e'.position := by decide +kernel
  have hcheck : (parseStructure asciiDigits (articleDocument "1." "2.") "X").toOption.any (fun r =>
      ReadsAs asciiDigits r.1 r.2 ["Art. 1(1)", "Art. 1(2)"]) = true := by
    decide +kernel
  cases h : parseStructure asciiDigits (articleDocument "1." "2.") "X" with
  | error error =>
    rw [h] at hcheck
    cases hcheck
  | ok result =>
    obtain ⟨nodes, edges⟩ := result
    rw [h] at hcheck
    obtain ⟨hdistinct, hnumbered, hbare, hlt, hcitations⟩ : ReadsAs asciiDigits nodes edges _ := of_decide_eq_true hcheck
    obtain ⟨-, -, hread⟩ := units_read asciiDigits ⟨articleDocument "1." "2.", hordered⟩ "X" "X" h hdistinct hnumbered ∅ [] ∅
      (fun n _ hmem => ExtTreeMap.not_mem_empty hmem) default
    obtain ⟨units, hok, -, -, hsame⟩ := hread hbare
    refine ⟨nodes, edges, _, rfl, hok, ?_⟩
    rw [hsame hlt]
    exact hcitations

/-- A document of one annex. -/
def annexDocument (name : String) : Element :=
  .mk 0 "html" [] "" [.mk 1 "div" [("class", "eli-container")] "" [.mk 2 "div" [("id", "anx_" ++ name)]
    "Technical documentation." [] ""] ""] ""

/-- **Annex 1** is refused. -/
theorem annex_refused : ¬ ∀ (digits : UnicodeDigits) (doc : Document) (celex rid : String)
    (nodes : List (Element × StructuralNode)) (edges : List StructuralEdge),
    parseStructure digits doc.root celex = .ok (nodes, edges) →
    ∀ (instrument : PropertyMap) (existing : List NodeRef) (g : Graph),
      (∀ n ∈ instrumentRef rid :: nodes.map (fun n => keyRef (nodeKey n.2)), n ∉ g.nodes) → ∀ scan : ScanOrder,
        readNativeUnits digits (nativeHandle scan (nativeGraph g rid instrument nodes edges existing)) rid =
          .ok (documentUnits digits nodes edges ++ annexUnits nodes) := by
  intro hall
  have hordered : (annexDocument "1").iter.Pairwise fun e e' => e.position < e'.position := by decide +kernel
  have hcheck : (parseStructure asciiDigits (annexDocument "1") "X").toOption.any (fun r =>
      (r.1.map fun n => n.2.id).Nodup ∧ Numbered asciiDigits r.1 ∧ BareAnnex r.1) = true := by
    decide +kernel
  cases h : parseStructure asciiDigits (annexDocument "1") "X" with
  | error error =>
    rw [h] at hcheck
    cases hcheck
  | ok result =>
    obtain ⟨nodes, edges⟩ := result
    rw [h] at hcheck
    have hcheck : (nodes.map fun n => n.2.id).Nodup ∧ Numbered asciiDigits nodes ∧ BareAnnex nodes :=
      of_decide_eq_true hcheck
    obtain ⟨hdistinct, hnumbered, hbare⟩ := hcheck
    have hfresh : ∀ n ∈ instrumentRef "X" :: nodes.map (fun n => keyRef (nodeKey n.2)), n ∉ (∅ : Graph).nodes :=
      fun n _ hmem => ExtTreeMap.not_mem_empty hmem
    obtain ⟨main, ms, rfl, rfl, hingested⟩ := @ingested_of_parse asciiDigits ⟨annexDocument "1", hordered⟩
      _ _ _ _ h hdistinct ∅ [] _ hfresh
    obtain ⟨citationRef, hfails⟩ := (read_ingested default hingested hnumbered).1 hbare
    have hok := hall asciiDigits ⟨annexDocument "1", hordered⟩ "X" "X" _ _ h ∅ [] ∅ hfresh default
    rw [hfails] at hok
    cases hok

end PolicySystem.DomainMapper
