import PolicySystem.Text.LastSeparator

/-!
# Instrument ids

An instrument id is its short name, a hyphen and its version. Three places take the short name out of an id again:
`_derive_short_name` of the export, `check_short_name_collision` of the ingestion and `_internal_short_name` of the
internal pipeline, all by `rpartition("-")`.

* `Built.id`: the id each ingestion path writes, with the short names and versions it admits (`Admitted`);
* `deriveShortName`, `checkShortNameCollision`, `internalShortName`: the decoders;
* `LeadsBack`: the decoders give the short name back, and the export opens the graphs that were written;
* `leads_back_iff`: **ids lead back, and are told apart, exactly when the versions hold no hyphen.**
-/

namespace PolicySystem.Ingestion

open Text

/-! ## Case -/

/-- Unicode case mapping: the full upper-case mapping of a character, `str.lower` on a string, and `toUpper` of the
graph store. -/
structure CaseRules where
  upperOf : Char → List Char
  lower : String → String
  toUpper : String → String
  nonempty : ∀ c, upperOf c ≠ []
  stable : ∀ c, ∀ d ∈ upperOf c, upperOf d = [d]
  hyphen : upperOf '-' = ['-']
  hyphenless : ∀ c, c ≠ '-' → '-' ∉ upperOf c

/-- `str.upper`. -/
def CaseRules.upper (rules : CaseRules) (s : String) : String := String.ofList (s.toList.flatMap rules.upperOf)

/-- `normalize_short_name`. -/
def normalizeShortName (rules : CaseRules) (shortName : String) : String := rules.upper shortName

section Case

variable (rules : CaseRules)

@[simp] theorem CaseRules.toList_upper (s : String) : (rules.upper s).toList = s.toList.flatMap rules.upperOf := by
  rw [CaseRules.upper, String.toList_ofList]

theorem CaseRules.flatMap_stable (l : List Char) :
    (l.flatMap rules.upperOf).flatMap rules.upperOf = l.flatMap rules.upperOf := by
  induction l with
  | nil => rfl
  | cons c l ih =>
    have hone : (rules.upperOf c).flatMap rules.upperOf = rules.upperOf c := by
      have hall := rules.stable c
      generalize rules.upperOf c = ds at hall
      induction ds with
      | nil => rfl
      | cons d ds ihd =>
        rw [List.flatMap_cons, hall d (by simp), ihd fun x hx => hall x (List.mem_cons_of_mem d hx)]
        rfl
    rw [List.flatMap_cons, List.flatMap_append, hone, ih]

theorem CaseRules.upper_upper (s : String) : rules.upper (rules.upper s) = rules.upper s := by
  apply String.toList_injective
  rw [rules.toList_upper, rules.toList_upper, rules.flatMap_stable]

theorem CaseRules.hyphen_mem_flatMap {l : List Char} : '-' ∈ l.flatMap rules.upperOf ↔ '-' ∈ l := by
  rw [List.mem_flatMap]
  constructor
  · rintro ⟨c, hc, hin⟩
    by_cases h : c = '-'
    · rwa [← h]
    · exact absurd hin (rules.hyphenless c h)
  · intro h
    exact ⟨'-', h, by rw [rules.hyphen]; simp⟩

theorem CaseRules.flatMap_ne_nil {l : List Char} (h : l ≠ []) : l.flatMap rules.upperOf ≠ [] := by
  cases l with
  | nil => exact absurd rfl h
  | cons c l =>
    rw [List.flatMap_cons]
    intro hnil
    exact rules.nonempty c (List.append_eq_nil_iff.1 hnil).1

/-- Two names are the same ignoring case. -/
def SameName (a b : String) : Prop := rules.upper a = rules.upper b

variable {rules}

theorem SameName.refl (a : String) : SameName rules a a := rfl

theorem sameName_upper (a : String) : SameName rules (rules.upper a) a := rules.upper_upper a

/-- A name with more after a hyphen is another name, ignoring case. -/
theorem not_sameName_longer {a b : String} {rest : List Char} (h : b.toList = a.toList ++ '-' :: rest) :
    ¬ SameName rules b a := by
  intro hsame
  have hlists := congrArg (fun s => s.toList.length) hsame
  simp only [rules.toList_upper, h, List.flatMap_append, List.flatMap_cons, rules.hyphen, List.length_append,
    List.length_cons] at hlists
  omega

end Case

/-! ## Encoding -/

/-- `SHORT_NAME_PATTERN`: a letter, then up to 63 letters, digits, underscores and hyphens. -/
def matchesShortNamePattern (shortName : String) : Bool :=
  match shortName.toList with
  | [] => false
  | c :: cs => c.isAlpha && cs.length ≤ 63 && cs.all fun d => d.isAlphanum || d == '_' || d == '-'

/-- `_BASE_ACT_VERSION`: the version of every instrument ingested from the catalog. -/
def baseActVersion : String := "1.0"

/-- `_consolidated_celex_prefix`: what every consolidated CELEX of a base act starts with. -/
def consolidatedCelexPrefix (baseCelex : String) : String := "0" ++ String.ofList (baseCelex.toList.drop 1) ++ "-"

/-- The paths that write an instrument. -/
inductive IngestionPath where
  | catalog
  | amendment
  | internal
  deriving DecidableEq

/-- A short name and a version an instrument id is built from: the caller's names, the curated entry's name with the
detected consolidated CELEX, or the parts of a seed's own id. -/
structure Built where
  path : IngestionPath
  shortName : String
  version : String

/-- The short name as it stands in the id: the catalog path upper-cases the caller's. -/
def Built.spelled (rules : CaseRules) (b : Built) : String :=
  match b.path with
  | .catalog => normalizeShortName rules b.shortName
  | .amendment => b.shortName
  | .internal => b.shortName

/-- The instrument id: `{short_name}-{version}`. -/
def Built.id (rules : CaseRules) (b : Built) : String := b.spelled rules ++ "-" ++ b.version

/-! ## Decoding -/

/-- `str.rpartition`, with nothing for a string without the separator. -/
def rpartition (sep : Char) (s : String) : Option (String × String) :=
  (splitLast sep s.toList).map fun parts => (String.ofList parts.1, String.ofList parts.2)

/-- `ExportInstrumentNotFoundError`: the id is not a known ingested instrument. -/
structure ExportInstrumentNotFound where
  instrumentId : String
  deriving DecidableEq

/-- `_derive_short_name` of the export. -/
def deriveShortName (instrumentId : String) : Except ExportInstrumentNotFound String :=
  match rpartition '-' instrumentId with
  | none => .error ⟨instrumentId⟩
  | some (shortName, _) => if shortName = "" then .error ⟨instrumentId⟩ else .ok shortName

/-- `InternalSeedValidationError`: the id is not in the expected shape. -/
structure InternalSeedValidation where
  regulatoryInstrumentId : String
  deriving DecidableEq

/-- `_internal_short_name`. -/
def internalShortName (regulatoryInstrumentId : String) : Except InternalSeedValidation String :=
  match rpartition '-' regulatoryInstrumentId with
  | none => .error ⟨regulatoryInstrumentId⟩
  | some (shortName, _) => if shortName = "" then .error ⟨regulatoryInstrumentId⟩ else .ok shortName

/-- The short name segment of a recorded id, `""` without a hyphen. -/
def recordedShortName (candidateId : String) : String :=
  match rpartition '-' candidateId with
  | none => ""
  | some (shortName, _) => shortName

/-- An instrument of the single-tenant graph, as the collision query reads it. -/
structure Instrument where
  id : String
  celex : Option String

/-- `_SHORT_NAME_COLLISION_QUERY`: the ids that start with the name and a hyphen, of another CELEX. -/
def collisionRows (rules : CaseRules) (instruments : List Instrument) (startsWith celex : String) :
    List (String × String) :=
  instruments.filterMap fun n =>
    match n.celex with
    | none => none
    | some other =>
      if startsWith.toList.isPrefixOf (rules.toUpper n.id).toList && other != celex then some (n.id, other) else none

/-- `check_short_name_collision`: the CELEX of the first candidate whose own short name is the checked one. -/
def checkShortNameCollision (rules : CaseRules) (instruments : List Instrument) (celex shortName : String) :
    Option String :=
  let normalized := normalizeShortName rules shortName
  ((collisionRows rules instruments (normalized ++ "-") celex).find? fun row =>
    normalizeShortName rules (recordedShortName row.1) == normalized).map Prod.snd

/-- The graphs of a short name: `native_graph_name` and `baseline_graph_name`. -/
def graphNames (rules : CaseRules) (shortName : String) : String × String :=
  (rules.lower shortName ++ "_native", rules.lower shortName ++ "_baseline")

/-- The short name whose graphs the path writes: the internal pipeline takes it out of the id. -/
def Built.written (rules : CaseRules) (b : Built) : Option String :=
  match b.path with
  | .catalog => some (b.spelled rules)
  | .amendment => some (b.spelled rules)
  | .internal => (internalShortName (b.id rules)).toOption

/-- What each path admits: the request's pattern and the base act's version, a consolidated CELEX as the version, and
any id the internal pipeline takes a short name out of. -/
def Admitted (rules : CaseRules) (b : Built) : Prop :=
  match b.path with
  | .catalog => matchesShortNamePattern b.shortName = true ∧ b.version = baseActVersion
  | .amendment => ∃ baseCelex, (consolidatedCelexPrefix baseCelex).toList <+: b.version.toList
  | .internal => ∃ shortName, internalShortName (b.id rules) = .ok shortName

/-- **An id leads back**: every decoder gives the short name it was built from, ignoring case, and the export opens the
graphs the path wrote. -/
structure LeadsBack (rules : CaseRules) (b : Built) : Prop where
  exported : ∃ s, deriveShortName (b.id rules) = .ok s ∧ SameName rules s b.shortName
  checked : SameName rules (recordedShortName (b.id rules)) b.shortName
  internal : ∃ s, internalShortName (b.id rules) = .ok s ∧ SameName rules s b.shortName
  opened : ∃ s w, deriveShortName (b.id rules) = .ok s ∧ b.written rules = some w ∧
    graphNames rules s = graphNames rules w

/-! ## What the decoders recover -/

section Recover

variable {rules : CaseRules} {b : Built} {s v : String}

theorem toList_joined (s v : String) : (s ++ "-" ++ v).toList = s.toList ++ '-' :: v.toList := by
  simp

theorem rpartition_joined (h : '-' ∉ v.toList) : rpartition '-' (s ++ "-" ++ v) = some (s, v) := by
  rw [rpartition, toList_joined, splitLast_join h, Option.map_some, String.ofList_toList, String.ofList_toList]

theorem rpartition_joined_of_mem (h : '-' ∈ v.toList) :
    ∃ t w rest, rpartition '-' (s ++ "-" ++ v) = some (t, w) ∧ t.toList = s.toList ++ '-' :: rest := by
  obtain ⟨zs, ws, hsplit⟩ := @splitLast_join_of_mem _ _ '-' s.toList v.toList h
  refine ⟨String.ofList (s.toList ++ '-' :: zs), String.ofList ws, zs, ?_, String.toList_ofList⟩
  rw [rpartition, toList_joined, hsplit, Option.map_some]

theorem sameName_spelled (rules : CaseRules) (b : Built) : SameName rules (b.spelled rules) b.shortName := by
  unfold Built.spelled
  split
  · exact sameName_upper b.shortName
  · rfl
  · rfl

theorem internalShortName_ok (h : rpartition '-' (s ++ "-" ++ v) = some (s, v)) :
    internalShortName (s ++ "-" ++ v) = if s = "" then .error ⟨s ++ "-" ++ v⟩ else .ok s := by
  rw [internalShortName, h]

/-- An admitted name is not empty, with a version without a hyphen. -/
theorem spelled_ne_empty (hb : Admitted rules b) (h : '-' ∉ b.version.toList) : b.spelled rules ≠ "" := by
  obtain ⟨path, shortName, version⟩ := b
  cases path with
  | catalog =>
    intro hempty
    have hnil : shortName.toList = [] := by
      by_contra hne
      have hupper := rules.flatMap_ne_nil hne
      rw [← rules.toList_upper] at hupper
      exact hupper (congrArg String.toList hempty)
    have hpattern := hb.1
    rw [matchesShortNamePattern] at hpattern
    simp [hnil] at hpattern
  | amendment =>
    obtain ⟨baseCelex, hstart⟩ := hb
    refine absurd (hstart.subset ?_) h
    simp [consolidatedCelexPrefix]
  | internal =>
    rintro rfl
    obtain ⟨s, hs⟩ := hb
    have hbad : internalShortName ("" ++ "-" ++ version) = .ok s := hs
    rw [internalShortName_ok (rpartition_joined h), if_pos rfl] at hbad
    cases hbad

/-- **A version without a hyphen leads back.** -/
theorem leadsBack_of_hyphenless (hb : Admitted rules b) (h : '-' ∉ b.version.toList) : LeadsBack rules b := by
  have hparts : rpartition '-' (b.id rules) = some (b.spelled rules, b.version) := rpartition_joined h
  have hne := spelled_ne_empty hb h
  have hsame := sameName_spelled rules b
  have hderive : deriveShortName (b.id rules) = .ok (b.spelled rules) := by
    rw [deriveShortName, hparts]
    exact if_neg hne
  have hinternal : internalShortName (b.id rules) = .ok (b.spelled rules) := by
    rw [internalShortName, hparts]
    exact if_neg hne
  have hrecorded : recordedShortName (b.id rules) = b.spelled rules := by rw [recordedShortName, hparts]
  have hwritten : b.written rules = some (b.spelled rules) := by
    rw [Built.written, hinternal]
    cases b.path with
    | catalog => rfl
    | amendment => rfl
    | internal => rfl
  exact ⟨⟨_, hderive, hsame⟩, hrecorded ▸ hsame, ⟨_, hinternal, hsame⟩, ⟨_, _, hderive, hwritten, rfl⟩⟩

/-- **A version with a hyphen does not**: the recorded short name is longer than the one the id was built from. -/
theorem hyphenless_of_leadsBack (hback : LeadsBack rules b) : '-' ∉ b.version.toList := by
  intro h
  obtain ⟨t, w, rest, hparts, hlonger⟩ := @rpartition_joined_of_mem (b.spelled rules) b.version h
  have hparts : rpartition '-' (b.id rules) = some (t, w) := hparts
  have hchecked := hback.checked
  rw [recordedShortName, hparts] at hchecked
  have hsame : SameName rules t (b.spelled rules) := hchecked.trans (sameName_spelled rules b).symm
  exact not_sameName_longer hlonger hsame

end Recover

/-! ## Ids that are told apart -/

/-- Two pairs are the same ignoring case. -/
def SamePair (rules : CaseRules) (p q : Built) : Prop :=
  SameName rules p.shortName q.shortName ∧ SameName rules p.version q.version

/-- Ids of versions without a hyphen that are equal ignoring case are built from one pair. -/
theorem samePair_of_id {rules : CaseRules} {p q : Built} (hp : '-' ∉ p.version.toList) (hq : '-' ∉ q.version.toList)
    (h : SameName rules (p.id rules) (q.id rules)) : SamePair rules p q := by
  have hlists := congrArg String.toList h
  rw [rules.toList_upper, rules.toList_upper, Built.id, Built.id, toList_joined, toList_joined, List.flatMap_append,
    List.flatMap_append, List.flatMap_cons, List.flatMap_cons, rules.hyphen, List.singleton_append,
    List.singleton_append, join_inj (mt rules.hyphen_mem_flatMap.1 hp) (mt rules.hyphen_mem_flatMap.1 hq)] at hlists
  have hspelled : SameName rules (p.spelled rules) (q.spelled rules) := congrArg String.ofList hlists.1
  refine ⟨?_, congrArg String.ofList hlists.2⟩
  calc rules.upper p.shortName = rules.upper (p.spelled rules) := (sameName_spelled rules p).symm
    _ = rules.upper (q.spelled rules) := hspelled
    _ = rules.upper q.shortName := sameName_spelled rules q

/-- **Instrument ids lead back to their graphs, and are told apart, exactly when their versions hold no hyphen.** A
consolidated CELEX, the version of an amendment, always holds one. -/
theorem leads_back_iff (rules : CaseRules) {p q : Built} (hp : Admitted rules p) (hq : Admitted rules q) :
    (LeadsBack rules p ∧ LeadsBack rules q ∧ (SameName rules (p.id rules) (q.id rules) → SamePair rules p q)) ↔
      '-' ∉ p.version.toList ∧ '-' ∉ q.version.toList := by
  constructor
  · rintro ⟨hp, hq, -⟩
    exact ⟨hyphenless_of_leadsBack hp, hyphenless_of_leadsBack hq⟩
  · rintro ⟨hpv, hqv⟩
    exact ⟨leadsBack_of_hyphenless hp hpv, leadsBack_of_hyphenless hq hqv, samePair_of_id hpv hqv⟩

/-! ## Where it goes wrong -/

/-- The case mapping of ASCII letters. -/
def asciiUpper (c : Char) : Char := if 'a' ≤ c ∧ c ≤ 'z' then Char.ofNat (c.toNat - 32) else c

theorem asciiUpper_spec (c : Char) : asciiUpper (asciiUpper c) = asciiUpper c ∧ (c ≠ '-' → asciiUpper c ≠ '-') := by
  by_cases h : 'a' ≤ c ∧ c ≤ 'z'
  · -- one of 26 letters
    have hall : ∀ n ∈ List.range 26, asciiUpper (asciiUpper (Char.ofNat (97 + n))) = asciiUpper (Char.ofNat (97 + n)) ∧
        asciiUpper (Char.ofNat (97 + n)) ≠ '-' := by decide
    have hlow : 97 ≤ c.toNat := h.1
    have hhigh : c.toNat ≤ 122 := h.2
    have hc : Char.ofNat (97 + (c.toNat - 97)) = c := by
      rw [Nat.add_sub_cancel' hlow]
      exact Char.ofNat_toNat c
    obtain ⟨hstable, hne⟩ := hall (c.toNat - 97) (List.mem_range.2 (by omega))
    rw [hc] at hstable hne
    exact ⟨hstable, fun _ => hne⟩
  · have hc : asciiUpper c = c := if_neg h
    rw [hc, hc]
    exact ⟨rfl, id⟩

/-- Case rules that map ASCII letters only. -/
def asciiCase : CaseRules where
  upperOf c := [asciiUpper c]
  lower s := String.ofList (s.toList.map Char.toLower)
  toUpper s := String.ofList (s.toList.map asciiUpper)
  nonempty c := List.cons_ne_nil _ _
  stable c d hd := by rw [List.mem_singleton.1 hd, (asciiUpper_spec c).1]
  hyphen := rfl
  hyphenless c hc hin := (asciiUpper_spec c).2 hc (List.mem_singleton.1 hin).symm

/-- A regulation ingested from the catalog, and an internal document of a hyphenated short name. -/
def craIngested : Built := ⟨.catalog, "cra", "1.0"⟩

def engineeringPractice : Built := ⟨.internal, "ENG-PRAC", "3.0"⟩

theorem leads_back_iff_cra :
    (LeadsBack asciiCase craIngested ∧ LeadsBack asciiCase engineeringPractice ∧
      (SameName asciiCase (craIngested.id asciiCase) (engineeringPractice.id asciiCase) →
        SamePair asciiCase craIngested engineeringPractice)) ↔
      '-' ∉ craIngested.version.toList ∧ '-' ∉ engineeringPractice.version.toList :=
  leads_back_iff asciiCase ⟨by decide, rfl⟩ ⟨"ENG-PRAC", by decide +kernel⟩

/-- An amendment of a regulation, re-ingested under its consolidated CELEX. -/
def gdprAmended : Built := ⟨.amendment, "gdpr", "02016R0679-20160504"⟩

/-- An internal document whose short name is the amendment's with the first part of its version. -/
def gdprLookalike : Built := ⟨.internal, "gdpr-02016R0679", "20160504"⟩

/-- **The export looks for an amended instrument in graphs that were never written**, and the amendment's id is the id
of another short name and version. -/
theorem amended_id_leads_astray :
    Admitted asciiCase gdprAmended ∧ Admitted asciiCase gdprLookalike ∧
      deriveShortName (gdprAmended.id asciiCase) = .ok "gdpr-02016R0679" ∧
      gdprAmended.written asciiCase = some "gdpr" ∧
      graphNames asciiCase "gdpr-02016R0679" ≠ graphNames asciiCase "gdpr" ∧
      ¬ LeadsBack asciiCase gdprAmended ∧
      gdprAmended.id asciiCase = gdprLookalike.id asciiCase ∧ ¬ SamePair asciiCase gdprAmended gdprLookalike := by
  refine ⟨⟨"32016R0679", by decide⟩, ⟨"gdpr-02016R0679", by decide +kernel⟩, by decide +kernel, by decide +kernel,
    by decide +kernel, fun h => hyphenless_of_leadsBack h (by decide), by decide +kernel, fun h => ?_⟩
  exact absurd h.1 (by unfold SameName; decide +kernel)

end PolicySystem.Ingestion
