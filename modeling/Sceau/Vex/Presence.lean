import Mathlib.Data.Finset.Basic
import Mathlib.Data.List.Sort
import Mathlib.Data.String.Basic

/-!
# Presence-based auto-VEX (`auto_vex_presence.rs`)

`compute_presence_vex` goes through the matches of a Grype report and decides match by match, but
what it emits is one statement per vulnerability id, and a statement names the product alone. The
loop is a fold over the matches with the `BTreeMap` of emitted statements as its accumulator;
`emitted_getElem?` says what the map holds at any id after any number of matches, and everything
else follows from it.

Hash sets are `Finset`s, nothing in the code depending on their order; the ordered map is
`Std.TreeMap`. It is ordered by code points here and by bytes in the source, which for UTF-8 is the
same order.
-/

set_option autoImplicit false

namespace Sceau.Vex

/-! ## The schemas -/

structure GrypeVuln where
  id : String
  deriving DecidableEq

structure GrypeArtifact where
  purl : Option String
  deriving DecidableEq

structure GrypeMatch where
  vulnerability : GrypeVuln
  artifact : GrypeArtifact
  deriving DecidableEq

structure GrypeReport where
  «matches» : List GrypeMatch
  deriving DecidableEq

structure SbomComponent where
  purl : Option String
  deriving DecidableEq

structure Sbom where
  components : Option (List SbomComponent)
  deriving DecidableEq

structure Vuln where
  name : String
  deriving DecidableEq

structure Product where
  id : String
  deriving DecidableEq

structure Statement where
  vulnerability : Vuln
  products : List Product
  status : String
  justification : Option String
  impactStatement : Option String
  timestamp : String
  deriving DecidableEq

/-- `AUTO_IMPACT_STATEMENT`. -/
def autoImpactStatement : String :=
  "Auto-derived by auto-vex-presence: the vulnerable component's package " ++
    "URL is not present in any release SBOM, so the CVE cannot be exploited " ++
    "against this product."

/-! ## The computation -/

section Compute

variable (sboms : List Sbom) (alreadyTriaged : Finset String) (productPurl statementTimestamp : String)

/-- `sbom_purls`. -/
def sbomPurls : Finset String :=
  ((sboms.flatMap fun s => s.components.getD []).filterMap (·.purl)).toFinset

/-- The statement emitted for an id. -/
def presenceStatement (cve : String) : Statement where
  vulnerability := { name := cve }
  products := [{ id := productPurl }]
  status := "not_affected"
  justification := some "component_not_present"
  impactStatement := some autoImpactStatement
  timestamp := statementTimestamp

/-- The body of the loop. -/
def presenceStep (emitted : Std.TreeMap String Statement compare) (m : GrypeMatch) :
    Std.TreeMap String Statement compare :=
  let cve := m.vulnerability.id
  if cve ∈ alreadyTriaged then emitted
  else if emitted.contains cve then emitted
  else
    match m.artifact.purl with
    | none => emitted
    | some artifactPurl =>
      if artifactPurl = "" then emitted
      else if artifactPurl ∈ sbomPurls sboms then emitted
      else emitted.insert cve (presenceStatement productPurl statementTimestamp cve)

/-- The map after the loop over these matches. -/
def emittedAfter (ms : List GrypeMatch) : Std.TreeMap String Statement compare :=
  ms.foldl (presenceStep sboms alreadyTriaged productPurl statementTimestamp) ∅

/-- `compute_presence_vex`. -/
def computePresenceVex (grype : GrypeReport) : List Statement :=
  ((emittedAfter sboms alreadyTriaged productPurl statementTimestamp grype.matches).toList).map
    (·.2)

end Compute

/-! ## What it emits -/

/-- The match has a non-empty purl that is no component's of any SBOM. -/
def NotPresent (sboms : List Sbom) (m : GrypeMatch) : Prop :=
  ∃ p, m.artifact.purl = some p ∧ p ≠ "" ∧
    ∀ sbom ∈ sboms, ∀ c ∈ sbom.components.getD [], c.purl ≠ some p

section Spec

variable {sboms : List Sbom} {alreadyTriaged : Finset String}
  {productPurl statementTimestamp : String}

theorem mem_sbomPurls {p : String} :
    p ∈ sbomPurls sboms ↔ ∃ sbom ∈ sboms, ∃ c ∈ sbom.components.getD [], c.purl = some p := by
  simp only [sbomPurls, List.mem_toFinset, List.mem_filterMap, List.mem_flatMap]
  constructor
  · intro h
    obtain ⟨c, ⟨sbom, hs, hc⟩, hp⟩ := h
    exact ⟨sbom, hs, c, hc, hp⟩
  · intro h
    obtain ⟨sbom, hs, c, hc, hp⟩ := h
    exact ⟨c, ⟨sbom, hs, hc⟩, hp⟩

theorem notPresent_iff {m : GrypeMatch} :
    NotPresent sboms m ↔ ∃ p, m.artifact.purl = some p ∧ p ≠ "" ∧ p ∉ sbomPurls sboms := by
  unfold NotPresent
  simp only [mem_sbomPurls, not_exists, not_and, ne_eq]

instance (m : GrypeMatch) : Decidable (NotPresent sboms m) :=
  decidable_of_iff
    ((m.artifact.purl.any fun p => decide (p ≠ "") && decide (p ∉ sbomPurls sboms)) = true) <| by
    rw [notPresent_iff]
    cases m.artifact.purl <;> simp

/-- The guard of the loop's body, in one condition. -/
theorem presenceStep_eq (emitted : Std.TreeMap String Statement compare) (m : GrypeMatch) :
    presenceStep sboms alreadyTriaged productPurl statementTimestamp emitted m =
      if m.vulnerability.id ∉ alreadyTriaged ∧ emitted[m.vulnerability.id]? = none ∧
          NotPresent sboms m
      then emitted.insert m.vulnerability.id
        (presenceStatement productPurl statementTimestamp m.vulnerability.id)
      else emitted := by
  simp only [presenceStep, Std.TreeMap.contains_eq_isSome_getElem?]
  by_cases htri : m.vulnerability.id ∈ alreadyTriaged
  · simp [htri]
  · by_cases hemp : emitted[m.vulnerability.id]? = none
    · cases hp : m.artifact.purl with
      | none => simp [htri, hemp, notPresent_iff, hp]
      | some p =>
        by_cases hpe : p = ""
        · simp [htri, hemp, notPresent_iff, hp, hpe]
        · by_cases hin : p ∈ sbomPurls sboms
          · simp [htri, hemp, notPresent_iff, hp, hpe, hin]
          · simp [htri, hemp, notPresent_iff, hp, hpe, hin]
    · have hsome : emitted[m.vulnerability.id]?.isSome = true := Option.isSome_iff_ne_none.mpr hemp
      rw [if_neg htri, if_pos hsome, if_neg (fun h => hemp h.2.1)]

/-- One match fills the entry of its own id, if that is untriaged and still empty and the match is
not present; no other entry changes. -/
theorem presenceStep_getElem? (emitted : Std.TreeMap String Statement compare) (m : GrypeMatch)
    (cve : String) :
    (presenceStep sboms alreadyTriaged productPurl statementTimestamp emitted m)[cve]? =
      if m.vulnerability.id = cve ∧ cve ∉ alreadyTriaged ∧ emitted[cve]? = none ∧
          NotPresent sboms m
      then some (presenceStatement productPurl statementTimestamp cve) else emitted[cve]? := by
  rw [presenceStep_eq]
  by_cases hid : m.vulnerability.id = cve
  · subst hid
    split <;> simp_all
  · have hother : ¬ (m.vulnerability.id = cve ∧ cve ∉ alreadyTriaged ∧ emitted[cve]? = none ∧
        NotPresent sboms m) := fun h => hid h.1
    rw [if_neg hother]
    split
    · rw [Std.TreeMap.getElem?_insert, if_neg (by simpa using hid)]
    · rfl

/-- Some untriaged match of the id is not present. -/
def Dismissed (sboms : List Sbom) (alreadyTriaged : Finset String) (ms : List GrypeMatch)
    (cve : String) : Prop :=
  cve ∉ alreadyTriaged ∧ ∃ m ∈ ms, m.vulnerability.id = cve ∧ NotPresent sboms m

/-- The loop, from any map: entries stay, and an empty one is filled by the first match that can. -/
theorem foldl_getElem? (ms : List GrypeMatch) (emitted : Std.TreeMap String Statement compare)
    (cve : String) (st : Statement) :
    (ms.foldl (presenceStep sboms alreadyTriaged productPurl statementTimestamp) emitted)[cve]? =
        some st ↔
      emitted[cve]? = some st ∨ (emitted[cve]? = none ∧ Dismissed sboms alreadyTriaged ms cve ∧
        st = presenceStatement productPurl statementTimestamp cve) := by
  induction ms generalizing emitted with
  | nil => simp [Dismissed]
  | cons m ms ih =>
    rw [List.foldl_cons, ih, presenceStep_getElem?]
    have hcons : Dismissed sboms alreadyTriaged (m :: ms) cve ↔
        (m.vulnerability.id = cve ∧ cve ∉ alreadyTriaged ∧ NotPresent sboms m) ∨
          Dismissed sboms alreadyTriaged ms cve := by
      simp only [Dismissed, List.mem_cons, exists_eq_or_imp]
      tauto
    rw [hcons]
    by_cases hemp : emitted[cve]? = none
    · by_cases hm : m.vulnerability.id = cve ∧ cve ∉ alreadyTriaged ∧ NotPresent sboms m
      · -- this match fills the entry, and the rest of the loop leaves it alone
        rw [if_pos ⟨hm.1, hm.2.1, hemp, hm.2.2⟩]
        simp [hemp, hm, eq_comm]
      · rw [if_neg (fun h => hm ⟨h.1, h.2.1, h.2.2.2⟩)]
        simp only [hemp, hm, false_or]
    · rw [if_neg (fun h => hemp h.2.2.1)]
      simp [hemp]

/-- **What the map holds at an id**, after any matches. -/
theorem emitted_getElem? (ms : List GrypeMatch) (cve : String) (st : Statement) :
    (emittedAfter sboms alreadyTriaged productPurl statementTimestamp ms)[cve]? = some st ↔
      Dismissed sboms alreadyTriaged ms cve ∧
        st = presenceStatement productPurl statementTimestamp cve := by
  unfold emittedAfter
  rw [foldl_getElem?]
  simp

theorem mem_computePresenceVex {grype : GrypeReport} {st : Statement} :
    st ∈ computePresenceVex sboms alreadyTriaged productPurl statementTimestamp grype ↔
      ∃ cve, Dismissed sboms alreadyTriaged grype.matches cve ∧
        st = presenceStatement productPurl statementTimestamp cve := by
  simp only [computePresenceVex, List.mem_map, Prod.exists,
    Std.TreeMap.mem_toList_iff_getElem?_eq_some, emitted_getElem?]
  constructor
  · intro h
    obtain ⟨cve, st', ⟨hd, rfl⟩, rfl⟩ := h
    exact ⟨cve, hd, rfl⟩
  · intro h
    obtain ⟨cve, hd, rfl⟩ := h
    exact ⟨cve, _, ⟨hd, rfl⟩, rfl⟩

end Spec

/-! ## Soundness of a dismissal -/

/-- An untriaged id with one match that is not present and another that is, or that has no purl to
tell by. -/
def MixedFinding (sboms : List Sbom) (alreadyTriaged : Finset String) (grype : GrypeReport) : Prop :=
  ∃ m ∈ grype.matches, ∃ m' ∈ grype.matches, m'.vulnerability.id = m.vulnerability.id ∧
    m.vulnerability.id ∉ alreadyTriaged ∧ NotPresent sboms m ∧ ¬ NotPresent sboms m'

/-- **When a dismissal is sound.** Every statement emitted for an id stands for matches that are
all not present, exactly when no id of the report is mixed. -/
theorem dismissal_sound_iff (sboms : List Sbom) (alreadyTriaged : Finset String)
    (productPurl statementTimestamp : String) (grype : GrypeReport) :
    (∀ st ∈ computePresenceVex sboms alreadyTriaged productPurl statementTimestamp grype,
      ∀ m ∈ grype.matches, m.vulnerability.id = st.vulnerability.name → NotPresent sboms m) ↔
      ¬ MixedFinding sboms alreadyTriaged grype := by
  constructor
  · intro hsound hmixed
    obtain ⟨m, hm, m', hm', hid, htri, hnot, hpres⟩ := hmixed
    have hst : presenceStatement productPurl statementTimestamp m.vulnerability.id ∈
        computePresenceVex sboms alreadyTriaged productPurl statementTimestamp grype :=
      mem_computePresenceVex.mpr ⟨_, ⟨htri, m, hm, rfl, hnot⟩, rfl⟩
    exact hpres (hsound _ hst m' hm' hid)
  · intro hmixed st hst m' hm' hid
    obtain ⟨cve, ⟨htri, m, hm, rfl, hnot⟩, rfl⟩ := mem_computePresenceVex.mp hst
    by_contra hpres
    exact hmixed ⟨m, hm, m', hm', hid, htri, hnot, hpres⟩

/-- One id matched by a package the SBOM lists and by one it does not: the id is dismissed. -/
theorem present_match_dismissed :
    ∃ st ∈ computePresenceVex [{ components := some [{ purl := some "pkg:a" }] }] ∅ "pkg:oci/sceau" "t"
        { «matches» := [⟨⟨"CVE-1"⟩, ⟨some "pkg:a"⟩⟩, ⟨⟨"CVE-1"⟩, ⟨some "pkg:b"⟩⟩] },
      st.vulnerability.name = "CVE-1" ∧ st.status = "not_affected" ∧
        ¬ NotPresent [{ components := some [{ purl := some "pkg:a" }] }]
          ⟨⟨"CVE-1"⟩, ⟨some "pkg:a"⟩⟩ := by
  exact ⟨presenceStatement "pkg:oci/sceau" "t" "CVE-1", by decide +kernel, rfl, rfl, by decide⟩

/-! ## The output as a whole -/

section Exact

variable {sboms sboms' : List Sbom} {alreadyTriaged : Finset String}
  {productPurl statementTimestamp : String} {grype grype' : GrypeReport}

/-- The ids of the statements are the keys of the map. -/
theorem computePresenceVex_names :
    (computePresenceVex sboms alreadyTriaged productPurl statementTimestamp grype).map
        (·.vulnerability.name) =
      (emittedAfter sboms alreadyTriaged productPurl statementTimestamp grype.matches).keys := by
  rw [← Std.TreeMap.map_fst_toList_eq_keys, computePresenceVex, List.map_map]
  apply List.map_congr_left
  rintro ⟨cve, st⟩ hmem
  rw [Std.TreeMap.mem_toList_iff_getElem?_eq_some, emitted_getElem?] at hmem
  rw [hmem.2]
  rfl

theorem computePresenceVex_names_sorted :
    ((computePresenceVex sboms alreadyTriaged productPurl statementTimestamp grype).map
      (·.vulnerability.name)).Pairwise (· < ·) := by
  rw [computePresenceVex_names]
  refine (Std.TreeMap.ordered_keys (t := emittedAfter ..)).imp ?_
  exact compareOfLessAndEq_eq_lt.mp

theorem mem_computePresenceVex_names {cve : String} :
    cve ∈ (computePresenceVex sboms alreadyTriaged productPurl statementTimestamp grype).map
        (·.vulnerability.name) ↔ Dismissed sboms alreadyTriaged grype.matches cve := by
  rw [List.mem_map]
  constructor
  · rintro ⟨st, hst, rfl⟩
    obtain ⟨cve, hd, rfl⟩ := mem_computePresenceVex.mp hst
    exact hd
  · intro hd
    exact ⟨_, mem_computePresenceVex.mpr ⟨cve, hd, rfl⟩, rfl⟩

/-- No field of a statement but its id depends on the findings. -/
theorem computePresenceVex_eq_map :
    computePresenceVex sboms alreadyTriaged productPurl statementTimestamp grype =
      ((computePresenceVex sboms alreadyTriaged productPurl statementTimestamp grype).map
        (·.vulnerability.name)).map (presenceStatement productPurl statementTimestamp) := by
  rw [List.map_map]
  conv_lhs => rw [← List.map_id (computePresenceVex _ _ _ _ _)]
  apply List.map_congr_left
  intro st hst
  obtain ⟨cve, -, rfl⟩ := mem_computePresenceVex.mp hst
  rfl

/-- Which ids are dismissed is all the output depends on: sorted lists with the same elements are
the same list. -/
theorem computePresenceVex_congr {alreadyTriaged' : Finset String}
    (h : ∀ cve, Dismissed sboms alreadyTriaged grype.matches cve ↔
      Dismissed sboms' alreadyTriaged' grype'.matches cve) :
    computePresenceVex sboms alreadyTriaged productPurl statementTimestamp grype =
      computePresenceVex sboms' alreadyTriaged' productPurl statementTimestamp grype' := by
  have hnames : (computePresenceVex sboms alreadyTriaged productPurl statementTimestamp grype).map
        (·.vulnerability.name) =
      (computePresenceVex sboms' alreadyTriaged' productPurl statementTimestamp grype').map
        (·.vulnerability.name) := by
    apply computePresenceVex_names_sorted.eq_of_mem_iff computePresenceVex_names_sorted
    intro cve
    rw [mem_computePresenceVex_names, mem_computePresenceVex_names, h]
  rw [computePresenceVex_eq_map, hnames, ← computePresenceVex_eq_map]

/-- Every SBOM of the one list has one in the other with the same components, in any order and
any number of times. -/
def Covers (sboms sboms' : List Sbom) : Prop :=
  ∀ sbom ∈ sboms, ∃ sbom' ∈ sboms', ∀ c, c ∈ sbom.components.getD [] ↔ c ∈ sbom'.components.getD []

theorem NotPresent.of_covers {m : GrypeMatch} (hcov : Covers sboms sboms')
    (h : NotPresent sboms' m) : NotPresent sboms m := by
  obtain ⟨p, hp, hne, habs⟩ := h
  refine ⟨p, hp, hne, ?_⟩
  intro sbom hs c hc
  obtain ⟨sbom', hs', hsame⟩ := hcov sbom hs
  exact habs sbom' hs' c ((hsame c).mp hc)

/-- **`compute_presence_vex`, exactly.** One statement per dismissed id, in increasing order; so
the order and the multiplicity of the matches, of the SBOMs, of their components and of the triaged
ids do not matter. -/
theorem computePresenceVex_exact (sboms : List Sbom) (alreadyTriaged : Finset String)
    (productPurl statementTimestamp : String) (grype : GrypeReport) :
    ((computePresenceVex sboms alreadyTriaged productPurl statementTimestamp grype).map
        (·.vulnerability.name)).Pairwise (· < ·) ∧
      (∀ cve, cve ∈ (computePresenceVex sboms alreadyTriaged productPurl statementTimestamp
            grype).map (·.vulnerability.name) ↔
          cve ∉ alreadyTriaged ∧ ∃ m ∈ grype.matches, m.vulnerability.id = cve ∧
            ∃ p, m.artifact.purl = some p ∧ p ≠ "" ∧
              ∀ sbom ∈ sboms, ∀ c ∈ sbom.components.getD [], c.purl ≠ some p) ∧
      ∀ (sboms' : List Sbom) (listing : List String) (grype' : GrypeReport),
        (∀ m, m ∈ grype'.matches ↔ m ∈ grype.matches) → Covers sboms sboms' → Covers sboms' sboms →
        (∀ id, id ∈ listing ↔ id ∈ alreadyTriaged) →
        computePresenceVex sboms' listing.toFinset productPurl statementTimestamp grype' =
          computePresenceVex sboms alreadyTriaged productPurl statementTimestamp grype := by
  refine ⟨computePresenceVex_names_sorted, fun cve => mem_computePresenceVex_names, ?_⟩
  intro sboms' listing grype' hmatches hcov hcov' hlist
  apply computePresenceVex_congr
  intro cve
  have hpres : ∀ m, NotPresent sboms' m ↔ NotPresent sboms m :=
    fun m => ⟨NotPresent.of_covers hcov, NotPresent.of_covers hcov'⟩
  simp only [Dismissed, List.mem_toFinset, hlist, hmatches, hpres]

/-- Two findings in either order, one of them twice, and an SBOM split over two files. -/
theorem computePresenceVex_exact_shuffled :
    computePresenceVex
        [{ components := some [{ purl := some "pkg:b" }, { purl := some "pkg:a" }] },
          { components := none }, { components := some [{ purl := some "pkg:a" },
            { purl := some "pkg:b" }, { purl := some "pkg:a" }] }]
        ["CVE-9", "CVE-8", "CVE-9"].toFinset "pkg:oci/sceau" "t"
        { «matches» := [⟨⟨"CVE-2"⟩, ⟨some "pkg:c"⟩⟩, ⟨⟨"CVE-1"⟩, ⟨some "pkg:d"⟩⟩,
          ⟨⟨"CVE-2"⟩, ⟨some "pkg:c"⟩⟩] } =
      computePresenceVex
        [{ components := some [] },
          { components := some [{ purl := some "pkg:a" }, { purl := some "pkg:b" }] }]
        {"CVE-8", "CVE-9"} "pkg:oci/sceau" "t"
        { «matches» := [⟨⟨"CVE-1"⟩, ⟨some "pkg:d"⟩⟩, ⟨⟨"CVE-2"⟩, ⟨some "pkg:c"⟩⟩] } := by
  refine (computePresenceVex_exact _ _ _ _ _).2.2 _ _ _ ?_ ?_ ?_ ?_
  · intro m
    simp only [List.mem_cons, List.not_mem_nil, or_false]
    tauto
  · simp [Covers, or_comm]
  · simp [Covers, or_comm]
  · intro id
    simp only [List.mem_cons, List.not_mem_nil, or_false, Finset.mem_insert, Finset.mem_singleton]
    tauto

end Exact

end Sceau.Vex
