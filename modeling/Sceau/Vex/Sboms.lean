import Sceau.Vex.Files
import Mathlib.Logic.Relation

/-!
# What an SBOM says, and what the tool sees of it

A CycloneDX document is a tree: a component may have components. The structures of
`auto_vex_presence.rs` keep the purls of the top of that tree and skip the rest unread, so presence
is decided over the top-level components of the SBOMs, and `load_sbom_from_path`'s guard is on their
number. Both are made exact here: which purls of the tree count, and which of the SBOMs that the guard
lets through say anything at all.
-/

set_option autoImplicit false

namespace Sceau.Vex

open Lib

/-! ## The component tree

A document as its author means it: components, which may have components, any of which may be
identified by a purl. Nothing of this is decoded. -/

/-- `c` is listed among the components of `j`. -/
def Child (j c : Json) : Prop := ∃ cs, j.Has "components" (.arr cs) ∧ c ∈ cs

/-- `c` is a component at some depth of the document. -/
def ComponentAt : Json → Json → Prop := Relation.TransGen Child

def HasPurl (c : Json) (p : String) : Prop := c.Has "purl" (.str (some p))

/-- A CycloneDX document is an object, and so are the components it lists. -/
structure CycloneDx (doc : Json) : Prop where
  object : ∃ fs, doc = .obj fs
  components : ∀ c, Child doc c → ∃ fs, c = .obj fs

/-! ## What is decoded of it -/

theorem string_eq_some_iff {j : Json} {s : String} :
    Json.string j = some s ↔ j = .str (some s) := by
  cases j <;> simp [Json.string]

theorem Decode.sbomComponent_purl {fs : List (Option String × Json)} {c : SbomComponent}
    (h : Decode.sbomComponent (.obj fs) = some c) {p : String} :
    c.purl = some p ↔ HasPurl (.obj fs) p := by
  simp only [Decode.sbomComponent, Option.bind_eq_bind, Option.bind_eq_some_iff, Option.pure_def,
    Option.some.injEq] at h
  obtain ⟨get, hget, purl, hpurl, rfl⟩ := h
  have hfield : ∀ v, get "purl" = some v ↔ (Json.obj fs).Has "purl" v :=
    fun v => Json.fields_obj hget (by simp)
  calc purl = some p ↔ Json.optionField get "purl" Json.string = some (some p) := by
        rw [hpurl, Option.some.injEq]
    _ ↔ ∃ j, get "purl" = some j ∧ Json.string j = some p :=
        Json.optionField_eq_some_some_iff rfl
    _ ↔ HasPurl (.obj fs) p := by simp [string_eq_some_iff, hfield, HasPurl]

/-- A decoded component list is the one array the document gives under that name. -/
theorem Decode.sbom_components {fs : List (Option String × Json)} {sbom : Sbom}
    (h : Decode.sbom (.obj fs) = some sbom) {cs : List SbomComponent}
    (hcs : sbom.components = some cs) :
    ∃ xs, (∀ v, (Json.obj fs).Has "components" v ↔ v = .arr xs) ∧
      List.Forall₂ (fun x c => Decode.sbomComponent x = some c) xs cs := by
  simp only [Decode.sbom, Option.bind_eq_bind, Option.bind_eq_some_iff, Option.pure_def,
    Option.some.injEq] at h
  obtain ⟨get, hget, components, hcomp, rfl⟩ := h
  have hfield : ∀ v, get "components" = some v ↔ (Json.obj fs).Has "components" v :=
    fun v => Json.fields_obj hget (by simp)
  rw [show components = some cs from hcs] at hcomp
  obtain ⟨j, hj, hseq⟩ := (Json.optionField_eq_some_some_iff rfl).mp hcomp
  obtain ⟨xs, rfl, hxs⟩ := Json.seq_eq_some_iff.mp hseq
  refine ⟨xs, fun v => ?_, hxs⟩
  rw [← hfield, hj, Option.some.injEq, eq_comm]

/-- The elements of that array are what the document lists. -/
theorem Decode.sbom_child {doc : Json} {sbom : Sbom} (h : Decode.sbom doc = some sbom)
    (hobj : ∃ fs, doc = .obj fs) {cs : List SbomComponent} (hcs : sbom.components = some cs) :
    ∃ xs, (∀ x, Child doc x ↔ x ∈ xs) ∧
      List.Forall₂ (fun x c => Decode.sbomComponent x = some c) xs cs := by
  obtain ⟨fs, rfl⟩ := hobj
  obtain ⟨xs, hxs, hall⟩ := Decode.sbom_components h hcs
  refine ⟨xs, fun x => ⟨?_, fun hx => ⟨xs, (hxs _).mpr rfl, hx⟩⟩, hall⟩
  rintro ⟨ys, hys, hx⟩
  cases (hxs _).mp hys
  exact hx

/-- A purl of a component that is listed at the top is a purl of the SBOM. -/
theorem Decode.sbom_has_purl {doc : Json} {sbom : Sbom} (h : Decode.sbom doc = some sbom)
    {cs : List SbomComponent} (hcs : sbom.components = some cs) {x : Json} {p : String}
    (hx : Child doc x) (hp : HasPurl x p) : ∃ c ∈ cs, c.purl = some p := by
  have hobj : ∃ fs, doc = .obj fs := by
    obtain ⟨ys, ⟨fs, hfs, -⟩, -⟩ := hx
    exact ⟨fs, hfs⟩
  obtain ⟨xs, hchild, hall⟩ := Decode.sbom_child h hobj hcs
  obtain ⟨c, hc, hdec⟩ := Json.forall₂_exists_right hall ((hchild x).mp hx)
  obtain ⟨fs, rfl, hmem⟩ := hp
  exact ⟨c, hc, (Decode.sbomComponent_purl hdec).mpr ⟨fs, rfl, hmem⟩⟩

/-- The purls a decoded document brings are those of its top-level components. -/
theorem Decode.sbom_purls {doc : Json} {sbom : Sbom} (h : Decode.sbom doc = some sbom)
    (hdoc : CycloneDx doc) {cs : List SbomComponent} (hcs : sbom.components = some cs) {p : String} :
    (∃ c ∈ cs, c.purl = some p) ↔ ∃ c, Child doc c ∧ HasPurl c p := by
  constructor
  · rintro ⟨c, hc, hp⟩
    obtain ⟨xs, hchild, hall⟩ := Decode.sbom_child h hdoc.object hcs
    obtain ⟨x, hx, hdec⟩ := Json.forall₂_exists_left hall hc
    obtain ⟨fs, rfl⟩ := hdoc.components x ((hchild x).mpr hx)
    exact ⟨_, (hchild _).mpr hx, (Decode.sbomComponent_purl hdec).mp hp⟩
  · rintro ⟨x, hx, hp⟩
    exact Decode.sbom_has_purl h hcs hx hp

/-! ## The SBOMs of a run -/

/-- The SBOMs are what `load_sbom_from_path` makes of these files, in order. -/
def Loaded (R : Runtime) (fs : FileSystem) (paths : List Path) (sboms : List Sbom) : Prop :=
  List.Forall₂ (fun path sbom => loadSbomFromPath R fs path = .ok sbom) paths sboms

/-- The JSON document in a file. -/
def DocumentAt (R : Runtime) (fs : FileSystem) (path : Path) (doc : Json) : Prop :=
  ∃ bytes, fs.read path = .ok bytes ∧ R.parse bytes = some doc

section Purls

variable {R : Runtime} {fs : FileSystem} {paths : List Path} {sboms : List Sbom}

/-- The SBOM a loaded file stands for, and its components. -/
theorem loadSbomFromPath_doc {path : Path} {sbom : Sbom} {doc : Json}
    (h : loadSbomFromPath R fs path = .ok sbom) (hdoc : DocumentAt R fs path doc) :
    Decode.sbom doc = some sbom ∧ ∃ c cs, sbom.components = some (c :: cs) := by
  obtain ⟨⟨bytes, j, hread, -, hparse, hdec⟩, hcs⟩ := loadSbomFromPath_eq_ok_iff.mp h
  obtain ⟨bytes', hread', hparse'⟩ := hdoc
  obtain rfl : bytes = bytes' := Except.ok.inj (hread.symm.trans hread')
  obtain rfl : j = doc := Option.some.inj (hparse.symm.trans hparse')
  exact ⟨hdec, hcs⟩

/-- A loaded SBOM contributes the purls of the top-level components of its document. -/
theorem mem_sbomPurls_of_child {path : Path} {sbom : Sbom} {doc c : Json} {p : String}
    (h : loadSbomFromPath R fs path = .ok sbom) (hdoc : DocumentAt R fs path doc) (hc : Child doc c)
    (hp : HasPurl c p) : p ∈ sbomPurls [sbom] := by
  obtain ⟨hdec, c₀, cs, hcs⟩ := loadSbomFromPath_doc h hdoc
  obtain ⟨c', hc', hp'⟩ := Decode.sbom_has_purl hdec hcs hc hp
  refine mem_sbomPurls.mpr ⟨sbom, List.mem_singleton.mpr rfl, c', ?_, hp'⟩
  rw [hcs]
  exact hc'

/-- **The set findings are tested against**: the purls of the top-level components. -/
theorem mem_sbomPurls_loaded {doc : Path → Json} (hload : Loaded R fs paths sboms)
    (hdoc : ∀ path ∈ paths, DocumentAt R fs path (doc path))
    (hshape : ∀ path ∈ paths, CycloneDx (doc path)) {p : String} :
    p ∈ sbomPurls sboms ↔ ∃ path ∈ paths, ∃ c, Child (doc path) c ∧ HasPurl c p := by
  have hone : ∀ path ∈ paths, ∀ sbom, loadSbomFromPath R fs path = .ok sbom →
      ((∃ c ∈ sbom.components.getD [], c.purl = some p) ↔
        ∃ c, Child (doc path) c ∧ HasPurl c p) := by
    intro path hpath sbom hl
    obtain ⟨hdec, c, cs, hcs⟩ := loadSbomFromPath_doc hl (hdoc path hpath)
    rw [hcs, Option.getD_some]
    exact Decode.sbom_purls hdec (hshape path hpath) hcs
  rw [mem_sbomPurls]
  constructor
  · rintro ⟨sbom, hs, hc⟩
    obtain ⟨path, hpath, hl⟩ := Json.forall₂_exists_left hload hs
    exact ⟨path, hpath, (hone path hpath sbom hl).mp hc⟩
  · rintro ⟨path, hpath, hc⟩
    obtain ⟨sbom, hs, hl⟩ := Json.forall₂_exists_right hload hpath
    exact ⟨sbom, hs, (hone path hpath sbom hl).mpr hc⟩

end Purls

/-- An id all of whose matches carry one purl is dismissed by some report, unless the purl is empty
or in the set. -/
theorem never_dismissed_iff {sboms : List Sbom} {p : String} :
    (∀ (alreadyTriaged : Finset String) (productPurl statementTimestamp : String)
        (grype : GrypeReport) (cve : String),
      (∀ m ∈ grype.matches, m.vulnerability.id = cve → m.artifact.purl = some p) →
      cve ∉ (computePresenceVex sboms alreadyTriaged productPurl statementTimestamp grype).map
        (·.vulnerability.name)) ↔ (p ≠ "" → p ∈ sbomPurls sboms) := by
  constructor
  · intro h hne
    by_contra hnot
    let m : GrypeMatch := { vulnerability := { id := "CVE" }, artifact := { purl := some p } }
    refine h ∅ "" "" { «matches» := [m] } "CVE" ?_ ?_
    · intro m' hm' _
      rw [List.mem_singleton.mp hm']
    · rw [mem_computePresenceVex_names]
      exact ⟨Finset.notMem_empty _, m, List.mem_singleton.mpr rfl, rfl,
        notPresent_iff.mpr ⟨p, rfl, hne, hnot⟩⟩
  · intro h alreadyTriaged productPurl statementTimestamp grype cve hall hmem
    obtain ⟨-, m, hm, hid, hnot⟩ := mem_computePresenceVex_names.mp hmem
    obtain ⟨q, hq, hne, habs⟩ := notPresent_iff.mp hnot
    obtain rfl : p = q := Option.some.inj ((hall m hm hid).symm.trans hq)
    exact habs (h hne)

/-- **Presence over the whole tree.** That no purl found at any depth of an accepted SBOM is ever
dismissed comes down to the documents: every such purl, but the empty one, has to be repeated at
the top level of one of them. -/
theorem whole_tree_present_iff (R : Runtime) (fs : FileSystem) (paths : List Path)
    (sboms : List Sbom) (doc : Path → Json) (hload : Loaded R fs paths sboms)
    (hdoc : ∀ path ∈ paths, DocumentAt R fs path (doc path))
    (hshape : ∀ path ∈ paths, CycloneDx (doc path)) :
    (∀ path ∈ paths, ∀ c p, ComponentAt (doc path) c → HasPurl c p →
      ∀ (alreadyTriaged : Finset String) (productPurl statementTimestamp : String)
        (grype : GrypeReport) (cve : String),
        (∀ m ∈ grype.matches, m.vulnerability.id = cve → m.artifact.purl = some p) →
        cve ∉ (computePresenceVex sboms alreadyTriaged productPurl statementTimestamp grype).map
          (·.vulnerability.name)) ↔
      ∀ path ∈ paths, ∀ c p, ComponentAt (doc path) c → HasPurl c p → p ≠ "" →
        ∃ path' ∈ paths, ∃ c', Child (doc path') c' ∧ HasPurl c' p := by
  simp only [never_dismissed_iff, mem_sbomPurls_loaded hload hdoc hshape]

def zlib : Json := .obj [(some "purl", .str (some "pkg:deb/debian/zlib1g"))]

/-- A component with another inside. -/
def base : Json :=
  .obj [(some "purl", .str (some "pkg:deb/debian/base")), (some "components", .arr [zlib])]

def nestedDoc : Json :=
  .obj [(some "bomFormat", .str (some "CycloneDX")), (some "components", .arr [base])]

/-- The same, with the inner component listed at the top as well. -/
def flattenedDoc : Json := .obj [(some "components", .arr [base, zlib])]

def nestedText : String :=
  "\x7b\"bomFormat\":\"CycloneDX\",\"components\":[\x7b\"purl\":\"pkg:deb/debian/base\"," ++
    "\"components\":[\x7b\"purl\":\"pkg:deb/debian/zlib1g\"\x7d]\x7d]\x7d"

def flattenedText : String :=
  "\x7b\"components\":[\x7b\"purl\":\"pkg:deb/debian/base\",\"components\":[" ++
    "\x7b\"purl\":\"pkg:deb/debian/zlib1g\"\x7d]\x7d,\x7b\"purl\":\"pkg:deb/debian/zlib1g\"\x7d]\x7d"

def sbomFile (text : String) : FileSystem :=
  FileSystem.ofFiles [(Path.ofString "sbom.json", utf8 text)] []

/-- The inner component is dismissed as absent from the SBOM that lists it. -/
theorem nested_component_dismissed :
    ∃ sbom, loadSbomFromPath (Runtime.ofTexts [(nestedText, nestedDoc)]) (sbomFile nestedText)
        (Path.ofString "sbom.json") = .ok sbom ∧
      (∃ c, ComponentAt nestedDoc c ∧ HasPurl c "pkg:deb/debian/zlib1g") ∧
      "CVE-1" ∈ (computePresenceVex [sbom] ∅ "pkg:oci/sceau" "t"
        { «matches» := [⟨⟨"CVE-1"⟩, ⟨some "pkg:deb/debian/zlib1g"⟩⟩] }).map
          (·.vulnerability.name) := by
  refine ⟨{ components := some [{ purl := some "pkg:deb/debian/base" }] }, by decide +kernel, ?_,
    by decide +kernel⟩
  have hbase : Child nestedDoc base := ⟨[base], ⟨_, rfl, .tail _ (.head _)⟩, .head _⟩
  have hzlib : Child base zlib := ⟨[zlib], ⟨_, rfl, .tail _ (.head _)⟩, .head _⟩
  exact ⟨zlib, .tail (.single hbase) hzlib, _, rfl, .head _⟩

/-- Listed at the top as well, it is not. -/
theorem whole_tree_present_flattened :
    "CVE-1" ∉ (computePresenceVex [{ components := some [{ purl := some "pkg:deb/debian/base" },
        { purl := some "pkg:deb/debian/zlib1g" }] }] ∅ "pkg:oci/sceau" "t"
      { «matches» := [⟨⟨"CVE-1"⟩, ⟨some "pkg:deb/debian/zlib1g"⟩⟩] }).map
        (·.vulnerability.name) := by
  have hchild : ∀ c, Child flattenedDoc c ↔ c = base ∨ c = zlib := by
    intro c
    simp [Child, Json.Has, flattenedDoc]
  have htop : ∀ c, ComponentAt flattenedDoc c → Child flattenedDoc c := by
    intro c hc
    induction hc with
    | single h => exact h
    | tail _ hbc ih =>
      rcases (hchild _).mp ih with rfl | rfl
      · simp only [Child, Json.Has, base, Json.obj.injEq, exists_eq_left'] at hbc
        exact (hchild _).mpr (.inr (by simpa using hbc))
      · simp [Child, Json.Has, zlib] at hbc
  refine (whole_tree_present_iff (Runtime.ofTexts [(flattenedText, flattenedDoc)])
    (sbomFile flattenedText) [Path.ofString "sbom.json"] _ (fun _ => flattenedDoc)
    (.cons (by decide +kernel) .nil) ?_ ?_).mpr ?_ (Path.ofString "sbom.json") (List.mem_singleton.mpr rfl)
    zlib "pkg:deb/debian/zlib1g" (.single ((hchild zlib).mpr (.inr rfl))) ⟨_, rfl, .head _⟩
    _ _ _ _ _ ?_
  · intro path hpath
    rw [List.mem_singleton.mp hpath]
    exact ⟨utf8 flattenedText, by decide +kernel,
      Runtime.ofTexts_parse (by simp) (.head _)⟩
  · intro _ _
    refine ⟨⟨_, rfl⟩, ?_⟩
    intro c hc
    rcases (hchild c).mp hc with rfl | rfl
    · exact ⟨_, rfl⟩
    · exact ⟨_, rfl⟩
  · intro path hpath c p hc hp _
    exact ⟨path, hpath, c, htop c hc, hp⟩
  · intro m hm _
    rw [List.mem_singleton.mp hm]

/-! ## Informative SBOMs

The guard of `load_sbom_from_path` is there so that a broken SBOM does not become a blanket dismissal,
and counts components. What a finding is tested against are purls, so what would keep an SBOM from
being one is a purl, and one that is not empty: a finding with an empty purl is not looked up. -/

/-- The document identifies a package, at the top level where the tool looks. -/
def Identifies (doc : Json) : Prop := ∃ c p, Child doc c ∧ HasPurl c p ∧ p ≠ ""

/-- Whatever is reported, every finding with a purl is dismissed, unless it is triaged. -/
def Blanket (sboms : List Sbom) : Prop :=
  ∀ (alreadyTriaged : Finset String) (productPurl statementTimestamp : String) (grype : GrypeReport),
    ∀ m ∈ grype.matches, m.vulnerability.id ∉ alreadyTriaged →
      ∀ p, m.artifact.purl = some p → p ≠ "" →
      m.vulnerability.id ∈ (computePresenceVex sboms alreadyTriaged productPurl statementTimestamp
        grype).map (·.vulnerability.name)

/-- What the guard is for: each SBOM has a package of its own for which no finding is dismissed, and
neither it nor the list is a blanket dismissal. -/
structure Informative (sboms : List Sbom) : Prop where
  contributes : ∀ sbom ∈ sboms, ∃ p, p ∈ sbomPurls [sbom] ∧ p ≠ "" ∧
    ∀ (alreadyTriaged : Finset String) (productPurl statementTimestamp : String)
      (grype : GrypeReport) (cve : String),
      (∀ m ∈ grype.matches, m.vulnerability.id = cve → m.artifact.purl = some p) →
      cve ∉ (computePresenceVex sboms alreadyTriaged productPurl statementTimestamp grype).map
        (·.vulnerability.name)
  alone : ∀ sbom ∈ sboms, ¬ Blanket [sbom]
  together : ¬ Blanket sboms

/-- Only purls that are not empty stand in the way of a blanket dismissal. -/
theorem blanket_iff {sboms : List Sbom} : Blanket sboms ↔ ∀ p ∈ sbomPurls sboms, p = "" := by
  constructor
  · intro h p hp
    by_contra hne
    let m : GrypeMatch := { vulnerability := { id := "CVE" }, artifact := { purl := some p } }
    have hmem := h ∅ "" "" { «matches» := [m] } m (List.mem_singleton.mpr rfl)
      (Finset.notMem_empty _) p rfl hne
    refine never_dismissed_iff.mpr (fun _ => hp) ∅ "" "" { «matches» := [m] } "CVE" ?_ hmem
    intro m' hm' _
    rw [List.mem_singleton.mp hm']
  · intro h alreadyTriaged productPurl statementTimestamp grype m hm htri p hp hne
    rw [mem_computePresenceVex_names]
    exact ⟨htri, m, hm, rfl, notPresent_iff.mpr ⟨p, hp, hne, fun hmem => hne (h p hmem)⟩⟩

/-- What one of several SBOMs has, they have. -/
theorem sbomPurls_subset {sboms : List Sbom} {sbom : Sbom} (hs : sbom ∈ sboms) {p : String}
    (hp : p ∈ sbomPurls [sbom]) : p ∈ sbomPurls sboms := by
  obtain ⟨s, hmem, hc⟩ := mem_sbomPurls.mp hp
  obtain rfl := List.mem_singleton.mp hmem
  exact mem_sbomPurls.mpr ⟨s, hs, hc⟩

/-- All of it comes down to a purl that is not empty, in each of the SBOMs. -/
theorem informative_iff {sboms : List Sbom} (hne : sboms ≠ []) :
    Informative sboms ↔ ∀ sbom ∈ sboms, ∃ p ∈ sbomPurls [sbom], p ≠ "" := by
  constructor
  · intro h sbom hs
    obtain ⟨p, hp, hpne, -⟩ := h.contributes sbom hs
    exact ⟨p, hp, hpne⟩
  · intro h
    refine ⟨?_, ?_, ?_⟩
    · intro sbom hs
      obtain ⟨p, hp, hpne⟩ := h sbom hs
      exact ⟨p, hp, hpne, never_dismissed_iff.mpr fun _ => sbomPurls_subset hs hp⟩
    · intro sbom hs hblanket
      obtain ⟨p, hp, hpne⟩ := h sbom hs
      exact hpne (blanket_iff.mp hblanket p hp)
    · intro hblanket
      obtain ⟨sbom, hs⟩ := List.exists_mem_of_ne_nil sboms hne
      obtain ⟨p, hp, hpne⟩ := h sbom hs
      exact hpne (blanket_iff.mp hblanket p (sbomPurls_subset hs hp))

section Identifying

variable {R : Runtime} {fs : FileSystem} {path : Path} {sbom : Sbom} {doc : Json}

theorem Identifies.purl (h : Identifies doc) (hl : loadSbomFromPath R fs path = .ok sbom)
    (hdoc : DocumentAt R fs path doc) : ∃ p ∈ sbomPurls [sbom], p ≠ "" := by
  obtain ⟨c, p, hc, hp, hne⟩ := h
  exact ⟨p, mem_sbomPurls_of_child hl hdoc hc hp, hne⟩

/-- The other way round the components have to be objects: serde takes a struct from an array too. -/
theorem identifies_of_purl (hl : loadSbomFromPath R fs path = .ok sbom)
    (hdoc : DocumentAt R fs path doc) (hshape : CycloneDx doc)
    (h : ∃ p ∈ sbomPurls [sbom], p ≠ "") : Identifies doc := by
  obtain ⟨p, hp, hne⟩ := h
  obtain ⟨hdec, c₀, cs, hcs⟩ := loadSbomFromPath_doc hl hdoc
  obtain ⟨s, hs, hc⟩ := mem_sbomPurls.mp hp
  obtain rfl := List.mem_singleton.mp hs
  rw [hcs, Option.getD_some] at hc
  obtain ⟨c, hchild, hpurl⟩ := (Decode.sbom_purls hdec hshape hcs).mp hc
  exact ⟨c, p, hchild, hpurl, hne⟩

end Identifying

/-- **When accepted SBOMs say something.** Of SBOMs that `load_sbom_from_path` accepts, each has a
package of its own to spare and none is a blanket dismissal, if each document has a top-level
component with a purl that is not empty; of CycloneDX documents, exactly if. The guard does not see to
that. -/
theorem sboms_informative_iff (R : Runtime) (fs : FileSystem) (paths : List Path)
    (sboms : List Sbom) (doc : Path → Json) (hne : paths ≠ []) (hload : Loaded R fs paths sboms)
    (hdoc : ∀ path ∈ paths, DocumentAt R fs path (doc path)) :
    ((∀ path ∈ paths, Identifies (doc path)) → Informative sboms) ∧
      ((∀ path ∈ paths, CycloneDx (doc path)) →
        (Informative sboms ↔ ∀ path ∈ paths, Identifies (doc path))) := by
  have hsome : sboms ≠ [] := by
    rintro rfl
    exact hne (List.forall₂_nil_right_iff.mp hload)
  have hinformative : (∀ path ∈ paths, Identifies (doc path)) → Informative sboms := by
    intro h
    refine (informative_iff hsome).mpr fun sbom hs => ?_
    obtain ⟨path, hpath, hl⟩ := Json.forall₂_exists_left hload hs
    exact (h path hpath).purl hl (hdoc path hpath)
  refine ⟨hinformative, fun hshape => ⟨fun h path hpath => ?_, hinformative⟩⟩
  obtain ⟨sbom, hs, hl⟩ := Json.forall₂_exists_right hload hpath
  exact identifies_of_purl hl (hdoc path hpath) (hshape path hpath) ((informative_iff hsome).mp h sbom hs)

/-- One component, without a purl. -/
def purllessDoc : Json :=
  .obj [(some "components", .arr [.obj [(some "name", .str (some "debian"))]])]

def purllessText : String := "\x7b\"components\":[\x7b\"name\":\"debian\"\x7d]\x7d"

/-- It is accepted, contributes nothing, and dismisses the finding it knows nothing about, as it
would any other. -/
theorem purlless_sbom_accepted :
    ∃ sbom, loadSbomFromPath (Runtime.ofTexts [(purllessText, purllessDoc)]) (sbomFile purllessText)
        (Path.ofString "sbom.json") = .ok sbom ∧ sbomPurls [sbom] = ∅ ∧ Blanket [sbom] ∧
      "CVE-1" ∈ (computePresenceVex [sbom] ∅ "pkg:oci/sceau" "t"
        { «matches» := [⟨⟨"CVE-1"⟩, ⟨some "pkg:deb/debian/zlib1g"⟩⟩] }).map
          (·.vulnerability.name) := by
  have hnone : sbomPurls [{ components := some [{ purl := none }] }] = ∅ := by decide +kernel
  refine ⟨{ components := some [{ purl := none }] }, by decide +kernel, hnone, ?_, by decide +kernel⟩
  rw [blanket_iff, hnone]
  simp

/-- Two files: the SBOM with a package at the top, after it another. -/
def sbomFiles (text : String) : FileSystem :=
  FileSystem.ofFiles [(Path.ofString "a.json", utf8 flattenedText), (Path.ofString "b.json", utf8 text)] []

def sbomRuntime : Runtime :=
  Runtime.ofTexts [(flattenedText, flattenedDoc), (nestedText, nestedDoc), (purllessText, purllessDoc)]

/-- Beside an SBOM with a package, one with another is informative, and one without is not. -/
theorem sboms_informative_beside :
    Informative [{ components := some [{ purl := some "pkg:deb/debian/base" },
        { purl := some "pkg:deb/debian/zlib1g" }] },
        { components := some [{ purl := some "pkg:deb/debian/base" }] }] ∧
      ¬ Informative [{ components := some [{ purl := some "pkg:deb/debian/base" },
        { purl := some "pkg:deb/debian/zlib1g" }] }, { components := some [{ purl := none }] }] := by
  have hsizes : ([(flattenedText, flattenedDoc), (nestedText, nestedDoc),
      (purllessText, purllessDoc)].map fun x => x.1.utf8ByteSize).Nodup := by decide +kernel
  have hflat : CycloneDx flattenedDoc := by
    refine ⟨⟨_, rfl⟩, ?_⟩
    simp [Child, Json.Has, flattenedDoc, base, zlib]
  have key : ∀ {text : String} {d : Json} {sbom : Sbom}, (text, d) ∈ [(flattenedText, flattenedDoc),
        (nestedText, nestedDoc), (purllessText, purllessDoc)] → CycloneDx d →
      Loaded sbomRuntime (sbomFiles text) [Path.ofString "a.json", Path.ofString "b.json"]
        [{ components := some [{ purl := some "pkg:deb/debian/base" },
          { purl := some "pkg:deb/debian/zlib1g" }] }, sbom] →
      (Informative [{ components := some [{ purl := some "pkg:deb/debian/base" },
        { purl := some "pkg:deb/debian/zlib1g" }] }, sbom] ↔ Identifies flattenedDoc ∧ Identifies d) := by
    intro text d sbom hmem hd hload
    have hab : Path.ofString "b.json" ≠ Path.ofString "a.json" := by decide
    rw [(sboms_informative_iff sbomRuntime (sbomFiles text) _ _
      (fun path => if path = Path.ofString "a.json" then flattenedDoc else d) (by simp) hload ?_).2]
    · simp [hab]
    · simp only [List.mem_cons, List.not_mem_nil, or_false, forall_eq_or_imp, forall_eq, if_true,
        if_neg hab]
      exact ⟨hflat, hd⟩
    · simp only [List.mem_cons, List.not_mem_nil, or_false, forall_eq_or_imp, forall_eq, if_true,
        if_neg hab]
      exact ⟨⟨_, rfl, Runtime.ofTexts_parse hsizes (.head _)⟩, _, rfl, Runtime.ofTexts_parse hsizes hmem⟩
  have hnested : Child nestedDoc base := ⟨[base], ⟨_, rfl, .tail _ (.head _)⟩, .head _⟩
  have hbase : Child flattenedDoc base := ⟨[base, zlib], ⟨_, rfl, .head _⟩, .head _⟩
  constructor
  · refine (key (.tail _ (.head _)) ⟨⟨_, rfl⟩, ?_⟩ (.cons (by decide +kernel)
      (.cons (by decide +kernel) .nil))).mpr
      ⟨⟨base, _, hbase, ⟨_, rfl, .head _⟩, by decide⟩, base, _, hnested, ⟨_, rfl, .head _⟩, by decide⟩
    simp [Child, Json.Has, nestedDoc, base]
  · rw [key (.tail _ (.tail _ (.head _))) ⟨⟨_, rfl⟩, ?_⟩ (.cons (by decide +kernel)
      (.cons (by decide +kernel) .nil))]
    · simp [Identifies, Child, HasPurl, Json.Has, purllessDoc]
    · simp [Child, Json.Has, purllessDoc]

end Sceau.Vex
