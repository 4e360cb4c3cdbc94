import Sceau.Vex.Triage

/-!
# A run on its own output

The document a run renders is itself an OpenVEX document with a statement for every id it emits. So
once it is stored among the statement files the ids are triaged, and the next run has nothing left to
say. Two things have to fit for that: the strict parser of `Document` with what the derived
serializer writes, field by field, and the ids the loader collects with those the computation skips.

A third is not the tool's to decide. The loader reads no file over the cap, and nothing bounds what
the tool writes: a document over the cap fails the next run.
-/

set_option autoImplicit false

namespace Sceau.Vex

open Lib

/-! ## Reading back what is written -/

section ReadBack

attribute [local simp] Json.fields Json.values Json.requiredField Json.optionField

@[simp] theorem string_encode (s : String) : Json.string (Encode.string s) = some s := rfl

@[simp] theorem option_encode (s : String) :
    Json.option Json.string (Encode.string s) = some (some s) := rfl

@[simp] theorem vuln_encode (v : Vuln) :
    Decode.vuln (.obj [(some "name", Encode.string v.name)]) = some v := rfl

theorem product_encode (p : Product) :
    Decode.product (.obj [(some "@id", Encode.string p.id)]) = some p := rfl

theorem seq_encode {α : Type} {d : Json.Decoder α} {encode : α → Json}
    (h : ∀ a, d (encode a) = some a) (xs : List α) :
    Json.seq d (.arr (xs.map encode)) = some xs := by
  refine Json.seq_eq_some_iff.mpr ⟨_, rfl, ?_⟩
  rw [List.forall₂_map_left_iff]
  exact List.forall₂_same.mpr fun a _ => h a

/-- The optional fields may be there or not. -/
theorem statement_encode (st : Statement) : Decode.statement (Encode.statement st) = some st := by
  obtain ⟨v, ps, s, justification, impactStatement, ts⟩ := st
  have hproducts := seq_encode product_encode ps
  cases justification with
  | none =>
    cases impactStatement with
    | none => simp [Decode.statement, Encode.statement, Encode.optionField, hproducts]
    | some i => simp [Decode.statement, Encode.statement, Encode.optionField, hproducts]
  | some j =>
    cases impactStatement with
    | none => simp [Decode.statement, Encode.statement, Encode.optionField, hproducts]
    | some i => simp [Decode.statement, Encode.statement, Encode.optionField, hproducts]

/-- **The parser accepts what the serializer writes**, and gets it back. -/
theorem document_encode (doc : Document) (h : doc.version < 2 ^ 32) :
    Decode.document (Encode.document doc) = some doc := by
  have hstatements := seq_encode statement_encode doc.statements
  -- the bound as `simp` writes it
  have hversion : Json.nat 4294967296 (.num (some doc.version)) = some doc.version := if_pos h
  simp [Decode.document, Encode.document, hstatements, hversion]

end ReadBack

/-! ## One more file -/

/-- A file of this content has been stored in the directory, which need not have been there. The
files it had are as they were, and it may be listed in another order. -/
structure Stored (fs fs' : FileSystem) (vexDir : Path) (entries : List (Except IoError FileName))
    (name : FileName) (bytes : List UInt8) : Prop where
  before : Entries fs vexDir entries
  after : ∃ entries', fs'.readDir vexDir = .ok entries' ∧ entries'.Perm (.ok name :: entries)
  content : fs'.file (vexDir.join name.bytes) = .ok { bytes := bytes }
  kept : ∀ old, .ok old ∈ entries →
    fs'.file (vexDir.join old.bytes) = fs.file (vexDir.join old.bytes)

section OneMore

variable {R : Runtime} {fs fs' : FileSystem} {vexDir : Path} {name : FileName} {bytes : List UInt8}
  {entries : List (Except IoError FileName)}

theorem States.of_file {old : FileName} {cve : String}
    (hfile : fs'.file (vexDir.join old.bytes) = fs.file (vexDir.join old.bytes))
    (h : States R fs vexDir old cve) : States R fs' vexDir old cve := by
  obtain ⟨hel, doc, hdoc, hst⟩ := h
  exact ⟨hel, doc, hdoc.of_file hfile, hst⟩

theorem Passes.of_file {old : FileName}
    (hfile : fs'.file (vexDir.join old.bytes) = fs.file (vexDir.join old.bytes))
    (h : Passes R fs vexDir (.ok old)) : Passes R fs' vexDir (.ok old) := by
  obtain ⟨_, ⟨rfl⟩, hdoc⟩ := h
  refine ⟨old, rfl, fun hel => ?_⟩
  obtain ⟨doc, hdoc⟩ := hdoc hel
  exact ⟨doc, hdoc.of_file hfile⟩

/-- A statement file more that is in order: its ids are triaged, and those that were stay so. -/
theorem Stored.loads (hst : Stored fs fs' vexDir entries name bytes) (hname : name.IsStatement)
    {triaged : Finset String} (htri : loadTriagedFromVexDir R fs vexDir = .ok triaged)
    {doc : Document} (hdoc : Holds R fs' Decode.document (vexDir.join name.bytes) doc) :
    loadTriagedFromVexDir R fs' vexDir =
      .ok (triaged ∪ (doc.statements.map (·.vulnerability.name)).toFinset) := by
  obtain ⟨entries', hdir', hperm⟩ := hst.after
  obtain ⟨entries₀, hent, hall, hmem⟩ := loadTriagedFromVexDir_eq_ok_iff.mp htri
  obtain rfl := hent.unique hst.before
  refine loadTriagedFromVexDir_eq_ok_iff.mpr ⟨entries', .inl hdir', ?_, ?_⟩
  · intro entry hentry
    rcases List.mem_cons.mp (hperm.mem_iff.mp hentry) with rfl | hold
    · exact ⟨name, rfl, fun _ => ⟨doc, hdoc⟩⟩
    · obtain ⟨old, rfl, hdoc'⟩ := hall entry hold
      exact Passes.of_file (hst.kept old hold) ⟨old, rfl, hdoc'⟩
  · intro cve
    simp only [Finset.mem_union, List.mem_toFinset, List.mem_map, hmem]
    constructor
    · rintro (⟨old, hold, hstates⟩ | hcve)
      · exact ⟨old, hperm.mem_iff.mpr (List.mem_cons_of_mem _ hold),
          hstates.of_file (hst.kept old hold)⟩
      · exact ⟨name, hperm.mem_iff.mpr List.mem_cons_self, hname.eligible vexDir, doc, hdoc, hcve⟩
    · rintro ⟨found, hfound, hstates⟩
      rcases List.mem_cons.mp (hperm.mem_iff.mp hfound) with heq | hold
      · obtain rfl := Except.ok.inj heq
        obtain ⟨-, doc', hdoc', hcve⟩ := hstates
        rw [hdoc.unique hdoc']
        exact .inr hcve
      · exact .inl ⟨found, hold, hstates.of_file (hst.kept found hold).symm⟩

/-- A statement file more that is bad. -/
theorem Stored.rejects (hst : Stored fs fs' vexDir entries name bytes) (hname : name.IsStatement)
    (hbad : BadFile R fs' Decode.document (vexDir.join name.bytes)) :
    ∃ e, loadTriagedFromVexDir R fs' vexDir = .error e := by
  obtain ⟨entries', hdir', hperm⟩ := hst.after
  have hmem : .ok name ∈ entries' := hperm.mem_iff.mpr List.mem_cons_self
  rw [exists_error_iff]
  intro triaged hload
  exact (triaged_loads_iff.mp ⟨triaged, hload⟩).2 entries' _ hdir' hmem
    (hname.eligible vexDir) hbad

end OneMore

/-! ## The run and the next one -/

/-- With the ids it has emitted triaged, the computation emits nothing. -/
theorem computePresenceVex_again (sboms : List Sbom) (triaged : Finset String)
    (productPurl ts productPurl' ts' : String) (grype : GrypeReport) :
    computePresenceVex sboms (triaged ∪ ((computePresenceVex sboms triaged productPurl ts grype).map
      (·.vulnerability.name)).toFinset) productPurl' ts' grype = [] := by
  rw [List.eq_nil_iff_forall_not_mem]
  intro st hst
  obtain ⟨cve, ⟨hnew, hmatch⟩, -⟩ := mem_computePresenceVex.mp hst
  rw [Finset.mem_union, not_or, List.mem_toFinset, mem_computePresenceVex_names] at hnew
  exact hnew.2 ⟨hnew.1, hmatch⟩

/-- The document of a run. -/
def renderedDocument (cli : Cli) (grype : GrypeReport) (sboms : List Sbom) (triaged : Finset String)
    (ts : String) : Document :=
  buildDocument (computePresenceVex sboms triaged cli.productPurl ts grype) cli.id cli.author ts

/-- The text the binary writes for the document is parsed to what was serialized. -/
def Runtime.ReadsBack (R : Runtime) (doc : Document) : Prop :=
  R.parse (utf8 (R.render (Encode.document doc) ++ "\n")) = some (Encode.document doc)

/-- The directory loads to these ids, and a run on it with this report and these SBOMs delivers a
document without statements. -/
structure Absorbed (R : Runtime) (fs : FileSystem) (vexDir : Path) (grype : GrypeReport)
    (sboms : List Sbom) (triaged : Finset String) : Prop where
  loads : loadTriagedFromVexDir R fs vexDir = .ok triaged
  silent : ∀ env cli w ts, w.files = fs → cli.vexDir = vexDir →
    Holds R fs Decode.grypeReport cli.grypeJson grype → Loaded R fs cli.sbom sboms →
    timestampOf env cli = .ok ts →
    Delivered env cli w (R.render (Encode.document (buildDocument [] cli.id cli.author ts)) ++ "\n")
      ((run R env cli).run.run w)

/-- The directory does not load, and no run gets past it. -/
structure Rejected (R : Runtime) (fs : FileSystem) (vexDir : Path) : Prop where
  fails : ∃ e, loadTriagedFromVexDir R fs vexDir = .error e
  closed : ∀ env cli w, w.files = fs → cli.vexDir = vexDir →
    ∃ e, (run R env cli).run.run w = (.error e, w)

theorem Rejected.of_fails {R : Runtime} {fs : FileSystem} {vexDir : Path}
    (h : ∃ e, loadTriagedFromVexDir R fs vexDir = .error e) : Rejected R fs vexDir where
  fails := h
  closed := by
    rintro env cli w rfl rfl
    rcases run_cases R env cli w with ⟨grype, sboms, triaged, ts, -, -, htri, -⟩ | ⟨-, hclosed⟩
    · exact absurd htri (exists_error_iff.mp h triaged)
    · exact hclosed

/-- **A run on its own output.** The document of a run that succeeds, stored under any name of a
statement file in the directory the run has read, is accepted there if it is within the cap: the
directory then loads to what was triaged and the ids emitted, and the next run on the same report
and SBOMs has nothing to say. Over the cap it fails the loader, and every run. -/
theorem generated_document_absorbed (R : Runtime) (env : Surroundings) (cli : Cli) (w : World)
    (hrun : ((run R env cli).run.run w).1 = .ok ()) :
    ∃ grype sboms triaged ts, Holds R w.files Decode.grypeReport cli.grypeJson grype ∧
      Loaded R w.files cli.sbom sboms ∧
      loadTriagedFromVexDir R w.files cli.vexDir = .ok triaged ∧ timestampOf env cli = .ok ts ∧
      Delivered env cli w (renderedText R cli grype sboms triaged ts) ((run R env cli).run.run w) ∧
      ∀ fs' entries name, name.IsStatement →
        Stored w.files fs' cli.vexDir entries name
          (utf8 (renderedText R cli grype sboms triaged ts)) →
        R.ReadsBack (renderedDocument cli grype sboms triaged ts) →
        ((utf8 (renderedText R cli grype sboms triaged ts)).length ≤ maxInputFileBytes →
          Absorbed R fs' cli.vexDir grype sboms
            (triaged ∪ ((computePresenceVex sboms triaged cli.productPurl ts grype).map
              (·.vulnerability.name)).toFinset)) ∧
        (maxInputFileBytes < (utf8 (renderedText R cli grype sboms triaged ts)).length →
          Rejected R fs' cli.vexDir) := by
  rcases run_cases R env cli w with
    ⟨grype, sboms, triaged, ts, hgrype, hload, htri, hts, hdel⟩ | ⟨-, e, he⟩
  · refine ⟨grype, sboms, triaged, ts, hgrype, hload, htri, hts, hdel, ?_⟩
    intro fs' entries name hname hst hback
    have hread := FileSystem.read_eq_ok_iff.mpr hst.content
    constructor
    · intro hle
      have hdoc : Holds R fs' Decode.document (cli.vexDir.join name.bytes)
          (renderedDocument cli grype sboms triaged ts) :=
        ⟨_, _, hread, hle, hback, document_encode _ (show openvexVersion < 2 ^ 32 by decide)⟩
      have hloads : loadTriagedFromVexDir R fs' cli.vexDir =
          .ok (triaged ∪ ((computePresenceVex sboms triaged cli.productPurl ts grype).map
            (·.vulnerability.name)).toFinset) := hst.loads hname htri hdoc
      refine ⟨hloads, ?_⟩
      rintro env' cli' w' ts' rfl hvex hgrype' hload' hts'
      rw [← hvex] at hloads
      have hdel' := run_delivers hgrype' hload' hloads hts'
      rwa [renderedText, computePresenceVex_again] at hdel'
    · intro hlt
      exact .of_fails (hst.rejects hname (.inr ⟨_, hread, .inl hlt⟩))
  · rw [he] at hrun
    cases hrun

/-! ## A report with one finding -/

section Finding

variable (cve : String)

def findingCli : Cli where
  grypeJson := Path.ofString "grype.json"
  sbom := [Path.ofString "sbom.json"]
  vexDir := Path.ofString ".vex"
  productPurl := "pkg:oci/sceau"
  id := "id"

/-- The document the run on it renders, its one statement written out. -/
def findingDocument : Document :=
  buildDocument [presenceStatement "pkg:oci/sceau" "t" cve] "id" "auto-vex-presence" "t"

def findingDocumentText : String := Json.pretty 0 (Encode.document (findingDocument cve)) ++ "\n"

/-- A parser of these three texts. -/
def findingRuntime : Runtime :=
  Runtime.ofTexts [(findingText cve, findingTree cve), (baseText, baseTree),
    (findingDocumentText cve, Encode.document (findingDocument cve))]

def autoJson : FileName := { bytes := Path.ofString "auto.json" }

/-- The files before, and with the document stored. -/
def findingFiles : FileSystem :=
  FileSystem.ofFiles
    [(Path.ofString "grype.json", utf8 (findingText cve)), (Path.ofString "sbom.json", utf8 baseText)]
    [(Path.ofString ".vex", [])]

def findingFilesAfter : FileSystem :=
  FileSystem.ofFiles
    [(Path.ofString "grype.json", utf8 (findingText cve)), (Path.ofString "sbom.json", utf8 baseText),
      (Path.ofString ".vex/auto.json", utf8 (findingDocumentText cve))]
    [(Path.ofString ".vex", [autoJson])]

/-- The finding is dismissed: nothing is triaged, and the SBOM does not have its package. -/
theorem finding_rendered :
    renderedDocument findingCli (finding cve) [baseSbom] ∅ "t" = findingDocument cve ∧
      renderedText (findingRuntime cve) findingCli (finding cve) [baseSbom] ∅ "t" =
        findingDocumentText cve := ⟨rfl, rfl⟩

/-- The report has 85 bytes around the id. -/
theorem size_findingText : (findingText cve).utf8ByteSize = 85 + cve.utf8ByteSize := by
  have haround : (findingText "").utf8ByteSize = 85 := by decide +kernel
  have hmiddle : ∀ before after : String, (before ++ cve ++ after).utf8ByteSize =
      (before ++ "" ++ after).utf8ByteSize + cve.utf8ByteSize := by
    intro before after
    simp only [String.utf8ByteSize_append, String.utf8ByteSize_empty]
    omega
  rw [← haround]
  exact hmiddle _ _

/-- The document has the impact statement besides. -/
theorem size_findingDocumentText :
    cve.utf8ByteSize + 150 < (findingDocumentText cve).utf8ByteSize := by
  have himpact : 150 < autoImpactStatement.utf8ByteSize := by decide +kernel
  have hstrings : cve.utf8ByteSize + 150 < Json.strings (Encode.document (findingDocument cve)) := by
    simp only [Encode.document, findingDocument, buildDocument, presenceStatement, Encode.statement,
      Encode.string, Encode.optionField, Json.strings, Json.memberStrings, Json.fieldStrings,
      Json.elementStrings, List.map_cons, List.map_nil, Option.toList_some, List.cons_append,
      List.nil_append, Option.map_some, Option.getD_some]
    omega
  have hle := Json.strings_le_pretty 0 (Encode.document (findingDocument cve))
  rw [findingDocumentText, String.utf8ByteSize_append]
  omega

/-- Each of the three texts has its own tree. -/
theorem finding_parses :
    (findingRuntime cve).parse (utf8 (findingText cve)) = some (findingTree cve) ∧
      (findingRuntime cve).parse (utf8 baseText) = some baseTree ∧
      (findingRuntime cve).parse (utf8 (findingDocumentText cve)) =
        some (Encode.document (findingDocument cve)) := by
  have hfinding := size_findingText cve
  have hdoc := size_findingDocumentText cve
  have hbase : baseText.utf8ByteSize < 85 := by decide +kernel
  have hsizes : ([(findingText cve, findingTree cve), (baseText, baseTree),
      (findingDocumentText cve, Encode.document (findingDocument cve))].map
        fun x => x.1.utf8ByteSize).Nodup := by
    simp only [List.map_cons, List.map_nil, List.nodup_cons, List.mem_cons, List.not_mem_nil,
      List.nodup_nil, or_false, not_or, and_true, not_false_eq_true]
    omega
  refine ⟨?_, ?_, ?_⟩
  · exact Runtime.ofTexts_parse hsizes (.head _)
  · exact Runtime.ofTexts_parse hsizes (.tail _ (.head _))
  · exact Runtime.ofTexts_parse hsizes (.tail _ (.tail _ (.head _)))

/-- The report and the SBOM load wherever they are, the report being within the cap. -/
theorem finding_loads {fs : FileSystem}
    (hle : (findingText cve).utf8ByteSize ≤ maxInputFileBytes)
    (hgrype : fs.file findingCli.grypeJson = .ok { bytes := utf8 (findingText cve) })
    (hsbom : fs.file (Path.ofString "sbom.json") = .ok { bytes := utf8 baseText }) :
    Holds (findingRuntime cve) fs Decode.grypeReport findingCli.grypeJson (finding cve) ∧
      Loaded (findingRuntime cve) fs findingCli.sbom [baseSbom] := by
  obtain ⟨hfinding, hbase, -⟩ := finding_parses cve
  constructor
  · exact ⟨_, findingTree cve, FileSystem.read_eq_ok_iff.mpr hgrype, hle, hfinding, rfl⟩
  · have hholds : Holds (findingRuntime cve) fs Decode.sbom (Path.ofString "sbom.json") baseSbom :=
      ⟨_, baseTree, FileSystem.read_eq_ok_iff.mpr hsbom, by decide +kernel, hbase, rfl⟩
    exact .cons (loadSbomFromPath_eq_ok_iff.mpr ⟨hholds, _, _, rfl⟩) .nil

theorem finding_stored :
    Stored (findingFiles cve) (findingFilesAfter cve) findingCli.vexDir [] autoJson
      (utf8 (findingDocumentText cve)) where
  before := .inl rfl
  after := ⟨_, rfl, .refl _⟩
  content := rfl
  kept := by
    intro old hold
    cases hold

theorem finding_succeeds (hle : (findingText cve).utf8ByteSize ≤ maxInputFileBytes) :
    ((run (findingRuntime cve) demoSurroundings findingCli).run.run
      { files := findingFiles cve }).1 = .ok () := by
  obtain ⟨hgrype, hload⟩ := @finding_loads cve (findingFiles cve) hle rfl rfl
  have hdel := @run_delivers (findingRuntime cve) demoSurroundings findingCli
    { files := findingFiles cve } _ _ ∅ "t" hgrype hload rfl rfl
  exact (hdel.printed rfl).1

end Finding

/-- An id of that many characters. -/
def longId (n : Nat) : String := String.ofList (List.replicate n 'A')

theorem size_longId (n : Nat) : (longId n).utf8ByteSize = n := by
  induction n with
  | zero => rfl
  | succ n ih =>
    rw [longId, List.replicate_succ, String.ofList_cons, String.utf8ByteSize_append, ← longId, ih]
    exact Nat.add_comm 1 n

/-- The report is 65 bytes short of the cap, and its one finding has a long id. The run succeeds, and
the document it prints fails the loader once it is stored. -/
theorem oversized_document_rejected :
    let cve := longId (maxInputFileBytes - 150)
    ((run (findingRuntime cve) demoSurroundings findingCli).run.run
        { files := findingFiles cve }).1 = .ok () ∧
      autoJson.IsStatement ∧
      Stored (findingFiles cve) (findingFilesAfter cve) findingCli.vexDir [] autoJson
        (utf8 (renderedText (findingRuntime cve) findingCli (finding cve) [baseSbom] ∅ "t")) ∧
      (findingRuntime cve).ReadsBack (renderedDocument findingCli (finding cve) [baseSbom] ∅ "t") ∧
      ∃ e, loadTriagedFromVexDir (findingRuntime cve) (findingFilesAfter cve) findingCli.vexDir =
        .error e := by
  intro cve
  have hsize : cve.utf8ByteSize = maxInputFileBytes - 150 := size_longId _
  -- from here on only its size counts
  clear_value cve
  have hcap : 150 ≤ maxInputFileBytes := by decide
  have hreport := size_findingText cve
  have hdoc := size_findingDocumentText cve
  have hname : autoJson.IsStatement := by decide
  have hstored := finding_stored cve
  obtain ⟨hrendered, htext⟩ := finding_rendered cve
  rw [hrendered, htext]
  refine ⟨finding_succeeds cve (by omega), hname, hstored, (finding_parses cve).2.2, ?_⟩
  apply hstored.rejects hname
  refine .inr ⟨_, FileSystem.read_eq_ok_iff.mpr hstored.content, .inl ?_⟩
  rw [length_utf8]
  omega

/-- With a short id the document is absorbed, and the next run prints one without statements. -/
theorem generated_document_absorbed_finding :
    Absorbed (findingRuntime "CVE-1") (findingFilesAfter "CVE-1") findingCli.vexDir (finding "CVE-1")
        [baseSbom] {"CVE-1"} ∧
      Delivered demoSurroundings findingCli { files := findingFilesAfter "CVE-1" }
        (Json.pretty 0 (Encode.document (buildDocument [] "id" "auto-vex-presence" "t")) ++ "\n")
        ((run (findingRuntime "CVE-1") demoSurroundings findingCli).run.run
          { files := findingFilesAfter "CVE-1" }) := by
  have hle : (findingText "CVE-1").utf8ByteSize ≤ maxInputFileBytes := by decide +kernel
  have hsmall : (findingDocumentText "CVE-1").utf8ByteSize ≤ maxInputFileBytes := by decide +kernel
  obtain ⟨hgrype, hload⟩ := @finding_loads "CVE-1" (findingFiles "CVE-1") hle rfl rfl
  obtain ⟨hgrypeAfter, hloadAfter⟩ := @finding_loads "CVE-1" (findingFilesAfter "CVE-1") hle rfl rfl
  obtain ⟨grype, sboms, triaged, ts, hgrype', hload', htri, hts, -, habsorbed⟩ :=
    generated_document_absorbed (findingRuntime "CVE-1") demoSurroundings findingCli
      { files := findingFiles "CVE-1" } (finding_succeeds "CVE-1" hle)
  obtain rfl := hgrype.unique hgrype'
  obtain rfl := hload.unique hload'
  obtain rfl : ∅ = triaged := Except.ok.inj htri
  obtain rfl : "t" = ts := Except.ok.inj hts
  obtain ⟨hrendered, htext⟩ := finding_rendered "CVE-1"
  rw [hrendered, htext] at habsorbed
  have habs := (habsorbed _ [] autoJson (by decide) (finding_stored "CVE-1")
    (finding_parses "CVE-1").2.2).1 hsmall
  exact ⟨habs, habs.silent _ _ _ _ rfl rfl hgrypeAfter hloadAfter rfl⟩

end Sceau.Vex
