import Sceau.Vex.Fixpoint

/-!
# Round after round

The tool in use: it is run again and again, on new reports and new SBOMs, and the document of each run
is stored in the directory the next one reads. A round is one such run. What a round emits is decided
by the rounds before it, so the rounds are read from the first on, the ids triaged so far being the
invariant.

Each id is emitted once, by the first round that finds a package of it absent; no round takes a
dismissal back, whatever its own SBOMs have. Over the same SBOMs the rounds together say what one run
on all their reports would have.
-/

set_option autoImplicit false

namespace Sceau.Vex

open Lib

/-! ## One round -/

/-- The report and the SBOMs a round is run on, and the ids of the document it has stored. -/
structure Round where
  grype : GrypeReport
  sboms : List Sbom
  emitted : List String

/-- Some match of the id is of a package that the round's SBOMs do not have. -/
def Round.Finds (r : Round) (cve : String) : Prop :=
  ∃ m ∈ r.grype.matches, m.vulnerability.id = cve ∧ NotPresent r.sboms m

/-- A run that succeeds, and the text it delivers, stored in the directory it has read under a new
name, where it is read as the document it was rendered from. Outside of the directory everything may
have changed. -/
def Publishes (R : Runtime) (vexDir : Path) (fs : FileSystem) (r : Round) (fs' : FileSystem) : Prop :=
  ∃ env cli w text entries name doc,
    w.files = fs ∧ cli.vexDir = vexDir ∧
    Holds R fs Decode.grypeReport cli.grypeJson r.grype ∧ Loaded R fs cli.sbom r.sboms ∧
    ((run R env cli).run.run w).1 = .ok () ∧ Delivered env cli w text ((run R env cli).run.run w) ∧
    name.IsStatement ∧ Stored fs fs' vexDir entries name (utf8 text) ∧
    Holds R fs' Decode.document (vexDir.join name.bytes) doc ∧
    r.emitted = doc.statements.map (·.vulnerability.name) ∧
    ∀ triaged ts, loadTriagedFromVexDir R fs vexDir = .ok triaged → timestampOf env cli = .ok ts →
      R.ReadsBack (renderedDocument cli r.grype r.sboms triaged ts)

theorem utf8_injective {text text' : String} (h : utf8 text = utf8 text') : text = text' := by
  have hdata : text.toUTF8.data = text'.toUTF8.data := Array.toList_inj.mp h
  exact String.toByteArray_inj.mp (ByteArray.ext hdata)

/-- A run that succeeds delivers one text. -/
theorem Delivered.unique {env : Surroundings} {cli : Cli} {w : World} {text text' : String}
    {fin : Except String Unit × World} (h : Delivered env cli w text fin)
    (h' : Delivered env cli w text' fin) (hok : fin.1 = .ok ()) : text = text' := by
  cases hout : cli.output with
  | none =>
    have hprinted := (h.printed hout).2.1.symm.trans (h'.printed hout).2.1
    simpa using hprinted
  | some path =>
    cases hwrite : env.writeFails path with
    | some failure =>
      obtain ⟨e, left⟩ := failure
      obtain ⟨⟨msg, herr⟩, -⟩ := h.failed path e left hout hwrite
      rw [hok] at herr
      cases herr
    | none =>
      have hfiles := (h.written path hout hwrite).2.1.symm.trans (h'.written path hout hwrite).2.1
      have hfile := congrArg (fun fs : FileSystem => fs.file path) hfiles
      simp only [FileSystem.put] at hfile
      simp only [if_true, Except.ok.injEq, File.mk.injEq] at hfile
      exact utf8_injective hfile.1

variable {R : Runtime} {vexDir : Path} {fs fs' : FileSystem} {triaged : Finset String}

/-- **One round**: it emits, once each, the ids it finds that were not triaged, and they are triaged
from then on. -/
theorem Publishes.triages {r : Round} (h : Publishes R vexDir fs r fs')
    (htri : loadTriagedFromVexDir R fs vexDir = .ok triaged) :
    loadTriagedFromVexDir R fs' vexDir = .ok (triaged ∪ r.emitted.toFinset) ∧ r.emitted.Nodup ∧
      ∀ cve, cve ∈ r.emitted ↔ cve ∉ triaged ∧ r.Finds cve := by
  obtain ⟨env, cli, w, text, entries, name, doc, rfl, rfl, hgrype, hload, hok, hdel, hname, hst, hdoc,
    hemitted, hback⟩ := h
  rcases run_cases R env cli w with
    ⟨grype, sboms, triaged', ts, hgrype', hload', htri', hts, hdel'⟩ | ⟨-, e, he⟩
  · obtain rfl := hgrype.unique hgrype'
    obtain rfl := hload.unique hload'
    obtain rfl := Except.ok.inj (htri.symm.trans htri')
    obtain rfl := hdel.unique hdel' hok
    -- what is stored is read as what was computed
    have hread := FileSystem.read_eq_ok_iff.mpr hst.content
    have hrendered : doc = renderedDocument cli r.grype r.sboms triaged ts := by
      obtain ⟨bytes, j, hbytes, -, hparse, hdec⟩ := hdoc
      obtain rfl := Except.ok.inj (hread.symm.trans hbytes)
      have hparse' := hback triaged ts htri hts
      obtain rfl := Option.some.inj (hparse'.symm.trans hparse)
      rw [document_encode _ (show openvexVersion < 2 ^ 32 by decide)] at hdec
      exact (Option.some.inj hdec).symm
    have hnames : r.emitted = (computePresenceVex r.sboms triaged cli.productPurl ts r.grype).map
        (·.vulnerability.name) := by
      rw [hemitted, hrendered]
      rfl
    refine ⟨?_, ?_, ?_⟩
    · rw [hemitted]
      exact hst.loads hname htri hdoc
    · rw [hnames]
      exact computePresenceVex_names_sorted.imp fun h => ne_of_lt h
    · intro cve
      rw [hnames, mem_computePresenceVex_names]
      exact Iff.rfl
  · rw [he] at hok
    cases hok

/-! ## All rounds -/

/-- Rounds in order, each on what the one before has left. -/
inductive Rounds (R : Runtime) (vexDir : Path) : FileSystem → List Round → FileSystem → Prop
  | nil (fs : FileSystem) : Rounds R vexDir fs [] fs
  | cons {fs fs₁ fs₂ : FileSystem} {r : Round} {rs : List Round} (first : Publishes R vexDir fs r fs₁)
    (rest : Rounds R vexDir fs₁ rs fs₂) : Rounds R vexDir fs (r :: rs) fs₂

/-- What the rounds leave triaged. -/
theorem Rounds.loads {rs : List Round} (h : Rounds R vexDir fs rs fs')
    (htri : loadTriagedFromVexDir R fs vexDir = .ok triaged) :
    ∃ triaged', loadTriagedFromVexDir R fs' vexDir = .ok triaged' ∧
      ∀ cve, cve ∈ triaged' ↔ cve ∈ triaged ∨ ∃ r ∈ rs, r.Finds cve := by
  induction h generalizing triaged with
  | nil fs => exact ⟨triaged, htri, by simp⟩
  | @cons fs fs₁ fs₂ r rs first rest ih =>
    obtain ⟨hload, -, hexact⟩ := first.triages htri
    obtain ⟨triaged', hload', hmem⟩ := ih hload
    refine ⟨triaged', hload', fun cve => ?_⟩
    rw [hmem, Finset.mem_union, List.mem_toFinset, hexact]
    simp only [List.mem_cons, exists_eq_or_imp]
    tauto

/-- The rounds emit no id twice, and none that was triaged. -/
theorem Rounds.nodup {rs : List Round} (h : Rounds R vexDir fs rs fs')
    (htri : loadTriagedFromVexDir R fs vexDir = .ok triaged) :
    (rs.flatMap (·.emitted)).Nodup ∧
      ∀ cve, cve ∈ rs.flatMap (·.emitted) ↔ cve ∉ triaged ∧ ∃ r ∈ rs, r.Finds cve := by
  induction h generalizing triaged with
  | nil fs => exact ⟨List.nodup_nil, by simp⟩
  | @cons fs fs₁ fs₂ r rs first rest ih =>
    obtain ⟨hload, hnodup, hexact⟩ := first.triages htri
    obtain ⟨hrest, hmem⟩ := ih hload
    constructor
    · rw [List.flatMap_cons]
      refine List.Nodup.append hnodup hrest ?_
      intro cve hr hlater
      exact ((hmem cve).mp hlater).1 (Finset.mem_union_right _ (List.mem_toFinset.mpr hr))
    · intro cve
      rw [List.flatMap_cons, List.mem_append, hmem, Finset.mem_union, List.mem_toFinset, hexact]
      simp only [List.mem_cons, exists_eq_or_imp]
      tauto

end Sceau.Vex
