import Sceau.Vex.Run

/-!
# The statement files of a directory

`load_triaged_from_vex_dir` by itself, on directories of regular files: what it is meant to do with
one, and when it does. Meant is a matter of the statement files alone, in any order; done is what the
files it reads make of it, and those are the statement files and the strays. The two come to the same
on a directory without strays, and also where a statement file is bad, for then the loader fails with
or without them. In every other directory some content of a stray makes a difference.
-/

set_option autoImplicit false

namespace Sceau.Vex

open Lib

/-! ## Directories -/

/-- A directory of regular files: these names, listed in this order, each of a file with this
content. -/
structure Directory (fs : FileSystem) (vexDir : Path) (names : List FileName)
    (content : FileName → List UInt8) : Prop where
  listing : fs.readDir vexDir = .ok (names.map .ok)
  regular : ∀ name ∈ names, fs.file (vexDir.join name.bytes) = .ok { bytes := content name }

/-- The file system with this directory and nothing else. -/
def FileSystem.ofDirectory (vexDir : Path) (names : List FileName)
    (content : FileName → List UInt8) : FileSystem :=
  FileSystem.ofFiles (names.map fun name => (vexDir.join name.bytes, content name)) [(vexDir, names)]

/-- What the loader is meant to do with a directory: it fails on a bad statement file and on no
other, otherwise it returns the ids of all the statement files, and neither the order of the listing
nor the content of another file makes a difference to that. -/
structure TriagedExactly (R : Runtime) (fs : FileSystem) (vexDir : Path) (names : List FileName)
    (content : FileName → List UInt8) : Prop where
  fails : (∃ e, loadTriagedFromVexDir R fs vexDir = .error e) ↔
    ∃ name ∈ names, name.IsStatement ∧ BadFile R fs Decode.document (vexDir.join name.bytes)
  found : ∀ triaged, loadTriagedFromVexDir R fs vexDir = .ok triaged → ∀ cve, cve ∈ triaged ↔
    ∃ name ∈ names, name.IsStatement ∧ Mentions R fs (vexDir.join name.bytes) cve
  independent : ∀ fs' names' content', names'.Perm names → Directory fs' vexDir names' content' →
    (∀ name ∈ names, name.IsStatement → content' name = content name) →
    (loadTriagedFromVexDir R fs' vexDir).toOption = (loadTriagedFromVexDir R fs vexDir).toOption

/-! ## What the loader does with one

Both outcomes in terms of the files it reads; from there on `eligible` is not mentioned again. -/

section Directories

variable {R : Runtime} {fs fs' : FileSystem} {vexDir : Path} {names names' : List FileName}
  {content content' : FileName → List UInt8}

/-- What a file holds is a matter of that file. -/
theorem Holds.of_file {α : Type} {decode : Json.Decoder α} {path : Path} {a : α}
    (hfile : fs'.file path = fs.file path) (h : Holds R fs decode path a) :
    Holds R fs' decode path a := by
  obtain ⟨bytes, j, hread, hle, hj, ha⟩ := h
  rw [FileSystem.read_eq_ok_iff, ← hfile] at hread
  exact ⟨bytes, j, FileSystem.read_eq_ok_iff.mpr hread, hle, hj, ha⟩

/-- **What the loader returns**, if it does. -/
theorem Directory.load_eq_ok_iff (hdir : Directory fs vexDir names content)
    {triaged : Finset String} :
    loadTriagedFromVexDir R fs vexDir = .ok triaged ↔
      (∀ name ∈ names, name.IsStatement ∨ name.IsStray →
        ∃ doc, Holds R fs Decode.document (vexDir.join name.bytes) doc) ∧
      ∀ cve, cve ∈ triaged ↔ ∃ name ∈ names, (name.IsStatement ∨ name.IsStray) ∧
        Mentions R fs (vexDir.join name.bytes) cve := by
  have hpass : (∀ entry ∈ names.map Except.ok, Passes R fs vexDir entry) ↔
      ∀ name ∈ names, name.IsStatement ∨ name.IsStray →
        ∃ doc, Holds R fs Decode.document (vexDir.join name.bytes) doc := by
    simp only [List.forall_mem_map, Passes, Except.ok.injEq, exists_eq_left', eligible_join_iff]
  have hstates : ∀ cve, (∃ name, .ok name ∈ names.map (Except.ok (ε := IoError)) ∧
      States R fs vexDir name cve) ↔ ∃ name ∈ names, (name.IsStatement ∨ name.IsStray) ∧
        Mentions R fs (vexDir.join name.bytes) cve := by
    intro cve
    simp only [List.mem_map, Except.ok.injEq, exists_eq_right, States, eligible_join_iff]
  rw [loadTriagedFromVexDir_eq_ok_iff, ← hpass]
  simp only [← hstates]
  constructor
  · rintro ⟨entries, hent, hall, hmem⟩
    obtain rfl := hent.eq_of_ok hdir.listing
    exact ⟨hall, hmem⟩
  · rintro ⟨hall, hmem⟩
    exact ⟨_, .inl hdir.listing, hall, hmem⟩

/-- A file the loader reads that is bad fails it, and nothing else does. -/
theorem Directory.load_error_iff (hdir : Directory fs vexDir names content) :
    (∃ e, loadTriagedFromVexDir R fs vexDir = .error e) ↔
      ∃ name ∈ names, (name.IsStatement ∨ name.IsStray) ∧
        BadFile R fs Decode.document (vexDir.join name.bytes) := by
  have hlist : Listable fs vexDir := ⟨_, .inl hdir.listing, by simp⟩
  have hgood : (∀ entries name, fs.readDir vexDir = .ok entries → .ok name ∈ entries →
      eligible (vexDir.join name.bytes) = true →
        ¬ BadFile R fs Decode.document (vexDir.join name.bytes)) ↔
      ¬ ∃ name ∈ names, eligible (vexDir.join name.bytes) = true ∧
        BadFile R fs Decode.document (vexDir.join name.bytes) := by
    rw [hdir.listing]
    constructor
    · rintro h ⟨name, hname, hel, hbad⟩
      exact h _ name rfl (List.mem_map_of_mem hname) hel hbad
    · rintro h _ name ⟨rfl⟩ hmem hel hbad
      exact h ⟨name, by simpa using hmem, hel, hbad⟩
  rw [exists_error_iff, ← not_exists, triaged_loads_iff, hgood]
  simp only [hlist, true_and, not_not, eligible_join_iff]

/-- Two directories with the same statement files, and no strays: what the one loads to, the other
does. -/
theorem Directory.load_congr (hdir : Directory fs vexDir names content)
    (hdir' : Directory fs' vexDir names' content') (hperm : names'.Perm names)
    (hstray : ∀ name ∈ names, ¬ name.IsStray)
    (hsame : ∀ name ∈ names, name.IsStatement → content' name = content name)
    {triaged : Finset String} (h : loadTriagedFromVexDir R fs vexDir = .ok triaged) :
    loadTriagedFromVexDir R fs' vexDir = .ok triaged := by
  have hfile : ∀ name ∈ names, name.IsStatement ∨ name.IsStray →
      fs'.file (vexDir.join name.bytes) = fs.file (vexDir.join name.bytes) := by
    intro name hname hread
    have hst := hread.resolve_right (hstray name hname)
    rw [hdir.regular name hname, hdir'.regular name (hperm.mem_iff.mpr hname),
      hsame name hname hst]
  obtain ⟨hall, hmem⟩ := hdir.load_eq_ok_iff.mp h
  refine hdir'.load_eq_ok_iff.mpr ⟨?_, ?_⟩
  · intro name hname hread
    have hname := hperm.mem_iff.mp hname
    obtain ⟨doc, hdoc⟩ := hall name hname hread
    exact ⟨doc, hdoc.of_file (hfile name hname hread)⟩
  · intro cve
    rw [hmem]
    constructor
    · rintro ⟨name, hname, hread, doc, hdoc, hst⟩
      exact ⟨name, hperm.mem_iff.mpr hname, hread, doc,
        hdoc.of_file (hfile name hname hread), hst⟩
    · rintro ⟨name, hname, hread, doc, hdoc, hst⟩
      have hname := hperm.mem_iff.mp hname
      exact ⟨name, hname, hread, doc, hdoc.of_file (hfile name hname hread).symm, hst⟩

/-- Without strays the loader does what it is meant to do. -/
theorem Directory.triagedExactly (hdir : Directory fs vexDir names content)
    (hstray : ∀ name ∈ names, ¬ name.IsStray) : TriagedExactly R fs vexDir names content where
  fails := by
    rw [hdir.load_error_iff]
    refine exists_congr fun name => and_congr_right fun hname => and_congr_left fun _ => ?_
    exact or_iff_left (hstray name hname)
  found := by
    intro triaged h cve
    rw [(hdir.load_eq_ok_iff.mp h).2]
    refine exists_congr fun name => and_congr_right fun hname => and_congr_left fun _ => ?_
    exact or_iff_left (hstray name hname)
  independent := by
    intro fs' names' content' hperm hdir' hsame
    have hstray' : ∀ name ∈ names', ¬ name.IsStray :=
      fun name hname => hstray name (hperm.mem_iff.mp hname)
    have hsame' : ∀ name ∈ names', name.IsStatement → content name = content' name :=
      fun name hname hst => (hsame name (hperm.mem_iff.mp hname) hst).symm
    cases h : loadTriagedFromVexDir R fs vexDir with
    | ok triaged => rw [hdir.load_congr hdir' hperm hstray hsame h]
    | error e =>
      cases h' : loadTriagedFromVexDir R fs' vexDir with
      | error e' => rfl
      | ok triaged =>
        rw [hdir'.load_congr hdir hperm.symm hstray' hsame' h'] at h
        cases h

/-- A bad statement file fails the loader, whatever else is in the directory. -/
theorem Directory.triagedExactly_of_bad (hdir : Directory fs vexDir names content)
    (hbad : ∃ name ∈ names, name.IsStatement ∧
      BadFile R fs Decode.document (vexDir.join name.bytes)) :
    TriagedExactly R fs vexDir names content := by
  obtain ⟨name, hname, hst, hfile⟩ := hbad
  have hfails : ∃ e, loadTriagedFromVexDir R fs vexDir = .error e :=
    hdir.load_error_iff.mpr ⟨name, hname, .inl hst, hfile⟩
  obtain ⟨e, he⟩ := hfails
  refine ⟨⟨fun _ => ⟨name, hname, hst, hfile⟩, fun _ => ⟨e, he⟩⟩, ?_, ?_⟩
  · intro triaged h
    rw [he] at h
    cases h
  · intro fs' names' content' hperm hdir' hsame
    -- the file is bad there too
    have hname' := hperm.mem_iff.mpr hname
    have hsamefile : fs.file (vexDir.join name.bytes) = fs'.file (vexDir.join name.bytes) := by
      rw [hdir.regular name hname, hdir'.regular name hname', hsame name hname hst]
    have hfile' : BadFile R fs' Decode.document (vexDir.join name.bytes) :=
      badFile_iff.mpr fun doc hdoc => badFile_iff.mp hfile doc (hdoc.of_file hsamefile)
    obtain ⟨e', he'⟩ := hdir'.load_error_iff.mpr ⟨name, hname', .inl hst, hfile'⟩
    rw [he, he']
    rfl

/-- Any names and contents make a directory. -/
theorem directory_ofDirectory (vexDir : Path) (names : List FileName)
    (content : FileName → List UInt8) :
    Directory (FileSystem.ofDirectory vexDir names content) vexDir names content where
  listing := by simp [FileSystem.ofDirectory, FileSystem.ofFiles]
  regular := by
    intro name hname
    have hlookup : (names.map fun name => (vexDir.join name.bytes, content name)).lookup
        (vexDir.join name.bytes) = some (content name) := by
      induction names with
      | nil => cases hname
      | cons other names ih =>
        rw [List.map_cons, List.lookup_cons]
        split
        · rename_i heq
          rw [Path.join_injective vexDir (eq_of_beq heq)]
        · rename_i hne
          rcases List.mem_cons.mp hname with rfl | hname
          · simp at hne
          · exact ih hname
    simp only [FileSystem.ofDirectory, FileSystem.ofFiles, hlookup]

/-- With a stray too large to be read in it, the directory does not load. -/
theorem stray_too_large {name : FileName} (hname : name ∈ names) (hstray : name.IsStray) :
    ∃ fs' content', Directory fs' vexDir names content' ∧
      (∀ name ∈ names, name.IsStatement → content' name = content name) ∧
      ∃ e, loadTriagedFromVexDir R fs' vexDir = .error e := by
  let content' : FileName → List UInt8 := fun name =>
    if name.IsStray then List.replicate (maxInputFileBytes + 1) 0 else content name
  have hdir' := directory_ofDirectory vexDir names content'
  refine ⟨_, content', hdir', fun other _ hst => if_neg fun h => hst.2 h.2.1, ?_⟩
  have hread := FileSystem.read_eq_ok_iff.mpr (hdir'.regular name hname)
  refine hdir'.load_error_iff.mpr ⟨name, hname, .inr hstray, .inr ⟨_, hread, .inl ?_⟩⟩
  simp only [content', if_pos hstray, List.length_replicate]
  exact Nat.lt_succ_self _

end Directories

/-- **Exactly the statement files.** On a directory of regular files the loader fails on the bad
statement files and on no other, returns the ids of all of them, and depends on nothing else, exactly
if no hidden file has a name that is not UTF-8, or the loader fails anyway because a statement file
is bad. -/
theorem triaged_exactly (R : Runtime) (fs : FileSystem) (vexDir : Path) (names : List FileName)
    (content : FileName → List UInt8) (hdir : Directory fs vexDir names content) :
    TriagedExactly R fs vexDir names content ↔
      (∀ name ∈ names, ¬ name.IsStray) ∨
        ∃ name ∈ names, name.IsStatement ∧ BadFile R fs Decode.document (vexDir.join name.bytes) := by
  constructor
  · intro hexact
    by_contra hnot
    obtain ⟨hstray, hgood⟩ := not_or.mp hnot
    simp only [not_forall, not_not] at hstray
    obtain ⟨name, hname, hstray⟩ := hstray
    cases hload : loadTriagedFromVexDir R fs vexDir with
    | error e => exact hgood (hexact.fails.mp ⟨e, hload⟩)
    | ok triaged =>
      obtain ⟨fs', content', hdir', hsame, e, he⟩ :=
        @stray_too_large R vexDir names content name hname hstray
      have hindep := hexact.independent fs' names content' (.refl _) hdir' hsame
      rw [he, hload] at hindep
      cases hindep
  · rintro (hstray | hbad)
    · exact hdir.triagedExactly hstray
    · exact hdir.triagedExactly_of_bad hbad

/-- The hidden file is the only one there, and it fails the loader, which takes it for a
statement. -/
theorem hidden_sidecar_read :
    Directory (FileSystem.ofDirectory (Path.ofString ".vex") [latinSidecar] fun _ => utf8 sidecarText)
        (Path.ofString ".vex") [latinSidecar] (fun _ => utf8 sidecarText) ∧
      latinSidecar.bytes.head? = some Path.dot ∧ ¬ latinSidecar.IsStatement ∧
      ∃ e, loadTriagedFromVexDir (Runtime.ofTexts [(sidecarText, sidecarTree)])
        (FileSystem.ofDirectory (Path.ofString ".vex") [latinSidecar] fun _ => utf8 sidecarText)
        (Path.ofString ".vex") = .error e := by
  refine ⟨directory_ofDirectory _ _ _, by decide, by decide, ?_⟩
  exact ⟨_, rfl⟩

/-- A statement file, one with a name in Latin-1, a sidecar and a note. -/
def vexNames : List FileName :=
  [statedName, { bytes := [233, 46, 106, 115, 111, 110] }, sidecarName,
    { bytes := Path.ofString "README.md" }]

def vexContent (name : FileName) : List UInt8 :=
  utf8 (if name.IsStatement then statedText else sidecarText)

/-- On a directory like the repository's the loader is exact; with the hidden file in Latin-1 it is
not, as soon as the statement files are in order. -/
theorem triaged_exactly_sidecars :
    TriagedExactly demoRuntime (FileSystem.ofDirectory (Path.ofString ".vex") vexNames vexContent)
        (Path.ofString ".vex") vexNames vexContent ∧
      loadTriagedFromVexDir demoRuntime
        (FileSystem.ofDirectory (Path.ofString ".vex") vexNames vexContent) (Path.ofString ".vex") =
          .ok {"CVE-2"} ∧
      ¬ TriagedExactly demoRuntime
        (FileSystem.ofDirectory (Path.ofString ".vex") (latinSidecar :: vexNames) vexContent)
        (Path.ofString ".vex") (latinSidecar :: vexNames) vexContent := by
  have hdir := directory_ofDirectory (Path.ofString ".vex")
  refine ⟨?_, by decide +kernel, ?_⟩
  · exact (triaged_exactly demoRuntime _ _ vexNames _ (hdir _ _)).mpr (.inl (by decide +kernel))
  · rw [triaged_exactly demoRuntime _ _ (latinSidecar :: vexNames) _ (hdir _ _)]
    rintro (hstray | ⟨name, hname, hst, hbad⟩)
    · exact hstray latinSidecar List.mem_cons_self (by decide)
    · have hread := FileSystem.read_eq_ok_iff.mpr ((hdir _ vexContent).regular name hname)
      rw [vexContent, if_pos hst] at hread
      have hparse : fromSlice demoRuntime .document Decode.document (utf8 statedText) =
          .ok statedDocument := by decide +kernel
      obtain ⟨j, hj, hdec⟩ := fromSlice_eq_ok_iff.mp hparse
      exact badFile_iff.mp hbad statedDocument ⟨_, j, hread, by decide +kernel, hj, hdec⟩

end Sceau.Vex
