import Sceau.Vex.Names
import Sceau.Vex.Sboms

/-!
# `auto-vex-presence` as a whole

Three loaders with different policies feed one write: a Grype report and a list of SBOMs that all
have to load, and a directory that may be missing but none of whose statement files may be bad. What
each of them accepts is said first, for the triage loader by induction along the directory; `run` is
then one chain of loaders in which the first failure ends the run with nothing changed.

A statement file is one by its name (`FileName.IsStatement`). The triage loader has a test of its own,
`eligible`, and reads the strays besides; so the run fails closed on directories without strays, and
with one it may fail, or leave a finding out, on account of a file that is none of its inputs.
-/

set_option autoImplicit false

namespace Sceau.Vex

open Lib

/-! ## The triage loader

What a file holds is a function of its bytes, and a list of SBOMs one of its paths, so what the
loaders return can be compared. The loop over the directory adds up, entry by entry, what the files it
reads state, as long as it gets past them. -/

section Triaged

variable {R : Runtime} {fs : FileSystem} {vexDir : Path}

theorem Holds.unique {α : Type} {decode : Json.Decoder α} {path : Path} {a b : α}
    (ha : Holds R fs decode path a) (hb : Holds R fs decode path b) : a = b := by
  obtain ⟨bytes, j, hread, -, hparse, hdec⟩ := ha
  obtain ⟨bytes', j', hread', -, hparse', hdec'⟩ := hb
  obtain rfl : bytes = bytes' := Except.ok.inj (hread.symm.trans hread')
  obtain rfl : j = j' := Option.some.inj (hparse.symm.trans hparse')
  exact Option.some.inj (hdec.symm.trans hdec')

theorem Loaded.unique {paths : List Path} {sboms sboms' : List Sbom}
    (h : Loaded R fs paths sboms) (h' : Loaded R fs paths sboms') : sboms = sboms' := by
  refine List.right_unique_forall₂' ?_ h h'
  intro path sbom sbom' hs hs'
  exact Except.ok.inj (hs.symm.trans hs')

/-- The file is an OpenVEX document with a statement on this id. -/
def Mentions (R : Runtime) (fs : FileSystem) (path : Path) (cve : String) : Prop :=
  ∃ doc, Holds R fs Decode.document path doc ∧ ∃ st ∈ doc.statements, st.vulnerability.name = cve

/-- The loader reads the directory's file of this name, and finds a statement on this id in it. -/
def States (R : Runtime) (fs : FileSystem) (vexDir : Path) (name : FileName) (cve : String) : Prop :=
  eligible (vexDir.join name.bytes) = true ∧ Mentions R fs (vexDir.join name.bytes) cve

/-- An entry the loop gets past: no error of its own, and if it is a file the loader reads, one that
loads. -/
def Passes (R : Runtime) (fs : FileSystem) (vexDir : Path) (entry : Except IoError FileName) : Prop :=
  ∃ name, entry = .ok name ∧ (eligible (vexDir.join name.bytes) = true →
    ∃ doc, Holds R fs Decode.document (vexDir.join name.bytes) doc)

theorem mem_foldl_insert {sts : List Statement} {triaged : Finset String} {cve : String} :
    cve ∈ sts.foldl (fun t st => insert st.vulnerability.name t) triaged ↔
      cve ∈ triaged ∨ ∃ st ∈ sts, st.vulnerability.name = cve := by
  induction sts generalizing triaged with
  | nil => simp
  | cons st sts ih =>
    rw [List.foldl_cons, ih, Finset.mem_insert]
    simp only [List.mem_cons, exists_eq_or_imp]
    tauto

/-- One entry: what it adds, if the loop gets past it. -/
theorem triagedStep_ok {triaged triaged' : Finset String} {entry : Except IoError FileName}
    (h : triagedStep R fs vexDir triaged entry = .ok triaged') :
    ∃ name, entry = .ok name ∧ Passes R fs vexDir entry ∧
      ∀ cve, cve ∈ triaged' ↔ cve ∈ triaged ∨ States R fs vexDir name cve := by
  rw [triagedStep, bind_eq_ok_iff] at h
  obtain ⟨name, rfl, h⟩ := h
  refine ⟨name, rfl, ?_⟩
  by_cases hel : eligible (vexDir.join name.bytes) = true
  · rw [if_neg (by simp [hel])] at h
    obtain ⟨bytes, hbytes, h⟩ := bind_eq_ok_iff.mp h
    obtain ⟨doc, hdoc, h⟩ := bind_eq_ok_iff.mp h
    have hholds := (read_parse_iff .document).mp ⟨bytes, hbytes, hdoc⟩
    refine ⟨⟨name, rfl, fun _ => ⟨doc, hholds⟩⟩, ?_⟩
    intro cve
    rw [← Except.ok.inj h, mem_foldl_insert]
    refine or_congr_right ⟨fun hst => ⟨hel, doc, hholds, hst⟩, ?_⟩
    rintro ⟨-, doc', hholds', hst⟩
    rw [hholds.unique hholds']
    exact hst
  · rw [if_pos (by simpa using hel)] at h
    refine ⟨⟨name, rfl, fun h' => absurd h' hel⟩, ?_⟩
    intro cve
    rw [← Except.ok.inj h]
    exact ⟨.inl, fun hor => hor.elim id fun hst => absurd hst.1 hel⟩

theorem Passes.step {entry : Except IoError FileName} (h : Passes R fs vexDir entry)
    (triaged : Finset String) : ∃ triaged', triagedStep R fs vexDir triaged entry = .ok triaged' := by
  obtain ⟨name, rfl, hname⟩ := h
  by_cases hel : eligible (vexDir.join name.bytes) = true
  · obtain ⟨doc, hholds⟩ := hname hel
    obtain ⟨bytes, hbytes, hdoc⟩ := (read_parse_iff .document).mpr hholds
    refine ⟨doc.statements.foldl (fun t st => insert st.vulnerability.name t) triaged, ?_⟩
    rw [triagedStep, bind_eq_ok_iff]
    refine ⟨name, rfl, ?_⟩
    rw [if_neg (by simp [hel])]
    exact bind_eq_ok_iff.mpr ⟨bytes, hbytes, bind_eq_ok_iff.mpr ⟨doc, hdoc, rfl⟩⟩
  · refine ⟨triaged, ?_⟩
    rw [triagedStep, bind_eq_ok_iff]
    refine ⟨name, rfl, ?_⟩
    rw [if_pos (by simpa using hel)]
    rfl

/-- The loop over the directory, from any set. -/
theorem foldlM_triagedStep_ok {entries : List (Except IoError FileName)}
    {triaged triaged' : Finset String}
    (h : entries.foldlM (triagedStep R fs vexDir) triaged = .ok triaged') :
    (∀ entry ∈ entries, Passes R fs vexDir entry) ∧
      ∀ cve, cve ∈ triaged' ↔
        cve ∈ triaged ∨ ∃ name, Except.ok name ∈ entries ∧ States R fs vexDir name cve := by
  induction entries generalizing triaged with
  | nil =>
    obtain rfl := Except.ok.inj h
    simp
  | cons entry entries ih =>
    rw [List.foldlM_cons, bind_eq_ok_iff] at h
    obtain ⟨mid, hstep, hrest⟩ := h
    obtain ⟨name, rfl, hpass, hmid⟩ := triagedStep_ok hstep
    obtain ⟨hall, hmem⟩ := ih hrest
    constructor
    · intro entry hentry
      rcases List.mem_cons.mp hentry with rfl | hentry
      · exact hpass
      · exact hall entry hentry
    · intro cve
      rw [hmem, hmid, or_assoc]
      refine or_congr_right ?_
      constructor
      · rintro (hst | ⟨name', hname', hst⟩)
        · exact ⟨name, List.mem_cons_self, hst⟩
        · exact ⟨name', List.mem_cons_of_mem _ hname', hst⟩
      · rintro ⟨name', hname', hst⟩
        rcases List.mem_cons.mp hname' with heq | hname'
        · obtain rfl := Except.ok.inj heq
          exact .inl hst
        · exact .inr ⟨name', hname', hst⟩

theorem foldlM_triagedStep_total {entries : List (Except IoError FileName)}
    (h : ∀ entry ∈ entries, Passes R fs vexDir entry) (triaged : Finset String) :
    ∃ triaged', entries.foldlM (triagedStep R fs vexDir) triaged = .ok triaged' := by
  induction entries generalizing triaged with
  | nil => exact ⟨triaged, rfl⟩
  | cons entry entries ih =>
    obtain ⟨mid, hmid⟩ := (h entry List.mem_cons_self).step triaged
    obtain ⟨triaged', hrest⟩ := ih (fun e he => h e (List.mem_cons_of_mem _ he)) mid
    refine ⟨triaged', ?_⟩
    rw [List.foldlM_cons, bind_eq_ok_iff]
    exact ⟨mid, hmid, hrest⟩

/-- The entries of the directory, none if it is missing. -/
def Entries (fs : FileSystem) (vexDir : Path) (entries : List (Except IoError FileName)) : Prop :=
  fs.readDir vexDir = .ok entries ∨
    ∃ err, fs.readDir vexDir = .error err ∧ err.kind = .notFound ∧ entries = []

theorem Entries.eq_of_ok {entries entries' : List (Except IoError FileName)}
    (h : Entries fs vexDir entries) (hdir : fs.readDir vexDir = .ok entries') :
    entries = entries' := by
  rcases h with hok | ⟨err, herr, -⟩
  · exact Except.ok.inj (hok.symm.trans hdir)
  · rw [herr] at hdir
    cases hdir

theorem Entries.of_error {entries : List (Except IoError FileName)} {err : IoError}
    (h : Entries fs vexDir entries) (hdir : fs.readDir vexDir = .error err) :
    err.kind = .notFound ∧ entries = [] := by
  rcases h with hok | ⟨err', herr, hk, hnil⟩
  · rw [hok] at hdir
    cases hdir
  · obtain rfl := Except.error.inj (herr.symm.trans hdir)
    exact ⟨hk, hnil⟩

theorem Entries.unique {entries entries' : List (Except IoError FileName)}
    (h : Entries fs vexDir entries) (h' : Entries fs vexDir entries') : entries = entries' := by
  rcases h' with hdir | ⟨err, hdir, -, rfl⟩
  · exact h.eq_of_ok hdir
  · exact (h.of_error hdir).2

/-- **What the triage loader accepts, and returns.** -/
theorem loadTriagedFromVexDir_eq_ok_iff {triaged : Finset String} :
    loadTriagedFromVexDir R fs vexDir = .ok triaged ↔
      ∃ entries, Entries fs vexDir entries ∧ (∀ entry ∈ entries, Passes R fs vexDir entry) ∧
        ∀ cve, cve ∈ triaged ↔
          ∃ name, Except.ok name ∈ entries ∧ States R fs vexDir name cve := by
  unfold loadTriagedFromVexDir
  cases hdir : fs.readDir vexDir with
  | error err =>
    by_cases hk : err.kind = .notFound
    · simp only [hk, if_true]
      constructor
      · intro h
        obtain rfl := Except.ok.inj h
        exact ⟨[], .inr ⟨err, hdir, hk, rfl⟩, by simp, by simp⟩
      · rintro ⟨entries, hent, -, hmem⟩
        obtain ⟨-, rfl⟩ := hent.of_error hdir
        congr 1
        ext cve
        rw [hmem]
        simp
    · simp only [hk, if_false]
      constructor
      · intro h
        cases h
      · rintro ⟨entries, hent, -⟩
        exact absurd (hent.of_error hdir).1 hk
  | ok entries =>
    simp only []
    constructor
    · intro h
      obtain ⟨hall, hmem⟩ := foldlM_triagedStep_ok h
      exact ⟨entries, .inl hdir, hall, fun cve => by simpa using hmem cve⟩
    · rintro ⟨entries', hent, hall, hmem⟩
      obtain rfl := hent.eq_of_ok hdir
      obtain ⟨triaged', h⟩ := foldlM_triagedStep_total hall ∅
      rw [h]
      congr 1
      ext cve
      rw [(foldlM_triagedStep_ok h).2, hmem]
      simp

end Triaged

/-! ## The chain of loaders

Each of `run`'s question marks either hands on a value or ends the run in an error with the world as
it was; the write at the end is the only command with an effect on the files. Hence the two cases of
`run_cases`, which is all that is used of `run` from here on. -/

section Chain

variable {α β ε : Type} {w : World}

/-- The question mark, run: an error ends the run and leaves the world alone. -/
theorem attempt_bind_run (context : ε → String) (x : Except ε α) (f : α → RunM β) :
    (attempt context x >>= f).run.run w =
      match x with
      | .ok a => (f a).run.run w
      | .error e => (.error (context e), w) := by
  cases x <;> rfl

/-- The loop over the SBOMs, run: all of them, or the first that fails. -/
theorem mapM_attempt_bind_run (context : Path → ε → String) (load : Path → Except ε α)
    (paths : List Path) (f : List α → RunM β) :
    (∃ xs, List.Forall₂ (fun path x => load path = .ok x) paths xs ∧
      (paths.mapM (fun path => attempt (context path) (load path)) >>= f).run.run w =
        (f xs).run.run w) ∨
    ((∃ path ∈ paths, ∃ e, load path = .error e) ∧
      ∃ e, (paths.mapM (fun path => attempt (context path) (load path)) >>= f).run.run w =
        (.error e, w)) := by
  induction paths generalizing f with
  | nil => exact .inl ⟨[], .nil, rfl⟩
  | cons path paths ih =>
    rw [List.mapM_cons, bind_assoc, attempt_bind_run]
    cases hx : load path with
    | error e => exact .inr ⟨⟨path, List.mem_cons_self, e, hx⟩, context path e, rfl⟩
    | ok x =>
      simp only [bind_assoc, pure_bind]
      rcases ih (fun xs => f (x :: xs)) with ⟨xs, hall, hrun⟩ | ⟨⟨p, hp, hbad⟩, hrun⟩
      · exact .inl ⟨x :: xs, .cons hx hall, hrun⟩
      · exact .inr ⟨⟨p, List.mem_cons_of_mem _ hp, hbad⟩, hrun⟩

end Chain

/-- The text a run renders. -/
def renderedText (R : Runtime) (cli : Cli) (grype : GrypeReport) (sboms : List Sbom)
    (triaged : Finset String) (ts : String) : String :=
  R.render (Encode.document (buildDocument
    (computePresenceVex sboms triaged cli.productPurl ts grype) cli.id cli.author ts)) ++ "\n"

/-- Where the text a run has rendered ends up, and what the run then returns. -/
structure Delivered (env : Surroundings) (cli : Cli) (w : World) (text : String)
    (fin : Except String Unit × World) : Prop where
  printed : cli.output = none → fin.1 = .ok () ∧ fin.2.stdout = w.stdout ++ text ∧
    fin.2.files = w.files
  written : ∀ path, cli.output = some path → env.writeFails path = none →
    fin.1 = .ok () ∧ fin.2.files = w.files.put path (utf8 text) ∧
      fin.2.stdout = w.stdout
  failed : ∀ path e left, cli.output = some path → env.writeFails path = some (e, left) →
    (∃ msg, fin.1 = .error msg) ∧ fin.2.files = left ∧ fin.2.stdout = w.stdout

theorem deliver_delivered (R : Runtime) (env : Surroundings) (cli : Cli) (w : World)
    (text summary : String) :
    Delivered env cli w text
      ((deliver R env cli text >>= fun _ => modify fun w => { w with stderr := w.stderr ++ summary } :
        RunM Unit).run.run w) := by
  unfold deliver
  cases hout : cli.output with
  | none =>
    refine ⟨fun _ => ⟨rfl, rfl, rfl⟩, ?_, ?_⟩
    · intro path h
      rw [hout] at h
      cases h
    · intro path e left h
      rw [hout] at h
      cases h
  | some out =>
    refine ⟨?_, ?_, ?_⟩
    · intro h
      rw [hout] at h
      cases h
    · intro path h hw
      obtain rfl : out = path := Option.some.inj (hout.symm.trans h)
      simp only [write, hw]
      exact ⟨rfl, rfl, rfl⟩
    · intro path e left h hw
      obtain rfl : out = path := Option.some.inj (hout.symm.trans h)
      simp only [write, hw]
      exact ⟨⟨_, rfl⟩, rfl, rfl⟩

/-- **A run, in two cases.** Either everything loads, and the text of exactly what was loaded is
delivered; or something does not, and nothing changes. -/
theorem run_cases (R : Runtime) (env : Surroundings) (cli : Cli) (w : World) :
    (∃ grype sboms triaged ts, Holds R w.files Decode.grypeReport cli.grypeJson grype ∧
      Loaded R w.files cli.sbom sboms ∧
      loadTriagedFromVexDir R w.files cli.vexDir = .ok triaged ∧ timestampOf env cli = .ok ts ∧
      Delivered env cli w (renderedText R cli grype sboms triaged ts) ((run R env cli).run.run w)) ∨
    (((∀ grype, ¬ Holds R w.files Decode.grypeReport cli.grypeJson grype) ∨
        (∃ path ∈ cli.sbom, ∃ e, loadSbomFromPath R w.files path = .error e) ∨
        (∃ e, loadTriagedFromVexDir R w.files cli.vexDir = .error e) ∨
        ∃ e, timestampOf env cli = .error e) ∧
      ∃ e, (run R env cli).run.run w = (.error e, w)) := by
  have hget : ∀ {β : Type} (f : World → RunM β),
      (get >>= f : RunM β).run.run w = (f w).run.run w := fun _ => rfl
  rw [Vex.run, hget, attempt_bind_run]
  cases hread : readFileCapped R w.files cli.grypeJson with
  | error e =>
    refine .inr ⟨.inl ?_, _, rfl⟩
    intro grype hholds
    obtain ⟨bytes, hbytes, -⟩ := (read_decode_iff .grypeReport).mpr hholds
    rw [hbytes] at hread
    cases hread
  | ok bytes =>
    simp only []
    rw [attempt_bind_run]
    cases hparse : fromSlice R .grypeReport Decode.grypeReport bytes with
    | error e =>
      refine .inr ⟨.inl ?_, _, rfl⟩
      intro grype hholds
      obtain ⟨bytes', hbytes, hgrype⟩ := (read_decode_iff .grypeReport).mpr hholds
      obtain rfl : bytes' = bytes := Except.ok.inj (hbytes.symm.trans hread)
      rw [hgrype] at hparse
      cases hparse
    | ok grype =>
      have hgrype : Holds R w.files Decode.grypeReport cli.grypeJson grype :=
        (read_decode_iff .grypeReport).mp ⟨bytes, hread, hparse⟩
      simp only []
      rcases mapM_attempt_bind_run (w := w) _ (loadSbomFromPath R w.files) cli.sbom _ with
        ⟨sboms, hload, hrun⟩ | ⟨hbad, e, hrun⟩
      · rw [hrun, attempt_bind_run]
        cases htri : loadTriagedFromVexDir R w.files cli.vexDir with
        | error e => exact .inr ⟨.inr (.inr (.inl ⟨e, rfl⟩)), _, rfl⟩
        | ok triaged =>
          simp only []
          rw [attempt_bind_run]
          cases hts : timestampOf env cli with
          | error e => exact .inr ⟨.inr (.inr (.inr ⟨e, rfl⟩)), _, rfl⟩
          | ok ts =>
            exact .inl ⟨grype, sboms, triaged, ts, hgrype, hload, rfl, rfl,
              deliver_delivered R env cli w _ _⟩
      · rw [hrun]
        exact .inr ⟨.inr (.inl hbad), e, rfl⟩

/-- On inputs that load, the run delivers. -/
theorem run_delivers {R : Runtime} {env : Surroundings} {cli : Cli} {w : World} {grype : GrypeReport}
    {sboms : List Sbom} {triaged : Finset String} {ts : String}
    (hgrype : Holds R w.files Decode.grypeReport cli.grypeJson grype)
    (hload : Loaded R w.files cli.sbom sboms)
    (htri : loadTriagedFromVexDir R w.files cli.vexDir = .ok triaged)
    (hts : timestampOf env cli = .ok ts) :
    Delivered env cli w (renderedText R cli grype sboms triaged ts) ((run R env cli).run.run w) := by
  rcases run_cases R env cli w with
    ⟨grype', sboms', triaged', ts', hgrype', hload', htri', hts', hdel⟩ | ⟨hbad, -⟩
  · obtain rfl := hgrype.unique hgrype'
    obtain rfl := hload.unique hload'
    obtain rfl := Except.ok.inj (htri.symm.trans htri')
    obtain rfl := Except.ok.inj (hts.symm.trans hts')
    exact hdel
  · exfalso
    rcases hbad with h | ⟨path, hpath, e, he⟩ | ⟨e, he⟩ | ⟨e, he⟩
    · exact h grype hgrype
    · obtain ⟨sbom, -, hok⟩ := Json.forall₂_exists_right hload hpath
      exact exists_error_iff.mp ⟨e, he⟩ sbom hok
    · exact exists_error_iff.mp ⟨e, he⟩ triaged htri
    · exact exists_error_iff.mp ⟨e, he⟩ ts hts

/-! ## Failing closed

What is bad about an input is said of files and of names, without a loader in sight: a file cannot be
read, is too large or does not parse, an SBOM has no components, a statement file is bad. That a
loader fails on these and on nothing else is what has to be shown, and is so but for strays. -/

/-- Unreadable, over the size cap, or not a text of the type. -/
def BadFile {α : Type} (R : Runtime) (fs : FileSystem) (decode : Json.Decoder α) (path : Path) :
    Prop :=
  (∀ bytes, fs.read path ≠ .ok bytes) ∨
    ∃ bytes, fs.read path = .ok bytes ∧
      (maxInputFileBytes < bytes.length ∨ ∀ j, R.parse bytes = some j → decode j = none)

/-- The directory can be listed, or is missing. -/
def Listable (fs : FileSystem) (vexDir : Path) : Prop :=
  ∃ entries, Entries fs vexDir entries ∧ ∀ entry ∈ entries, ∃ name, entry = .ok name

section Closed

variable {R : Runtime} {fs : FileSystem}

theorem badFile_iff {α : Type} {decode : Json.Decoder α} {path : Path} :
    BadFile R fs decode path ↔ ∀ a, ¬ Holds R fs decode path a := by
  constructor
  · rintro (hread | ⟨bytes, hread, hbad⟩) a ⟨bytes', j, hread', hle, hj, hdec⟩
    · exact hread bytes' hread'
    · obtain rfl : bytes = bytes' := Except.ok.inj (hread.symm.trans hread')
      rcases hbad with hlt | hnone
      · omega
      · rw [hnone j hj] at hdec
        cases hdec
  · intro h
    by_cases hread : ∃ bytes, fs.read path = .ok bytes
    · obtain ⟨bytes, hread⟩ := hread
      refine .inr ⟨bytes, hread, ?_⟩
      by_contra hnot
      rw [not_or, Nat.not_lt] at hnot
      refine hnot.2 fun j hj => Option.eq_none_iff_forall_ne_some.mpr fun a ha => ?_
      exact h a ⟨bytes, j, hread, hnot.1, hj, ha⟩
    · exact .inl fun bytes hb => hread ⟨bytes, hb⟩

/-- The triage loader succeeds on a listable directory in which no file it reads is bad, and on no
other. -/
theorem triaged_loads_iff {vexDir : Path} :
    (∃ triaged, loadTriagedFromVexDir R fs vexDir = .ok triaged) ↔
      Listable fs vexDir ∧ ∀ entries name, fs.readDir vexDir = .ok entries →
        .ok name ∈ entries → eligible (vexDir.join name.bytes) = true →
        ¬ BadFile R fs Decode.document (vexDir.join name.bytes) := by
  constructor
  · rintro ⟨triaged, h⟩
    obtain ⟨entries, hent, hall, -⟩ := loadTriagedFromVexDir_eq_ok_iff.mp h
    constructor
    · refine ⟨entries, hent, fun entry hentry => ?_⟩
      obtain ⟨name, rfl, -⟩ := hall entry hentry
      exact ⟨name, rfl⟩
    · intro entries' name hdir hmem hel hbad
      obtain rfl := hent.eq_of_ok hdir
      obtain ⟨_, ⟨rfl⟩, hdoc⟩ := hall _ hmem
      obtain ⟨doc, hdoc⟩ := hdoc hel
      exact badFile_iff.mp hbad doc hdoc
  · rintro ⟨⟨entries, hent, hnames⟩, hgood⟩
    unfold loadTriagedFromVexDir
    rcases hent with hdir | ⟨err, hdir, hk, -⟩
    · rw [hdir]
      refine foldlM_triagedStep_total (fun entry hentry => ?_) ∅
      obtain ⟨name, rfl⟩ := hnames entry hentry
      refine ⟨name, rfl, fun hel => ?_⟩
      by_contra hnone
      exact hgood entries name hdir hentry hel (badFile_iff.mpr fun doc hd => hnone ⟨doc, hd⟩)
    · rw [hdir]
      exact ⟨∅, if_pos hk⟩

end Closed

/-- The report, and its tree when the id has no character that is escaped. -/
def findingText (cve : String) : String :=
  "\x7b\"matches\":[\x7b\"vulnerability\":\x7b\"id\":\"" ++ cve ++
    "\"\x7d,\"artifact\":\x7b\"purl\":\"pkg:deb/debian/zlib1g\"\x7d\x7d]\x7d"

def findingTree (cve : String) : Json :=
  .obj [(some "matches", .arr [.obj
    [(some "vulnerability", .obj [(some "id", .str (some cve))]),
      (some "artifact", .obj [(some "purl", .str (some "pkg:deb/debian/zlib1g"))])]])]

def finding (cve : String) : GrypeReport :=
  { «matches» := [⟨⟨cve⟩, ⟨some "pkg:deb/debian/zlib1g"⟩⟩] }

def baseText : String := "\x7b\"components\":[\x7b\"purl\":\"pkg:deb/debian/base\"\x7d]\x7d"

def baseTree : Json :=
  .obj [(some "components", .arr [.obj [(some "purl", .str (some "pkg:deb/debian/base"))]])]

def baseSbom : Sbom := { components := some [{ purl := some "pkg:deb/debian/base" }] }

def fixedStatement : Statement where
  vulnerability := { name := "CVE-2" }
  products := [{ id := "pkg:oci/sceau" }]
  status := "fixed"
  justification := none
  impactStatement := none
  timestamp := "t"

def statedDocument : Document := buildDocument [fixedStatement] "id" "me" "t"

def statedText : String :=
  "\x7b\"@context\":\"https://openvex.dev/ns/v0.2.0\",\"@id\":\"id\",\"author\":\"me\"," ++
    "\"timestamp\":\"t\",\"version\":1,\"statements\":[\x7b\"vulnerability\":\x7b\"name\":\"CVE-2\"\x7d," ++
    "\"products\":[\x7b\"@id\":\"pkg:oci/sceau\"\x7d],\"status\":\"fixed\",\"timestamp\":\"t\"\x7d]\x7d"

/-- The text of a sidecar, and its tree. -/
def sidecarText : String := "\x7b\"CVE-1\": []\x7d"

def sidecarTree : Json := .obj [(some "CVE-1", .arr [])]

def demoRuntime : Runtime :=
  Runtime.ofTexts [(findingText "CVE-1", findingTree "CVE-1"), (baseText, baseTree),
    (statedText, Encode.document statedDocument), (sidecarText, sidecarTree)]

def demoSurroundings : Surroundings := { now := .ok "t", writeFails := fun _ => none }

def statedName : FileName := { bytes := Path.ofString "two.json" }

def sidecarName : FileName := { bytes := Path.ofString ".affected-functions.json" }

end Sceau.Vex
