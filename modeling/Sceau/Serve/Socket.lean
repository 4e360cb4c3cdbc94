import Sceau.Platform
import Sceau.Serve.Process

/-!
# The socket of `serve`

The comment in `run_serve` says that the socket is removed "so a restart does not trip over it", and
the permissions are set after it is bound. A process can be killed before it removes the socket, and
nothing keeps two of them off one path. What holds then: restarts work however the one before ended,
as long as processes do not overlap; whoever is reached at the path has set its permissions, even if
they do; and a process that serves and is no longer reached has lost its socket to another process,
one that was starting and took it for stale or one that was stopping and took it for its own.
-/

set_option autoImplicit false

namespace Sceau

open Lib

variable {P : Platform} {faults : TpmCmd → Bool} {flaky : Bool} {created : Nat}
  {socket : String} {parent : Option String} {h h' : Host}

/-! ## What a command can do to the path

Four ways for the path to change or not. Which of them a command took is not always in its answer:
setting permissions succeeds whether or not the socket at the path is one's own. -/

inductive PathMove (created : Nat) (h : Host) : PathCmd → Host → Prop where
  | stay (c : PathCmd) : PathMove created h c h
  | unlink {x : PathEntry} (there : h.entry = some x) :
      PathMove created h .removeFile { h with entry := none }
  | bind (empty : h.entry = none) : PathMove created h .bind
      { h with entry := some (.socket h.next created), next := h.next + 1 }
  | chmod {l m : Nat} (mode : Nat) (there : h.entry = some (.socket l m)) :
      PathMove created h (.setPermissions mode) { h with entry := some (.socket l mode) }

theorem pathStep_moves {c : PathCmd} {b : Bool} {r : c.Res}
    (hs : pathStep flaky created h c b = some (r, h')) : PathMove created h c h' := by
  cases c with
  | createDirAll =>
    simp only [pathStep, Option.some.injEq, Prod.mk.injEq] at hs
    exact hs.2 ▸ .stay _
  | «exists» =>
    simp only [pathStep] at hs
    split at hs
    · simp only [Option.some.injEq, Prod.mk.injEq] at hs
      exact hs.2 ▸ .stay _
    · cases hs
  | removeFile =>
    simp only [pathStep] at hs
    split at hs
    · simp only [Option.some.injEq, Prod.mk.injEq] at hs
      exact hs.2 ▸ .stay _
    · simp only [Option.some.injEq, Prod.mk.injEq] at hs
      exact hs.2 ▸ .stay _
    · rename_i hentry
      split at hs
      · simp only [Option.some.injEq, Prod.mk.injEq] at hs
        exact hs.2 ▸ .unlink hentry
      · split at hs
        · simp only [Option.some.injEq, Prod.mk.injEq] at hs
          exact hs.2 ▸ .stay _
        · cases hs
  | bind =>
    simp only [pathStep] at hs
    split at hs
    · rename_i hfree
      simp only [Bool.and_eq_true, Option.isNone_iff_eq_none] at hfree
      simp only [Option.some.injEq, Prod.mk.injEq] at hs
      exact hs.2 ▸ .bind hfree.2
    · simp only [Option.some.injEq, Prod.mk.injEq] at hs
      exact hs.2 ▸ .stay _
  | listen l =>
    simp only [pathStep, Option.some.injEq, Prod.mk.injEq] at hs
    exact hs.2 ▸ .stay _
  | setPermissions mode =>
    simp only [pathStep] at hs
    split at hs
    · simp only [Option.some.injEq, Prod.mk.injEq] at hs
      exact hs.2 ▸ .stay _
    · rename_i hentry
      split at hs
      · simp only [Option.some.injEq, Prod.mk.injEq] at hs
        exact hs.2 ▸ .chmod mode hentry
      · simp only [Option.some.injEq, Prod.mk.injEq] at hs
        exact hs.2 ▸ .stay _
    · simp only [Option.some.injEq, Prod.mk.injEq] at hs
      exact hs.2 ▸ .stay _
  | serve l =>
    simp only [pathStep, Option.some.injEq, Prod.mk.injEq] at hs
    exact hs.2 ▸ .stay _

theorem removeFile_ok {b : Bool}
    (hs : pathStep flaky created h .removeFile b = some (.ok (), h')) : h'.entry = none := by
  simp only [pathStep] at hs
  split at hs
  · cases hs
  · cases hs
  · split at hs
    · cases hs
      rfl
    · split at hs <;> cases hs

theorem bind_ok {b : Bool} {l : Nat} (hs : pathStep flaky created h .bind b = some (.ok l, h')) :
    l = h.next ∧ h' = { h with entry := some (.socket l created), next := l + 1 } := by
  simp only [pathStep] at hs
  split at hs
  · cases hs
    exact ⟨rfl, rfl⟩
  · cases hs

theorem setPermissions_ok {b : Bool} {l m mode : Nat} (hentry : h.entry = some (.socket l m))
    (hs : pathStep flaky created h (.setPermissions mode) b = some (.ok (), h')) :
    h'.entry = some (.socket l mode) := by
  simp only [pathStep, hentry] at hs
  split at hs
  · cases hs
    rfl
  · cases hs

/-! ## One process after the other

Nothing interferes, so each stage of `run_serve` knows exactly what is at the path. A process that is
killed leaves what its stage says, and all the next one needs of it is that it is not a directory. -/

/-- The path in each stage of a process that is alone on it. -/
def AloneOn (created : Nat) : PathStage → Host → Prop
  | .rest, h => h.entry ≠ some .directory
  | .cleared, h => h.entry = none
  | .bound l, h => h.entry = some (.socket l created)
  | .opened l, h => h.entry = some (.socket l 0o600)

theorem AloneOn.rest {g : PathStage} (hg : AloneOn created g h) : AloneOn created .rest h := by
  intro hdir
  cases g with
  | rest => exact hg hdir
  | cleared => cases hdir.symm.trans hg
  | bound l => cases hdir.symm.trans hg
  | opened l => cases hdir.symm.trans hg

/-- No command makes a directory of the path. -/
theorem PathMove.rest {c : PathCmd} (hm : PathMove created h c h') (hg : AloneOn created .rest h) :
    AloneOn created .rest h' := by
  cases hm with
  | stay c => exact hg
  | unlink there => exact nofun
  | bind empty => exact nofun
  | chmod mode there => exact nofun

theorem aloneOn_outline : PathOutline false created Eq (AloneOn created) where
  rest := fun _ _ hg => hg.rest
  rely := fun _ _ _ hg heq => heq ▸ hg
  cmd := by
    intro g h h' hentry _ hg
    cases g with
    | rest => exact fun hdir => hg (hentry ▸ hdir)
    | cleared => exact hentry.trans hg
    | bound l => exact hentry.trans hg
    | opened l => exact hentry.trans hg
  exists_false := by
    intro h b h' _ hs
    simp only [pathStep, Bool.or_false] at hs
    split at hs
    · rename_i hb
      simp only [hb, Bool.true_and, Option.some.injEq, Prod.mk.injEq] at hs
      obtain ⟨hnone, rfl⟩ := hs
      show h.entry = none
      simpa using hnone
    · cases hs
  removeFile := by
    intro h b r h' hrest hs
    refine ⟨(pathStep_moves hs).rest hrest, fun hr => ?_⟩
    subst hr
    exact removeFile_ok hs
  bind := by
    intro h b r h' hcleared hs
    refine ⟨(pathStep_moves hs).rest hcleared.rest, fun l hl => ?_⟩
    subst hl
    obtain ⟨rfl, rfl⟩ := bind_ok hs
    rfl
  setPermissions := by
    intro l h b r h' hbound hs
    refine ⟨(pathStep_moves hs).rest hbound.rest, fun hr => ?_⟩
    subst hr
    exact setPermissions_ok hbound hs

/-- **A restart never trips over a socket.** Where the path is not a directory and what is there can
be seen and removed, and processes do not overlap, then however the earlier ones ended, killed at any
command included: a process that comes to bind the socket finds the path free, and one that serves is
reached at the path, by a socket with mode 0600. -/
theorem serve_restarts (hpath : h.entry ≠ some .directory) {acts : List (Act Bool Choice Empty)}
    {pool : HostPool}
    (halone : Along (hostSystem P faults false created socket parent).step Pool.spawnsAlone
      { shared := h } acts)
    (hrun : runs (hostSystem P faults false created socket parent).step { shared := h } acts =
      some pool) :
    ∀ t ∈ pool.tasks, (t.next? = some (.path .bind) → pool.shared.entry = none) ∧
      ∀ l, t.next? = some (.path (.serve l)) → pool.shared.entry = some (.socket l 0o600) := by
  have hall := runs_alone (A := Asserted (AloneOn created))
    (B := fun _ h => AloneOn created .rest h) (I := AloneOn created .rest)
    (fun c h hA => hA.choose_spec.2.rest) (fun _ _ hB => hB) (fun _ x => x.elim)
    (fun p h hrest => aloneOn_outline.runServeAt (fun _ => rfl) p hrest) hpath halone hrun
  intro t ht
  refine ⟨fun hbind => ?_, fun l hserve => ?_⟩
  · obtain ⟨g, hissues, hg⟩ := hall.2 t ht _ hbind
    cases hissues
    exact hg
  · obtain ⟨g, hissues, hg⟩ := hall.2 t ht _ hserve
    cases hissues
    exact hg

/-! A node with a fleet key and a socket that an earlier process has left behind. -/

def staleHost : Host where
  machine := keyedMachine
  entry := some (.socket 0 0o755)
  next := 1

/-- The `i`-th process, from its start to where it serves. -/
def startServe (i : Nat) : List (Act Bool Choice Empty) :=
  .spawn false :: (List.replicate 3 (Choice.io true) ++ List.replicate 15 (performed 1) ++
    List.replicate 3 (Choice.io true)).map (.step i)

def staleSystem : System Bool HostCmd HostCmd.Res Host Choice Empty (Except ServeError Unit) :=
  hostSystem .plain noFault false 0o755 "/run/sceau.sock" (some "/run")

/-- What a run shows: the path, and whether the processes are under way. -/
def HostPool.shown (pool : HostPool) : Option PathEntry × List Bool :=
  (pool.shared.entry, pool.tasks.map Task.inFlight)

/-- The first process is killed while it serves, and the second one comes to serve too. -/
theorem serve_restarts_killed :
    ∃ pool : HostPool, runs staleSystem.step { shared := staleHost }
        (startServe 0 ++ .cancel 0 :: startServe 1) = some pool ∧
      pool.shown = (some (.socket 2 0o600), [false, true]) ∧
      ∀ t ∈ pool.tasks, ∀ l, t.next? = some (.path (.serve l)) →
        pool.shared.entry = some (.socket l 0o600) := by
  have hshown : (runs staleSystem.step { shared := staleHost }
      (startServe 0 ++ .cancel 0 :: startServe 1)).map HostPool.shown =
        some (some (.socket 2 0o600), [false, true]) := by decide +kernel
  obtain ⟨pool, hrun, hshown⟩ := Option.map_eq_some_iff.mp hshown
  have halone : Along staleSystem.step Pool.spawnsAlone { shared := staleHost }
      (startServe 0 ++ .cancel 0 :: startServe 1) := by decide +kernel
  have hpath : staleHost.entry ≠ some .directory := by decide
  exact ⟨pool, hrun, hshown, fun t ht => (serve_restarts hpath halone hrun t ht).2⟩

/-! ## Processes at once

Here a stage knows little: that its listener's number was given out, and, once the permissions were
set, that the listener has them if it is at the path at all. That is stable, because a number is not
given out twice and the only mode anybody sets is 0600. -/

/-- Sockets are numbered in order. -/
def Host.Numbered (h : Host) : Prop := ∀ l m, h.entry = some (.socket l m) → l < h.next

/-- What processes do to the path: a socket that is not there does not come back, and one that is
there keeps its mode or becomes 0600. -/
structure PathRely (h h' : Host) : Prop where
  numbered : h.Numbered → h'.Numbered
  next : h.next ≤ h'.next
  socket : ∀ l m', l < h.next → h'.entry = some (.socket l m') →
    ∃ m, h.entry = some (.socket l m) ∧ (m' = m ∨ m' = 0o600)

theorem PathRely.refl (h : Host) : PathRely h h :=
  ⟨id, Nat.le_refl _, fun _ m' _ hm => ⟨m', hm, .inl rfl⟩⟩

theorem PathRely.trans {h₁ h₂ h₃ : Host} (h : PathRely h₁ h₂) (h' : PathRely h₂ h₃) :
    PathRely h₁ h₃ := by
  refine ⟨h'.numbered ∘ h.numbered, Nat.le_trans h.next h'.next, fun l m₃ hl hm => ?_⟩
  obtain ⟨m₂, hm₂, hor⟩ := h'.socket l m₃ (Nat.lt_of_lt_of_le hl h.next) hm
  obtain ⟨m₁, hm₁, hor'⟩ := h.socket l m₂ hl hm₂
  refine ⟨m₁, hm₁, ?_⟩
  rcases hor with rfl | rfl
  · exact hor'
  · exact .inr rfl

theorem PathMove.relies {c : PathCmd} (hm : PathMove created h c h')
    (hmode : ∀ mode, c = .setPermissions mode → mode = 0o600) : PathRely h h' := by
  cases hm with
  | stay c => exact PathRely.refl h
  | unlink there => exact ⟨fun _ => nofun, Nat.le_refl _, nofun⟩
  | bind empty =>
    refine ⟨fun _ l m heq => ?_, Nat.le_succ _, fun l m' hl heq => ?_⟩
    · obtain ⟨rfl, rfl⟩ := PathEntry.socket.inj (Option.some.inj heq)
      exact Nat.lt_succ_self _
    · obtain ⟨rfl, rfl⟩ := PathEntry.socket.inj (Option.some.inj heq)
      exact absurd hl (Nat.lt_irrefl _)
  | chmod mode there =>
    refine ⟨fun hn l m heq => ?_, Nat.le_refl _, fun l m' hl heq => ?_⟩
    · obtain ⟨rfl, rfl⟩ := PathEntry.socket.inj (Option.some.inj heq)
      exact hn _ _ there
    · obtain ⟨rfl, rfl⟩ := PathEntry.socket.inj (Option.some.inj heq)
      exact ⟨_, there, .inr (hmode _ rfl)⟩

/-- The path in each stage of a process among others. -/
def AmongOthers : PathStage → Host → Prop
  | .bound l, h => h.Numbered ∧ l < h.next
  | .opened l, h => h.Numbered ∧ l < h.next ∧ ∀ m, h.entry = some (.socket l m) → m = 0o600
  | _, h => h.Numbered

theorem AmongOthers.rest {g : PathStage} (hg : AmongOthers g h) : AmongOthers .rest h := by
  cases g with
  | rest => exact hg
  | cleared => exact hg
  | bound l => exact hg.1
  | opened l => exact hg.1

theorem AmongOthers.rely {g : PathStage} (hg : AmongOthers g h) (hr : PathRely h h') :
    AmongOthers g h' := by
  cases g with
  | rest => exact hr.numbered hg
  | cleared => exact hr.numbered hg
  | bound l => exact ⟨hr.numbered hg.1, Nat.lt_of_lt_of_le hg.2 hr.next⟩
  | opened l =>
    obtain ⟨hn, hl, hmode⟩ := hg
    refine ⟨hr.numbered hn, Nat.lt_of_lt_of_le hl hr.next, fun m' hm' => ?_⟩
    obtain ⟨m, hm, rfl | rfl⟩ := hr.socket l m' hl hm'
    · exact hmode _ hm
    · rfl

theorem pathRely_of_same (hentry : h'.entry = h.entry) (hnext : h'.next = h.next) :
    PathRely h h' := by
  refine ⟨fun hn l m hm => ?_, Nat.le_of_eq hnext.symm, fun l m' _ hm => ⟨m', ?_, .inl rfl⟩⟩
  · rw [hnext]
    exact hn l m (hentry ▸ hm)
  · rw [← hentry]
    exact hm

theorem amongOthers_outline : PathOutline flaky created PathRely AmongOthers where
  rest := fun _ _ hg => hg.rest
  rely := fun _ _ _ hg hr => hg.rely hr
  cmd := fun _ _ _ hentry hnext hg => hg.rely (pathRely_of_same hentry hnext)
  exists_false := fun _ _ _ hrest hs => ((pathStep_moves hs).relies nofun).numbered hrest
  removeFile := by
    intro h b r h' hrest hs
    have hn := ((pathStep_moves hs).relies nofun).numbered hrest
    exact ⟨hn, fun _ => hn⟩
  bind := by
    intro h b r h' hcleared hs
    have hn := ((pathStep_moves hs).relies nofun).numbered hcleared
    refine ⟨hn, fun l hl => ⟨hn, ?_⟩⟩
    subst hl
    obtain ⟨-, rfl⟩ := bind_ok hs
    exact Nat.lt_succ_self _
  setPermissions := by
    intro l h b r h' hbound hs
    have hr : PathRely h h' := (pathStep_moves hs).relies fun mode heq => by
      cases heq
      rfl
    have hbound' := AmongOthers.rely (g := .bound l) hbound hr
    refine ⟨hbound'.1, fun hok => ⟨hbound'.1, hbound'.2, fun m' hm' => ?_⟩⟩
    subst hok
    -- if the listener is at the path, it was there for its permissions to be set
    obtain ⟨m, hm, -⟩ := hr.socket l m' hbound.2 hm'
    have hset := setPermissions_ok hm hs
    rw [hset] at hm'
    exact (PathEntry.socket.inj (Option.some.inj hm')).2.symm

/-- At every command a process comes to, its stage's assertion holds. -/
theorem serve_among_others (hnum : h.Numbered) {acts : List (Act Bool Choice Empty)}
    {pool : HostPool}
    (hrun : runs (hostSystem P faults flaky created socket parent).step { shared := h } acts =
      some pool) :
    pool.shared.Numbered ∧
      ∀ t ∈ pool.tasks, ∀ c, t.next? = some c → Asserted AmongOthers c pool.shared := by
  have hdev : ∀ (c : HostCmd) (h : Host) (e : Choice) (r : c.Res) (h' : Host),
      Asserted AmongOthers c h → h.Numbered →
      hostDevice P faults flaky created c h e = some (r, h') → h'.Numbered ∧ PathRely h h' := by
    intro c h e r h' hA hn hd
    have hr : PathRely h h' := by
      cases c with
      | cmd c =>
        obtain ⟨hentry, hnext⟩ := hostDevice_cmd hd
        exact pathRely_of_same hentry hnext
      | path c =>
        obtain ⟨b, rfl, hb⟩ := hostDevice_path hd
        refine (pathStep_moves hb).relies fun mode hmode => ?_
        subst hmode
        obtain ⟨g, hissues, -⟩ := hA
        cases hissues
        rfl
    exact ⟨hr.numbered hn, hr⟩
  have hcode : ∀ (forceLegacy : Bool) (h : Host), h.Numbered →
      (runServeAt P socket parent forceLegacy).Meets (hostDevice P faults flaky created) PathRely
        (Asserted AmongOthers) (fun _ h' => AmongOthers .rest h') h :=
    fun p h hn => amongOthers_outline.runServeAt PathRely.refl p hn
  exact runs_meets PathRely.refl (fun _ _ _ => PathRely.trans) (fun _ => hdev)
    (fun _ x => x.elim) hcode hnum hrun

/-- **Who is reached at the path is reached privately**, whatever processes run `serve` on one path,
at once, killed anywhere: if the socket at the path is that of a process that serves, its mode is
0600. A process whose socket another one has replaced may have set the permissions of that one
instead; but then it is not the one at the path. -/
theorem serve_socket_private (hnum : h.Numbered) {acts : List (Act Bool Choice Empty)}
    {pool : HostPool}
    (hrun : runs (hostSystem P faults flaky created socket parent).step { shared := h } acts =
      some pool) :
    ∀ t ∈ pool.tasks, ∀ l m, t.next? = some (.path (.serve l)) →
      pool.shared.entry = some (.socket l m) → m = 0o600 := by
  intro t ht l m hserve hentry
  obtain ⟨g, hissues, hg⟩ := (serve_among_others hnum hrun).2 t ht _ hserve
  cases hissues
  exact hg.2.2 m hentry

theorem staleHost_numbered : staleHost.Numbered := by
  intro l m heq
  obtain ⟨rfl, -⟩ := PathEntry.socket.inj (Option.some.inj heq)
  decide

/-- Two processes serve at once; the socket at the path is that of the second. -/
theorem serve_socket_private_two :
    ∃ pool : HostPool, runs staleSystem.step { shared := staleHost } (startServe 0 ++ startServe 1) =
        some pool ∧ pool.shown = (some (.socket 2 0o600), [true, true]) ∧
      ∀ t ∈ pool.tasks, ∀ l m, t.next? = some (.path (.serve l)) →
        pool.shared.entry = some (.socket l m) → m = 0o600 := by
  have hshown : (runs staleSystem.step { shared := staleHost } (startServe 0 ++ startServe 1)).map
      HostPool.shown = some (some (.socket 2 0o600), [true, true]) := by decide +kernel
  obtain ⟨pool, hrun, hshown⟩ := Option.map_eq_some_iff.mp hshown
  exact ⟨pool, hrun, hshown, serve_socket_private staleHost_numbered hrun⟩

/-! ## Who takes a socket away

A socket at the path stays until somebody removes what is there, and once gone it does not come back.
Its own process does not remove it before the serving has ended, so if it is gone earlier somebody
else has; and what that one was doing its log tells. -/

def HostCmd.removes : HostCmd → Bool
  | .path .removeFile => true
  | _ => false

def Host.removable (h : Host) : Bool :=
  match h.entry with
  | none => false
  | some .directory => false
  | some _ => true

theorem removeFile_cases {b : Bool} {r : Except Unit Unit}
    (hs : pathStep flaky created h .removeFile b = some (r, h')) :
    ((h.removable && b) = true ∧ h' = { h with entry := none }) ∨
      ((h.removable && b) = false ∧ h' = h) := by
  have hleft : ∀ {x : Except Unit Unit}, some (x, h) = some (r, h') → h' = h := by
    intro x heq
    cases heq
    rfl
  have hthere : (if b then some (Except.ok (), { h with entry := none })
      else if flaky then some (Except.error (), h) else none) = some (r, h') →
      (b = true ∧ h' = { h with entry := none }) ∨ (b = false ∧ h' = h) := by
    intro hs
    split at hs
    · rename_i hb
      cases hs
      exact .inl ⟨hb, rfl⟩
    · rename_i hb
      split at hs
      · exact .inr ⟨by simpa using hb, hleft hs⟩
      · cases hs
  cases hentry : h.entry with
  | none =>
    simp only [pathStep, hentry] at hs
    exact .inr ⟨by simp [Host.removable, hentry], hleft hs⟩
  | some x =>
    cases x with
    | directory =>
      simp only [pathStep, hentry] at hs
      exact .inr ⟨by simp [Host.removable, hentry], hleft hs⟩
    | file =>
      simp only [pathStep, hentry] at hs
      simpa [Host.removable, hentry] using hthere hs
    | socket l m =>
      simp only [pathStep, hentry] at hs
      simpa [Host.removable, hentry] using hthere hs

def Choice.succeeds : Choice → Bool
  | .io b => b
  | _ => false

/-- The action removes what is at the path. -/
def HostPool.unlinks (pool : HostPool) : Act Bool Choice Empty → Bool
  | .step i e =>
    (pool.tasks[i]?.bind Task.next?).any HostCmd.removes && pool.shared.removable && e.succeeds
  | _ => false

section Stays

variable {pool pool' : HostPool} {act : Act Bool Choice Empty} {l m : Nat}

/-- What one action does to the path. -/
theorem host_step (hstep : (hostSystem P faults flaky created socket parent).step pool act =
      some pool') :
    (pool.unlinks act = true ∧ pool'.shared.entry = none ∧
        pool'.shared.next = pool.shared.next) ∨
      pool.unlinks act = false ∧
        ((pool'.shared.entry = pool.shared.entry ∧ pool'.shared.next = pool.shared.next) ∨
          ∃ c, c ≠ .removeFile ∧ PathMove created pool.shared c pool'.shared) := by
  cases act with
  | spawn p =>
    simp only [System.step, Option.some.injEq] at hstep
    subst hstep
    exact .inr ⟨rfl, .inl ⟨rfl, rfl⟩⟩
  | cancel i =>
    obtain ⟨_, _, _, _, _, _, rfl⟩ := System.step_cancel hstep
    exact .inr ⟨rfl, .inl ⟨rfl, rfl⟩⟩
  | env x => exact x.elim
  | step i e =>
    obtain ⟨who, c, k, log, r, h', hi, hd, rfl⟩ := System.step_task hstep
    change hostDevice P faults flaky created c pool.shared e = some (r, h') at hd
    have hnext : pool.tasks[i]?.bind Task.next? = some c := by
      rw [hi]
      rfl
    simp only [HostPool.unlinks, hnext, Option.any_some]
    cases c with
    | cmd c => exact .inr ⟨rfl, .inl (hostDevice_cmd hd)⟩
    | path c =>
      obtain ⟨b, rfl, hb⟩ := hostDevice_path hd
      by_cases hc : c = .removeFile
      · subst hc
        rcases removeFile_cases hb with ⟨hun, rfl⟩ | ⟨hun, rfl⟩
        · exact .inl ⟨hun, rfl, rfl⟩
        · exact .inr ⟨hun, .inl ⟨rfl, rfl⟩⟩
      · have hnot : HostCmd.removes (.path c) = false := by
          cases c <;> first | rfl | exact absurd rfl hc
        exact .inr ⟨by rw [hnot]; rfl, .inr ⟨c, hc, pathStep_moves hb⟩⟩

/-- The socket is not at the path, and its number will not be given out again. -/
def Host.Lost (h : Host) (l : Nat) : Prop := (∀ m, h.entry ≠ some (.socket l m)) ∧ l < h.next

theorem host_step_lost (hl : pool.shared.Lost l)
    (hstep : (hostSystem P faults flaky created socket parent).step pool act = some pool') :
    pool'.shared.Lost l := by
  have hsame : ∀ {x : Option PathEntry}, x = none ∨ x = pool.shared.entry →
      pool'.shared.entry = x → pool'.shared.next = pool.shared.next → pool'.shared.Lost l := by
    intro x hx hentry hnext
    refine ⟨fun m hm => ?_, hnext ▸ hl.2⟩
    rcases hx with rfl | rfl
    · cases hentry.symm.trans hm
    · exact hl.1 m (hentry ▸ hm)
  rcases host_step hstep with ⟨-, hentry, hnext⟩ | ⟨-, ⟨hentry, hnext⟩ | ⟨c, hc, hm⟩⟩
  · exact hsame (.inl rfl) hentry hnext
  · exact hsame (.inr rfl) hentry hnext
  · generalize pool'.shared = h' at hm
    cases hm with
    | stay c => exact hl
    | unlink there => exact absurd rfl hc
    | bind empty =>
      refine ⟨fun m heq => ?_, Nat.lt_succ_of_lt hl.2⟩
      exact Nat.ne_of_lt hl.2 (PathEntry.socket.inj (Option.some.inj heq)).1.symm
    | chmod mode there =>
      refine ⟨fun m heq => ?_, hl.2⟩
      obtain ⟨rfl, -⟩ := PathEntry.socket.inj (Option.some.inj heq)
      exact hl.1 _ there

/-- A socket at the path stays unless it is removed. -/
theorem host_step_stays (hthere : pool.shared.entry = some (.socket l m))
    (hun : pool.unlinks act = false)
    (hstep : (hostSystem P faults flaky created socket parent).step pool act = some pool') :
    ∃ m', pool'.shared.entry = some (.socket l m') := by
  rcases host_step hstep with ⟨hun', -, -⟩ | ⟨-, ⟨hentry, -⟩ | ⟨c, hc, hm⟩⟩
  · cases hun.symm.trans hun'
  · exact ⟨m, hentry.trans hthere⟩
  · generalize pool'.shared = h' at hm
    cases hm with
    | stay c => exact ⟨m, hthere⟩
    | unlink there => exact absurd rfl hc
    | bind empty => cases empty.symm.trans hthere
    | chmod mode there =>
      obtain ⟨rfl, rfl⟩ := PathEntry.socket.inj (Option.some.inj (there.symm.trans hthere))
      exact ⟨mode, rfl⟩

/-- Once removed it is lost. -/
theorem host_step_unlinks (hl : l < pool.shared.next) (hun : pool.unlinks act = true)
    (hstep : (hostSystem P faults flaky created socket parent).step pool act = some pool') :
    pool'.shared.Lost l := by
  rcases host_step hstep with ⟨-, hentry, hnext⟩ | ⟨hun', -⟩
  · refine ⟨fun m heq => ?_, hnext ▸ hl⟩
    cases hentry.symm.trans heq
  · cases hun.symm.trans hun'

/-- Who removes the path is starting or stopping. -/
theorem unlinks_by {acts : List (Act Bool Choice Empty)}
    (hrun : runs (hostSystem P faults flaky created socket parent).step { shared := h } acts =
      some pool) (hun : pool.unlinks act = true) :
    ∃ j e u, act = .step j e ∧ pool.tasks[j]? = some u ∧ (Starting u.log ∨ Stopping u.log) := by
  cases act with
  | spawn p => cases hun
  | cancel i => cases hun
  | env x => exact x.elim
  | step j e =>
    simp only [HostPool.unlinks, Bool.and_eq_true, Option.any_eq_true, Option.bind_eq_some_iff] at hun
    obtain ⟨⟨⟨c, ⟨u, hu, hnext⟩, hc⟩, -⟩, -⟩ := hun
    obtain rfl : c = .path .removeFile := by
      unfold HostCmd.removes at hc
      split at hc
      · rfl
      · cases hc
    exact ⟨j, e, u, rfl, hu,
      runs_grounded (J := fun _ => serveRests) runServeAt_grounded hrun (List.mem_of_getElem? hu) hnext⟩

/-- A process that holds its listener after an action has just bound it or held it before. -/
theorem holding_before {i : Nat} {t : Task Bool HostCmd HostCmd.Res (Except ServeError Unit)}
    (hstep : (hostSystem P faults flaky created socket parent).step pool act = some pool')
    (ht : pool'.tasks[i]? = some t) (hhold : Holding l t.log) :
    (∃ m, pool'.shared.entry = some (.socket l m)) ∨
      ∃ u, pool.tasks[i]? = some u ∧ Holding l u.log := by
  rcases System.step_log hstep ht with hlog | ⟨u, hu, hlog⟩ | ⟨u, e, c, r, hu, hd, hlog⟩
  · rw [hlog] at hhold
    exact absurd hhold.1 List.not_mem_nil
  · exact .inr ⟨u, hu, hlog ▸ hhold⟩
  · rw [hlog] at hhold
    obtain ⟨hbound, hserve⟩ := hhold
    rcases List.mem_append.mp hbound with hbound | hbound
    · exact .inr ⟨u, hu, hbound, fun ev hev => hserve ev (List.mem_append_left _ hev)⟩
    · cases List.mem_singleton.mp hbound
      obtain ⟨b, rfl, hb⟩ := hostDevice_path hd
      obtain ⟨-, heq⟩ := bind_ok hb
      rw [heq]
      exact .inl ⟨created, rfl⟩

/-- Another process has removed the socket from the path, while it was starting or stopping. -/
def Displaced (M : System Bool HostCmd HostCmd.Res Host Choice Empty (Except ServeError Unit))
    (h : Host) (acts : List (Act Bool Choice Empty)) (i l : Nat) : Prop :=
  ∃ (before : List (Act Bool Choice Empty)) (j : Nat) (e : Choice)
    (after : List (Act Bool Choice Empty)) (mid : HostPool)
    (u : Task Bool HostCmd HostCmd.Res (Except ServeError Unit)),
    acts = before ++ .step j e :: after ∧ runs M.step { shared := h } before = some mid ∧
    (∃ m, mid.shared.entry = some (.socket l m)) ∧ mid.unlinks (.step j e) = true ∧
    j ≠ i ∧ mid.tasks[j]? = some u ∧ (Starting u.log ∨ Stopping u.log)

theorem Displaced.snoc {M : System Bool HostCmd HostCmd.Res Host Choice Empty (Except ServeError Unit)}
    {acts : List (Act Bool Choice Empty)} {i : Nat} (hd : Displaced M h acts i l)
    (act : Act Bool Choice Empty) : Displaced M h (acts ++ [act]) i l := by
  obtain ⟨before, j, e, after, mid, u, rfl, hrest⟩ := hd
  refine ⟨before, j, e, after ++ [act], mid, u, ?_, hrest⟩
  rw [List.append_assoc, List.cons_append]

/-- A process that holds its listener is reached at the path or has been displaced from it. -/
theorem holding_reached {acts : List (Act Bool Choice Empty)}
    (hrun : runs (hostSystem P faults flaky created socket parent).step { shared := h } acts =
      some pool) :
    ∀ i t l, pool.tasks[i]? = some t → Holding l t.log →
      (∃ m, pool.shared.entry = some (.socket l m)) ∨
        Displaced (hostSystem P faults flaky created socket parent) h acts i l := by
  refine runs_invariant_past (I := fun acts (pool : HostPool) =>
    ∀ i t l, pool.tasks[i]? = some t → Holding l t.log →
      (∃ m, pool.shared.entry = some (.socket l m)) ∨
        Displaced (hostSystem P faults flaky created socket parent) h acts i l)
    ?_ ?_ along_true hrun
  · intro i t l ht
    cases ht
  · intro past pool act pool' hpast hI _ hstep i t l ht hhold
    rcases holding_before hstep ht hhold with hnew | ⟨u, hu, hholds⟩
    · exact .inl hnew
    rcases hI i u l hu hholds with ⟨m, hthere⟩ | hgone
    · by_cases hun : pool.unlinks act = true
      · -- a process that holds its listener is at neither of the removals
        obtain ⟨j, e, v, rfl, hv, hby⟩ := unlinks_by hpast hun
        have hji : j ≠ i := by
          rintro rfl
          obtain rfl := Option.some.inj (hu.symm.trans hv)
          exact hholds.not_removes hby
        exact .inr ⟨past, j, e, [], pool, v, rfl, hpast, ⟨m, hthere⟩, hun, hji, hv, hby⟩
      · exact .inl (host_step_stays hthere (Bool.eq_false_iff.mpr hun) hstep)
    · exact .inr (hgone.snoc act)

/-- **Who serves and is not reached has been displaced.** However processes run on the path, killed
anywhere: the socket of a process that serves is not at the path exactly if another process has
removed it, one that had found the path taken and had not come to bind its own, or one that had
served and removed the path on its way out. -/
theorem serve_displaced_iff (hnum : h.Numbered) {acts : List (Act Bool Choice Empty)}
    (hrun : runs (hostSystem P faults flaky created socket parent).step { shared := h } acts =
      some pool) {i : Nat} {t : Task Bool HostCmd HostCmd.Res (Except ServeError Unit)}
    (ht : pool.tasks[i]? = some t) (hserve : t.next? = some (.path (.serve l))) :
    (∀ m, pool.shared.entry ≠ some (.socket l m)) ↔
      Displaced (hostSystem P faults flaky created socket parent) h acts i l := by
  constructor
  · intro hgone
    have hholds : Holding l t.log := runs_grounded (J := fun _ => serveRests) runServeAt_grounded hrun
      (List.mem_of_getElem? ht) hserve
    rcases holding_reached hrun i t l ht hholds with ⟨m, hthere⟩ | hd
    · exact absurd hthere (hgone m)
    · exact hd
  · rintro ⟨before, j, e, after, mid, u, rfl, hbefore, ⟨m, hthere⟩, hun, -⟩
    obtain ⟨mid', hmid, hrest⟩ := runs_append.mp hrun
    obtain rfl := Option.some.inj (hbefore.symm.trans hmid)
    obtain ⟨next, hstep, hafter⟩ := runs_cons.mp hrest
    have hl := (serve_among_others hnum hbefore).1 l m hthere
    have hlost : pool.shared.Lost l :=
      runs_invariant (I := fun pool : HostPool => pool.shared.Lost l)
        (fun _ _ _ hlost _ hstep => host_step_lost hlost hstep)
        (host_step_unlinks hl hun hstep) along_true hafter
    exact hlost.1

end Stays

/-- The `i`-th process gets its signal while it serves, and ends. -/
def stopServe (i : Nat) : List (Act Bool Choice Empty) :=
  (Choice.io true :: List.replicate 4 (performed 1) ++ [Choice.io true]).map (.step i)

def HostCmd.path? : HostCmd → Option PathCmd
  | .path c => some c
  | .cmd _ => none

/-- The path, and what the `i`-th process is about to do with it. -/
def HostPool.standing (i : Nat) (pool : HostPool) : Option PathEntry × Option PathCmd :=
  (pool.shared.entry, (pool.tasks[i]?.bind Task.next?).bind HostCmd.path?)

theorem serves_of_standing {acts : List (Act Bool Choice Empty)} {i l : Nat} {x : Option PathEntry}
    (hshown : (runs staleSystem.step { shared := staleHost } acts).map (HostPool.standing i) =
      some (x, some (.serve l))) :
    ∃ (pool : HostPool) (t : Task Bool HostCmd HostCmd.Res (Except ServeError Unit)),
      runs staleSystem.step { shared := staleHost } acts = some pool ∧ pool.shared.entry = x ∧
      pool.tasks[i]? = some t ∧ t.next? = some (.path (.serve l)) := by
  obtain ⟨pool, hrun, hshown⟩ := Option.map_eq_some_iff.mp hshown
  obtain ⟨hentry, hnext⟩ := Prod.mk.inj hshown
  obtain ⟨c, hc, hpath⟩ := Option.bind_eq_some_iff.mp hnext
  obtain ⟨t, ht, hnext⟩ := Option.bind_eq_some_iff.mp hc
  refine ⟨pool, t, hrun, hentry, ht, ?_⟩
  cases c with
  | cmd c => cases hpath
  | path c =>
    obtain rfl := Option.some.inj hpath
    exact hnext

/-- A second process starts while the first one serves and takes the path from it; then the first one
stops and takes the path from the second. -/
theorem serve_displaced_iff_both :
    Displaced staleSystem staleHost (startServe 0 ++ startServe 1) 0 1 ∧
      Displaced staleSystem staleHost (startServe 0 ++ startServe 1 ++ stopServe 0) 1 2 := by
  constructor
  · have hshown : (runs staleSystem.step { shared := staleHost } (startServe 0 ++ startServe 1)).map
        (HostPool.standing 0) = some (some (.socket 2 0o600), some (.serve 1)) := by decide +kernel
    obtain ⟨pool, t, hrun, hentry, ht, hserve⟩ := serves_of_standing hshown
    refine (serve_displaced_iff staleHost_numbered hrun ht hserve).mp fun m hm => ?_
    cases hentry.symm.trans hm
  · have hshown : (runs staleSystem.step { shared := staleHost }
        (startServe 0 ++ startServe 1 ++ stopServe 0)).map (HostPool.standing 1) =
          some (none, some (.serve 2)) := by decide +kernel
    obtain ⟨pool, t, hrun, hentry, ht, hserve⟩ := serves_of_standing hshown
    refine (serve_displaced_iff staleHost_numbered hrun ht hserve).mp fun m hm => ?_
    cases hentry.symm.trans hm

end Sceau
