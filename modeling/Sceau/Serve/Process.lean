import Sceau.Lib.Grounded
import Sceau.Lib.Outline
import Sceau.Node.Code

/-!
# `serve` as a process (`main.rs`)

`run_serve` from its first line to its last, as a process among others: the stale socket is removed,
the sealers are built, the socket is bound, its permissions are set, requests are served until the
shutdown signal, and the socket is removed. The process can be killed at any of its commands.

There is one path. The file system remembers what is there and numbers the sockets bound to it; a
process that listens is reached by clients as long as the socket at the path is the one it has bound.
The parents of the path and the entries that are not sockets are only as detailed as the code looks
at them.
-/

set_option autoImplicit false

namespace Sceau

open Lib

/-! ## The path -/

inductive PathEntry where
  | socket (listener mode : Nat)
  | file
  | directory
  deriving DecidableEq

inductive PathCmd where
  | createDirAll
  | «exists»
  | removeFile
  | bind
  | listen (listener : Nat)
  | setPermissions (mode : Nat)
  | serve (listener : Nat)
  deriving DecidableEq

@[reducible] def PathCmd.Res : PathCmd → Type
  | .exists => Bool
  | .bind => Except Unit Nat
  | _ => Except Unit Unit

inductive HostCmd where
  | cmd (c : Cmd)
  | path (c : PathCmd)

@[reducible] def HostCmd.Res : HostCmd → Type
  | .cmd c => c.Res
  | .path c => c.Res

abbrev HostCode (α : Type) : Type := Prog HostCmd HostCmd.Res α

structure Host where
  machine : Machine
  entry : Option PathEntry := none
  /-- the number of the next socket -/
  next : Nat := 0

def answer (b : Bool) : Except Unit Unit := if b then .ok () else .error ()

/-- What a command does to the path. `flaky` says whether looking at the path and removing what is
there can fail by themselves, `created` is the mode a new socket has. -/
def pathStep (flaky : Bool) (created : Nat) (h : Host) : (c : PathCmd) → Bool → Option (c.Res × Host)
  | .createDirAll, b => some (answer b, h)
  -- an error in looking is the same as nothing there
  | .exists, b => if b || flaky then some (b && h.entry.isSome, h) else none
  | .removeFile, b =>
    match h.entry with
    | none => some (.error (), h)
    | some .directory => some (.error (), h)
    | some _ =>
      if b then some (.ok (), { h with entry := none })
      else if flaky then some (.error (), h) else none
  -- `EADDRINUSE`, whatever it is that is there
  | .bind, b =>
    if b && h.entry.isNone then
      some (.ok h.next, { h with entry := some (.socket h.next created), next := h.next + 1 })
    else some (.error (), h)
  | .listen _, b => some (answer b, h)
  | .setPermissions mode, b =>
    match h.entry with
    | none => some (.error (), h)
    | some (.socket l _) =>
      if b then some (.ok (), { h with entry := some (.socket l mode) }) else some (.error (), h)
    | some _ => some (answer b, h)
  | .serve _, b => some (answer b, h)

def hostDevice (P : Platform) (faults : TpmCmd → Bool) (flaky : Bool) (created : Nat) :
    Device HostCmd HostCmd.Res Host Choice
  | .cmd c, h, e => (nodeDevice P faults c h.machine e).map fun x =>
      (x.1, { h with machine := x.2 })
  | .path c, h, .io b => pathStep flaky created h c b
  | .path _, _, _ => none

/-! ## The process -/

/-- `anyhow::Error` again, with the causes `run_serve` adds. -/
inductive ServeError where
  | io (contexts : List String)
  | any (e : AnyError)
  | transport

abbrev HostFallible (α : Type) : Type := ExceptT ServeError (Prog HostCmd HostCmd.Res) α

def onPath (c : PathCmd) : HostCode c.Res := .call (.path c) .ret

/-- Code that knows of no path. -/
def onHost {α : Type} : Code α → HostCode α
  | .ret a => .ret a
  | .call c k => .call (.cmd c) fun r => onHost (k r)

/-- A result of a path command under `with_context`. -/
def orFail {α : Type} (contexts : List String) : Except Unit α → HostFallible α
  | .ok a => pure a
  | .error () => throw (.io contexts)

section RunServe

variable (P : Platform) (socket : String) (parent : Option String)

def createParent : HostFallible Unit := do
  match parent with
  | none => return ()
  | some dir => orFail ["creating " ++ dir] (← liftM (onPath .createDirAll))

def clearStale : HostFallible Unit := do
  if ← liftM (onPath .exists) then
    orFail ["removing stale socket " ++ socket] (← liftM (onPath .removeFile))
  else return ()

/-- `UnixListener::bind` binds and listens. The permissions are set on the path. -/
def bindListener : HostFallible Nat := do
  let listener ← orFail ["binding " ++ socket] (← liftM (onPath .bind))
  orFail ["binding " ++ socket] (← liftM (onPath (.listen listener)))
  orFail [] (← liftM (onPath (.setPermissions 0o600)))
  return listener

/-- The sealers go out of scope, the last declared first. -/
def dropBuilt (sealer : TpmSealer) (legacySealer : Option TpmSealer) : Code Unit := do
  match legacySealer with
  | none => sealer.drop
  | some legacy =>
    legacy.drop
    sealer.drop

/-- `run_serve`. -/
def runServeAt (forceLegacy : Bool) : HostCode (Except ServeError Unit) := ExceptT.run do
  createParent parent
  clearStale socket
  match ← liftM (onHost (withContext "initializing TPM sealer" (chooseSealer P forceLegacy)).run) with
  | .error e => throw (.any e)
  | .ok (sealer, legacySealer) =>
    match ← liftM (bindListener socket).run with
    | .error e =>
      liftM (onHost (dropBuilt sealer legacySealer))
      throw e
    | .ok listener =>
      let service := match legacySealer with
        | some legacy => KmsService.withLegacyFallback sealer legacy
        | none => KmsService.new sealer
      let served ← liftM (onPath (.serve listener))
      liftM (onHost service.drop)
      match served with
      | .error () => throw .transport
      | .ok () =>
        let _ ← liftM (onPath .removeFile)
        return ()

end RunServe

abbrev HostPool : Type := Pool Bool HostCmd HostCmd.Res Host (Except ServeError Unit)

/-- Processes that run `serve` on one path, with or without `--force-legacy`. A process can be killed
at whatever command it is. -/
def hostSystem (P : Platform) (faults : TpmCmd → Bool) (flaky : Bool) (created : Nat)
    (socket : String) (parent : Option String) :
    System Bool HostCmd HostCmd.Res Host Choice Empty (Except ServeError Unit) where
  code := runServeAt P socket parent
  dev := fun _ => hostDevice P faults flaky created
  await := fun _ => true
  env := fun _ x => x.elim

variable {P : Platform} {faults : TpmCmd → Bool} {flaky : Bool} {created : Nat}
  {socket : String} {parent : Option String} {h h' : Host}

/-! ## One outline

The code is annotated once. What is asserted at its commands differs between a process that is alone
on the path and processes at once, and is a parameter. -/

theorem hostDevice_cmd {c : Cmd} {e : Choice} {r : c.Res}
    (hd : hostDevice P faults flaky created (.cmd c) h e = some (r, h')) :
    h'.entry = h.entry ∧ h'.next = h.next := by
  obtain ⟨x, -, heq⟩ := Option.map_eq_some_iff.mp hd
  simp only [Prod.mk.injEq] at heq
  rw [← heq.2]
  exact ⟨rfl, rfl⟩

theorem hostDevice_path {c : PathCmd} {e : Choice} {r : c.Res}
    (hd : hostDevice P faults flaky created (.path c) h e = some (r, h')) :
    ∃ b, e = .io b ∧ pathStep flaky created h c b = some (r, h') := by
  cases e with
  | io b => exact ⟨b, rfl, hd⟩
  | _ => cases hd

theorem onHost_only {α : Type} (p : Code α) : (onHost p).Only fun c => ∃ x, c = .cmd x := by
  induction p with
  | ret a => trivial
  | call c k ih => exact ⟨⟨c, rfl⟩, fun r => ih r⟩

/-- Where `run_serve` is with the path: it has been cleared, a listener is bound to it, the listener's
permissions are set; or none of these. -/
inductive PathStage where
  | rest
  | cleared
  | bound (listener : Nat)
  | opened (listener : Nat)

/-- The stage a process is in when it issues a command. -/
inductive PathStage.Issues : PathStage → HostCmd → Prop where
  | cmd (c : Cmd) : Issues .rest (.cmd c)
  | createDirAll : Issues .rest (.path .createDirAll)
  | «exists» : Issues .rest (.path .exists)
  | removeFile : Issues .rest (.path .removeFile)
  | bind : Issues .cleared (.path .bind)
  | listen (l : Nat) : Issues (.bound l) (.path (.listen l))
  | setPermissions (l : Nat) : Issues (.bound l) (.path (.setPermissions 0o600))
  | serve (l : Nat) : Issues (.opened l) (.path (.serve l))

/-- What is known of the path in each stage, and that the commands and the others leave it so. -/
structure PathOutline (flaky : Bool) (created : Nat) (rely : Host → Host → Prop)
    (holds : PathStage → Host → Prop) : Prop where
  rest : ∀ g h, holds g h → holds .rest h
  rely : ∀ g h h', holds g h → rely h h' → holds g h'
  cmd : ∀ g h h', h'.entry = h.entry → h'.next = h.next → holds g h → holds g h'
  exists_false : ∀ h b h', holds .rest h → pathStep flaky created h .exists b = some (false, h') →
    holds .cleared h'
  removeFile : ∀ h b r h', holds .rest h → pathStep flaky created h .removeFile b = some (r, h') →
    holds .rest h' ∧ (r = .ok () → holds .cleared h')
  bind : ∀ h b r h', holds .cleared h → pathStep flaky created h .bind b = some (r, h') →
    holds .rest h' ∧ ∀ l, r = .ok l → holds (.bound l) h'
  setPermissions : ∀ l h b r h', holds (.bound l) h →
    pathStep flaky created h (.setPermissions 0o600) b = some (r, h') →
    holds .rest h' ∧ (r = .ok () → holds (.opened l) h')

/-- The assertion at a command: what is known in its stage. -/
def Asserted (holds : PathStage → Host → Prop) (c : HostCmd) (h : Host) : Prop :=
  ∃ g, g.Issues c ∧ holds g h

section Outline

variable {rely : Host → Host → Prop} {holds : PathStage → Host → Prop}

/-- Commands that are not on the path keep the stage. -/
theorem PathOutline.onHost (st : PathOutline flaky created rely holds) {α : Type} (p : Code α) (g : PathStage)
    (hg : holds g h) :
    (onHost p).Meets (hostDevice P faults flaky created) rely (Asserted holds)
      (fun _ h' => holds g h') h := by
  refine Prog.Only.meets (Y := fun c => ∃ x, c = .cmd x) ?_ ?_ (st.rely g) (onHost_only p) hg
  · intro c h hc hg
    obtain ⟨c, rfl⟩ := hc
    exact ⟨.rest, .cmd c, st.rest g h hg⟩
  · intro c h e r h' hc hg hd
    obtain ⟨c, rfl⟩ := hc
    obtain ⟨hentry, hnext⟩ := hostDevice_cmd hd
    exact st.cmd g h h' hentry hnext hg

/-- One command on the path. -/
theorem PathOutline.onPath (st : PathOutline flaky created rely holds) {c : PathCmd} {g : PathStage}
    (hissues : g.Issues (.path c)) (hg : holds g h) {Q : c.Res → Host → Prop}
    (hstep : ∀ h₁ b r h₂, holds g h₁ → pathStep flaky created h₁ c b = some (r, h₂) →
      ∀ h₃, rely h₂ h₃ → Q r h₃) :
    (onPath c).Meets (hostDevice P faults flaky created) rely (Asserted holds) Q h := by
  intro h₁ hrely
  have hg₁ := st.rely g h h₁ hg hrely
  refine ⟨⟨g, hissues, hg₁⟩, fun e r h₂ hd => ?_⟩
  obtain ⟨b, rfl, hb⟩ := hostDevice_path hd
  exact hstep h₁ b r h₂ hg₁ hb

/-- The end of a part of `run_serve`: what it is for has been reached, or the process is at rest. -/
def Reaches {α : Type} (holds : PathStage → Host → Prop) (g : α → PathStage) (r : Except ServeError α)
    (h : Host) : Prop :=
  match r with
  | .ok a => holds (g a) h
  | .error _ => holds .rest h

theorem PathOutline.orFail (st : PathOutline flaky created rely holds) {α : Type} {g : α → PathStage}
    {contexts : List String} {r : Except Unit α}
    (hok : ∀ a, r = .ok a → holds (g a) h) (herr : holds .rest h) :
    (orFail contexts r).run.Meets (hostDevice P faults flaky created) rely (Asserted holds)
      (Reaches holds g) h := by
  cases r with
  | ok a => exact fun h' hrely => st.rely _ _ _ (hok a rfl) hrely
  | error e => exact fun h' hrely => st.rely _ _ _ herr hrely

/-- A process that ends at rest. -/
theorem PathOutline.ends (st : PathOutline flaky created rely holds) (r : Except ServeError Unit)
    (hrest : holds .rest h) :
    (Prog.ret r : HostCode (Except ServeError Unit)).Meets (hostDevice P faults flaky created) rely
      (Asserted holds) (fun _ h' => holds .rest h') h :=
  fun _ hrely => st.rely _ _ _ hrest hrely

variable (hrefl : ∀ h, rely h h)

include hrefl

theorem PathOutline.createParent (st : PathOutline flaky created rely holds) (hrest : holds .rest h) :
    (createParent parent).run.Meets (hostDevice P faults flaky created) rely (Asserted holds)
      (Reaches holds fun _ => .rest) h := by
  cases parent with
  | none => exact fun h' hrely => st.rely _ _ _ hrest hrely
  | some dir =>
    refine Prog.Meets.run_bind hrefl (Prog.Meets.run_lift (st.onPath .createDirAll hrest ?_))
    intro h₁ b r h₂ hg hstep h₃ hrely
    simp only [pathStep, Option.some.injEq, Prod.mk.injEq] at hstep
    obtain ⟨-, rfl⟩ := hstep
    have hg₃ := st.rely _ _ _ hg hrely
    exact st.orFail (fun _ _ => hg₃) hg₃

theorem PathOutline.clearStale (st : PathOutline flaky created rely holds) (hrest : holds .rest h) :
    (clearStale socket).run.Meets (hostDevice P faults flaky created) rely (Asserted holds)
      (Reaches holds fun _ => .cleared) h := by
  refine Prog.Meets.run_bind hrefl (Prog.Meets.run_lift (st.onPath .exists hrest ?_))
  intro h₁ b r h₂ hg hstep h₃ hrely
  cases r with
  | false => exact fun h' hrely' => st.rely _ _ _ (st.rely _ _ _ (st.exists_false _ _ _ hg hstep) hrely) hrely'
  | true =>
    have hsame : h₂ = h₁ := by
      simp only [pathStep] at hstep
      split at hstep
      · simp only [Option.some.injEq, Prod.mk.injEq] at hstep
        exact hstep.2.symm
      · cases hstep
    subst hsame
    refine Prog.Meets.run_bind hrefl
      (Prog.Meets.run_lift (st.onPath .removeFile (st.rely _ _ _ hg hrely) ?_))
    intro h₄ b' r' h₅ hg' hstep' h₆ hrely'
    obtain ⟨hrest', hok⟩ := st.removeFile _ _ _ _ hg' hstep'
    exact st.orFail (fun a ha => st.rely _ _ _ (hok ha) hrely') (st.rely _ _ _ hrest' hrely')

theorem PathOutline.bindListener (st : PathOutline flaky created rely holds) (hcleared : holds .cleared h) :
    (bindListener socket).run.Meets (hostDevice P faults flaky created) rely (Asserted holds)
      (Reaches holds fun l => .opened l) h := by
  refine Prog.Meets.run_bind hrefl (Prog.Meets.run_lift (st.onPath .bind hcleared ?_))
  intro h₁ b r h₂ hg hstep h₃ hrely
  obtain ⟨hrest, hok⟩ := st.bind _ _ _ _ hg hstep
  refine Prog.Meets.run_bind hrefl (Prog.Meets.mono ?_
    (st.orFail (g := fun l => .bound l) (fun l hl => st.rely _ _ _ (hok l hl) hrely)
      (st.rely _ _ _ hrest hrely)))
  intro r h₄ hr
  cases r with
  | error e => exact fun h' hrely' => st.rely _ _ _ hr hrely'
  | ok l =>
    refine Prog.Meets.run_bind hrefl (Prog.Meets.run_lift (st.onPath (.listen l) hr ?_))
    intro h₅ b r h₆ hg hstep h₇ hrely
    simp only [pathStep, Option.some.injEq, Prod.mk.injEq] at hstep
    obtain ⟨-, rfl⟩ := hstep
    have hbound := st.rely _ _ _ hg hrely
    refine Prog.Meets.run_bind hrefl (Prog.Meets.mono ?_
      (st.orFail (g := fun _ => .bound l) (fun _ _ => hbound) (st.rest _ _ hbound)))
    intro r h₈ hr
    cases r with
    | error e => exact fun h' hrely' => st.rely _ _ _ hr hrely'
    | ok a =>
      refine Prog.Meets.run_bind hrefl (Prog.Meets.run_lift (st.onPath (.setPermissions l) hr ?_))
      intro h₉ b r h₁₀ hg hstep h₁₁ hrely
      obtain ⟨hrest, hok⟩ := st.setPermissions l _ _ _ _ hg hstep
      refine Prog.Meets.run_bind hrefl (Prog.Meets.mono ?_
        (st.orFail (g := fun _ => .opened l) (fun _ ha => st.rely _ _ _ (hok ha) hrely)
          (st.rely _ _ _ hrest hrely)))
      intro r h₁₂ hr
      cases r with
      | error e => exact fun h' hrely' => st.rely _ _ _ hr hrely'
      | ok a => exact fun h' hrely' => st.rely _ _ _ hr hrely'

/-- **`run_serve` meets its assertions**, whatever they are taken to be. -/
theorem PathOutline.runServeAt (st : PathOutline flaky created rely holds)
    (forceLegacy : Bool) (hrest : holds .rest h) :
    (runServeAt P socket parent forceLegacy).Meets (hostDevice P faults flaky created) rely
      (Asserted holds) (fun _ h' => holds .rest h') h := by
  refine Prog.Meets.run_bind hrefl (Prog.Meets.mono ?_ (st.createParent hrefl hrest))
  intro r h₁ hr
  cases r with
  | error e => exact st.ends _ hr
  | ok a =>
  refine Prog.Meets.run_bind hrefl (Prog.Meets.mono ?_ (st.clearStale hrefl hr))
  intro r h₂ hr
  cases r with
  | error e => exact st.ends _ hr
  | ok a =>
  refine Prog.Meets.run_bind hrefl (Prog.Meets.run_lift (Prog.Meets.mono ?_
    (st.onHost _ .cleared hr)))
  intro r h₃ hcleared
  cases r with
  | error e => exact st.ends _ (st.rest _ _ hcleared)
  | ok built =>
  obtain ⟨sealer, legacySealer⟩ := built
  refine Prog.Meets.run_bind hrefl (Prog.Meets.run_lift (Prog.Meets.mono ?_
    (st.bindListener hrefl hcleared)))
  intro r h₄ hr
  cases r with
  | error e =>
    refine Prog.Meets.run_bind hrefl (Prog.Meets.run_lift (Prog.Meets.mono ?_
      (st.onHost _ .rest hr)))
    intro _ h₅ hrest
    exact st.ends _ hrest
  | ok listener =>
    refine Prog.Meets.run_bind hrefl (Prog.Meets.run_lift (st.onPath (.serve listener) hr ?_))
    intro h₅ b served h₆ hg hstep h₇ hrely
    simp only [pathStep, Option.some.injEq, Prod.mk.injEq] at hstep
    obtain ⟨-, rfl⟩ := hstep
    have hrest := st.rest _ _ (st.rely _ _ _ hg hrely)
    refine Prog.Meets.run_bind hrefl (Prog.Meets.run_lift (Prog.Meets.mono ?_
      (st.onHost _ .rest hrest)))
    intro _ h₈ hrest
    cases served with
    | error e => exact st.ends _ hrest
    | ok a =>
      refine Prog.Meets.run_bind hrefl (Prog.Meets.run_lift (st.onPath .removeFile hrest ?_))
      intro h₉ b r h₁₀ hg hstep h₁₁ hrely
      exact st.ends _ (st.rely _ _ _ (st.removeFile _ _ _ _ hg hstep).1 hrely)

end Outline

/-! ## What a removal rests on

`run_serve` removes the path at two places, before it binds and after it has served. Which of the two
it is can be told from what the process has done, and neither lies between the binding and the end of
the serving. This is about the code alone: no path and no other process occurs in it. -/

abbrev HostEvent : Type := Event HostCmd HostCmd.Res

/-- The process has seen something at the path and has not come to bind it: what it removes is what
it takes for a stale socket. -/
def Starting (log : List HostEvent) : Prop :=
  (⟨.path .exists, true⟩ : HostEvent) ∈ log ∧ ∀ ev ∈ log, ev.1 ≠ .path .bind

/-- The process has served until its signal: what it removes is what it takes for its own socket. -/
def Stopping (log : List HostEvent) : Prop :=
  ∃ l, (⟨.path (.serve l), .ok ()⟩ : HostEvent) ∈ log

/-- The process has bound this listener and its serving has not ended. -/
def Holding (l : Nat) (log : List HostEvent) : Prop :=
  (⟨.path .bind, .ok l⟩ : HostEvent) ∈ log ∧ ∀ ev ∈ log, ∀ l', ev.1 ≠ .path (.serve l')

/-- What a command of `run_serve` rests on. -/
def serveRests (log : List HostEvent) : HostCmd → Prop
  | .path .removeFile => Starting log ∨ Stopping log
  | .path (.serve l) => Holding l log
  | _ => True

section Rests

variable {log : List HostEvent} {l : Nat}

theorem Holding.not_removes (hl : Holding l log) : ¬ (Starting log ∨ Stopping log) := by
  rintro (⟨-, hbind⟩ | ⟨l', hserve⟩)
  · exact hbind _ hl.1 rfl
  · exact hl.2 _ hserve l' rfl

theorem Holding.snoc (hl : Holding l log) (c : HostCmd) (hc : ∀ l', c ≠ .path (.serve l')) (r : c.Res) :
    Holding l (log ++ [⟨c, r⟩]) :=
  ⟨List.mem_append_left _ hl.1, List.forall_mem_append.mpr ⟨hl.2, List.forall_mem_singleton.mpr hc⟩⟩

/-- The process has neither bound nor served. -/
def Unbound (log : List HostEvent) : Prop :=
  ∀ ev ∈ log, ev.1 ≠ .path .bind ∧ ∀ l, ev.1 ≠ .path (.serve l)

theorem Unbound.snoc (hlog : Unbound log) (c : HostCmd)
    (hc : c ≠ .path .bind ∧ ∀ l, c ≠ .path (.serve l)) (r : c.Res) : Unbound (log ++ [⟨c, r⟩]) :=
  List.forall_mem_append.mpr ⟨hlog, List.forall_mem_singleton.mpr hc⟩

theorem serveRests_cmd (log : List HostEvent) (c : HostCmd) (hc : ∃ x, c = .cmd x) :
    serveRests log c := by
  obtain ⟨x, rfl⟩ := hc
  trivial

theorem onHost_unbound {α : Type} (p : Code α) (hlog : Unbound log) :
    (onHost p).Grounded serveRests (fun log' _ => Unbound log') log := by
  refine Prog.Only.grounded_all (Z := fun c : HostCmd => c ≠ .path .bind ∧ ∀ l, c ≠ .path (.serve l))
    serveRests_cmd ?_ (onHost_only p) hlog
  rintro _ ⟨c, rfl⟩
  exact ⟨nofun, nofun⟩

theorem orFail_grounded {α : Type} {contexts : List String} {r : Except Unit α}
    {Q : List HostEvent → α → Prop} (hok : ∀ a, r = .ok a → Q log a) :
    Prog.GroundedOk serveRests (orFail contexts r) Q log := by
  cases r with
  | ok a => exact Prog.GroundedOk.pure (hok a rfl)
  | error e => exact fun _ ha => nomatch ha

theorem orFail_bind_grounded {α β : Type} {contexts : List String} {r : Except Unit α}
    {f : α → HostFallible β} {Q : List HostEvent → β → Prop}
    (hok : ∀ a, r = .ok a → Prog.GroundedOk serveRests (f a) Q log) :
    Prog.GroundedOk serveRests (orFail contexts r >>= f) Q log := by
  cases r with
  | ok a => exact hok a rfl
  | error e => exact fun _ ha => nomatch ha

theorem createParent_grounded (hlog : Unbound log) :
    Prog.GroundedOk serveRests (createParent parent) (fun log' _ => Unbound log') log := by
  cases parent with
  | none => exact Prog.GroundedOk.pure hlog
  | some dir =>
    refine Prog.GroundedOk.call trivial fun r => ?_
    exact orFail_grounded fun _ _ => hlog.snoc (.path .createDirAll) ⟨nofun, nofun⟩ r

theorem clearStale_grounded (hlog : Unbound log) :
    Prog.GroundedOk serveRests (clearStale socket) (fun log' _ => Unbound log') log := by
  refine Prog.GroundedOk.call trivial fun there => ?_
  have hlog' := hlog.snoc (.path .exists) ⟨nofun, nofun⟩ there
  cases there with
  | false => exact Prog.GroundedOk.pure hlog'
  | true =>
    refine Prog.GroundedOk.call (.inl ⟨by simp, fun ev hev => (hlog' ev hev).1⟩) fun r => ?_
    exact orFail_grounded fun _ _ => hlog'.snoc (.path .removeFile) ⟨nofun, nofun⟩ r

theorem bindListener_grounded (hlog : Unbound log) :
    Prog.GroundedOk serveRests (bindListener socket) (fun log' l => Holding l log') log := by
  refine Prog.GroundedOk.call trivial fun r => orFail_bind_grounded ?_
  rintro l rfl
  have hl : Holding l (log ++ [⟨.path .bind, .ok l⟩]) := by
    refine ⟨by simp, List.forall_mem_append.mpr ⟨fun ev hev => (hlog ev hev).2, ?_⟩⟩
    exact List.forall_mem_singleton.mpr nofun
  -- neither listening nor the permissions change that
  refine Prog.GroundedOk.call trivial fun r => orFail_bind_grounded fun _ _ => ?_
  have hl₁ := hl.snoc (.path (.listen l)) nofun r
  refine Prog.GroundedOk.call trivial fun r => orFail_bind_grounded fun _ _ => ?_
  exact Prog.GroundedOk.pure (hl₁.snoc (.path (.setPermissions 0o600)) nofun r)

/-- **`run_serve` removes the path only while it starts or after it has served.** -/
theorem runServeAt_grounded (forceLegacy : Bool) :
    (runServeAt P socket parent forceLegacy).Grounded serveRests (fun _ _ => True) [] := by
  refine Prog.Grounded.mono (B := fun log' r => ∀ a, r = .ok a → True) (fun _ _ _ => trivial) ?_
  have hnil : Unbound [] := fun _ hev => absurd hev List.not_mem_nil
  refine Prog.GroundedOk.bind (createParent_grounded hnil) ?_
  intro _ log₁ _ hlog
  refine Prog.GroundedOk.bind (clearStale_grounded hlog) ?_
  intro _ log₂ _ hlog
  refine Prog.GroundedOk.bind (Q := fun log' _ => Unbound log') (Prog.GroundedOk.lift ?_) ?_
  · exact onHost_unbound _ hlog
  intro built log₃ _ hlog
  cases built with
  | error e => exact fun _ _ => trivial
  | ok built =>
  obtain ⟨sealer, legacySealer⟩ := built
  refine Prog.GroundedOk.bind (Q := fun log' r => ∀ l, r = .ok l → Holding l log')
    (Prog.GroundedOk.lift ?_) ?_
  · exact bindListener_grounded hlog
  intro r log₄ _ hr
  cases r with
  | error e =>
    refine Prog.GroundedOk.bind (Q := fun _ _ => True) (Prog.GroundedOk.lift ?_) ?_
    · exact (onHost_only _).grounded serveRests_cmd
    exact fun _ _ _ _ _ _ => trivial
  | ok l =>
    refine Prog.GroundedOk.call (hr l rfl) fun served => ?_
    refine Prog.GroundedOk.bind (Q := fun _ _ => True) (Prog.GroundedOk.lift ?_) ?_
    · exact (onHost_only _).grounded serveRests_cmd
    intro _ log₅ hlonger _
    cases served with
    | error e => exact fun _ _ => trivial
    | ok a =>
      refine Prog.GroundedOk.call (.inr ⟨l, hlonger ?_⟩) fun _ => Prog.GroundedOk.pure trivial
      exact List.mem_append_right _ List.mem_cons_self

end Rests

end Sceau
