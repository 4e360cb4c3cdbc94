import Sceau.Lib.Lock
import Sceau.Node.Advertised

/-!
# Requests at the same time (`kms.rs`)

The apiserver's requests are handled by tasks of their own, on several threads, and meet in the two
mutexes of the service. `Node/Code.lean` has a handler as it runs alone; here it is cut where the
others can come in, between any two of its commands, taking and giving back a lock being commands
too. The handlers await nothing, so none of them is dropped half way.

What the mutexes are for, by their comment, is that the TPM sees one thread. They give that for each
sealer: whatever the interleaving, the commands on a sealer's context are those of the one request
that holds its lock. Nothing is ever stuck, and ten steps a request answer it.
-/

set_option autoImplicit false

namespace Sceau

open Lib

/-! ## The handlers

The code of `kms.rs` once more, now with `lock` and the end of a guard as commands of their own. A
guard ends where its scope does: `decrypt` gives the preferred sealer's back before it takes the
legacy one. -/

/-- The two mutexes of `KmsService`. -/
inductive SealerLock where
  | sealer
  | legacySealer
  deriving DecidableEq

abbrev ServeCode (α : Type) : Type := LockProg SealerLock Cmd Cmd.Res α

/-- What the mutexes of a service are around. -/
structure Sealers where
  sealer : TpmSealer
  legacySealer : Option TpmSealer

inductive KmsRequest where
  | status
  | encrypt (plaintext : Bytes)
  | decrypt (keyId : String) (ciphertext : Bytes)

def SealerLock.lock (l : SealerLock) : ServeCode Bool := .call (.lock l) .ret

def SealerLock.unlock (l : SealerLock) (poison : Bool) : ServeCode Unit :=
  .call (.unlock l poison) .ret

/-- A call on the sealer whose lock is held, up to the end of the guard: it gives the lock back, and
poisons it when it is dropped by a panic. -/
def SealerLock.call {α : Type} (l : SealerLock) (f : Fallible (Failure TpmError) α) :
    ServeCode (Except (Failure KmsStatus) α) := do
  match ← f.run.inside with
  | .ok a =>
    l.unlock false
    return .ok a
  | .error (.error e) =>
    l.unlock false
    return .error (.error (.internal (.tpm e)))
  | .error .panic =>
    l.unlock true
    return .error .panic

namespace Sealers

variable (P : Platform) (self : Sealers)

/-- The service of these sealers, as it starts. -/
def service : KmsService := serviceOf self.sealer self.legacySealer

/-- `KmsService::key_id`. -/
def keyId : ServeCode String := do
  if ← SealerLock.sealer.lock then return ""
  else
    SealerLock.sealer.unlock false
    return self.sealer.keyId

/-- `status`. -/
def status : ServeCode StatusResponse := do
  let keyId ← self.keyId
  return { version := "v2", healthz := "ok", keyId }

/-- `encrypt`. -/
def encrypt (plaintext : Bytes) : ServeCode (Except (Failure KmsStatus) EncryptResponse) := do
  if ← SealerLock.sealer.lock then return .error (.error (.internal .poisoned))
  else
    let sealed ← SealerLock.sealer.call (self.sealer.seal P plaintext)
    return sealed.map fun ciphertext => { ciphertext, keyId := self.sealer.keyId }

/-- `decrypt`. -/
def decrypt (keyId : String) (ciphertext : Bytes) : ServeCode (Except (Failure KmsStatus) Bytes) := do
  if ← SealerLock.sealer.lock then return .error (.error (.internal .poisoned))
  else if keyId = self.sealer.keyId then
    SealerLock.sealer.call (self.sealer.unseal P ciphertext)
  else
    SealerLock.sealer.unlock false
    match self.legacySealer with
    | none => return .error (.error (KmsService.unknownKeyId keyId))
    | some legacy =>
      if ← SealerLock.legacySealer.lock then return .error (.error (.internal .poisoned))
      else if keyId = legacy.keyId then
        SealerLock.legacySealer.call (legacy.unseal P ciphertext)
      else
        SealerLock.legacySealer.unlock false
        return .error (.error (KmsService.unknownKeyId keyId))

def handle : KmsRequest → ServeCode KmsOutcome
  | .status => do return .status (← self.status)
  | .encrypt plaintext => do return .encrypt (← self.encrypt P plaintext)
  | .decrypt keyId ciphertext => do return .decrypt (← self.decrypt P keyId ciphertext)

end Sealers

abbrev ServePool : Type :=
  Pool KmsRequest (LockCmd SealerLock Cmd) (LockCmd.Res Cmd.Res) (Guarded SealerLock Machine)
    KmsOutcome

/-- A running `serve`: its requests, in any order and number, on its two sealers. -/
def serveSystem (P : Platform) (faults : TpmCmd → Bool) (sealers : Sealers) :
    System KmsRequest (LockCmd SealerLock Cmd) (LockCmd.Res Cmd.Res) (Guarded SealerLock Machine)
      (Option Choice) Empty KmsOutcome :=
  lockSystem (sealers.handle P) (nodeDevice P faults)

/-- No request yet. -/
def ServePool.start (m : Machine) : ServePool := { shared := { state := m } }

/-! ## Whose commands they are

Both operations of a sealer stay on its own context and create under its own key. -/

/-- The commands of `seal` and `unseal` on this sealer. -/
def TpmSealer.Issues (self : TpmSealer) : Cmd → Prop
  | .tpm ctx c => ctx.id = self.context.id ∧
    match c with
    | .startAuthSession _ => True
    | .trSessSetAttributes _ _ => True
    | .create parent _ _ => parent = self.primary
    | .load _ _ _ => True
    | .unseal _ => True
    | .flushContext _ => True
    | _ => False
  | _ => False

section Commands

variable {ε α : Type} [FromTss ε] {ctx : Context} {f : Context → Fallible ε α}

theorem nullauth_issues {self : TpmSealer} (hctx : ctx.id = self.context.id)
    (hbody : ∀ ctx', ctx'.id = self.context.id → (f ctx').run.Only self.Issues) :
    (ctx.executeWithNullauthSession f).run.Only self.Issues := by
  unfold Context.executeWithNullauthSession
  refine Prog.Only.run_bind (only_tpmCall ⟨hctx, trivial⟩) fun s => ?_
  cases s with
  | none => trivial
  | some s =>
    refine Prog.Only.run_bind (only_tpmCall ⟨hctx, trivial⟩) fun _ => ?_
    refine Prog.Only.run_bind (Prog.Only.bind (hbody _ hctx) fun _ => trivial) fun res => ?_
    exact Prog.Only.run_bind (only_tpmCall ⟨hctx, trivial⟩) fun _ => trivial

theorem tpmCall_within (ctx : Context) (c : TpmCmd) : (tpmCall (ε := ε) ctx c).run.Within 1 :=
  fun _ => trivial

/-- Three commands around the closure's. -/
theorem nullauth_within {n : Nat} (hbody : ∀ ctx', (f ctx').run.Within n) :
    (ctx.executeWithNullauthSession f).run.Within (n + 3) := by
  unfold Context.executeWithNullauthSession
  refine Prog.Within.mono (m := 1 + (1 + (n + (1 + 0)))) (by omega)
    (Prog.Within.run_bind (tpmCall_within _ _) fun s => ?_)
  cases s with
  | none => trivial
  | some s =>
    refine Prog.Within.run_bind (tpmCall_within _ _) fun _ => ?_
    refine Prog.Within.run_bind (m := n) (n := 1 + 0) ?_ fun res => ?_
    · exact Prog.Within.mono (Nat.le_of_eq (Nat.add_zero n))
        (Prog.Within.bind (hbody _) fun _ => trivial)
    · exact Prog.Within.run_bind (tpmCall_within _ _) fun _ => trivial

end Commands

namespace TpmSealer

variable (P : Platform) (self : TpmSealer)

theorem seal_issues (plaintext : Bytes) : (self.seal P plaintext).run.Only self.Issues := by
  unfold TpmSealer.seal
  split
  · trivial
  · refine Prog.Only.run_bind (nullauth_issues rfl fun ctx hctx => only_tpmCall ⟨hctx, rfl⟩) ?_
    intro created
    dsimp only
    split <;> trivial

theorem unseal_issues (ciphertext : Bytes) : (self.unseal P ciphertext).run.Only self.Issues := by
  unfold TpmSealer.unseal
  split
  · trivial
  · trivial
  · refine nullauth_issues rfl fun ctx hctx => ?_
    refine Prog.Only.run_bind (only_tpmCall ⟨hctx, trivial⟩) fun handle => ?_
    refine Prog.Only.run_bind (only_tpmCall ⟨hctx, trivial⟩) fun data => ?_
    exact Prog.Only.run_bind (only_tpmCall ⟨hctx, trivial⟩) fun _ => trivial

theorem seal_within (plaintext : Bytes) : (self.seal P plaintext).run.Within 4 := by
  unfold TpmSealer.seal
  split
  · trivial
  · refine Prog.Within.run_bind (m := 4) (n := 0) (nullauth_within (n := 1) fun _ _ => trivial) ?_
    intro created
    dsimp only
    split <;> trivial

theorem unseal_within (ciphertext : Bytes) : (self.unseal P ciphertext).run.Within 6 := by
  unfold TpmSealer.unseal
  split
  · trivial
  · trivial
  · refine nullauth_within (n := 3) fun ctx => ?_
    refine Prog.Within.run_bind (m := 1) (n := 2) (tpmCall_within _ _) fun handle => ?_
    refine Prog.Within.run_bind (m := 1) (n := 1) (tpmCall_within _ _) fun data => ?_
    exact Prog.Within.run_bind (m := 1) (n := 0) (tpmCall_within _ _) fun _ => trivial

end TpmSealer

/-! ## Discipline

A handler takes a lock it does not have, issues a sealer's commands only under that sealer's lock, and
has given back what it took when it ends. -/

namespace Sealers

variable (P : Platform) (self : Sealers)

/-- The sealer behind a lock. -/
def behind : SealerLock → Option TpmSealer
  | .sealer => some self.sealer
  | .legacySealer => self.legacySealer

/-- The sealer that is ever asked behind a lock: not a legacy one with the preferred one's `key_id`,
which `decrypt` never comes to. -/
def asked : SealerLock → Option TpmSealer
  | .sealer => some self.sealer
  | .legacySealer => self.legacySealer.filter fun s => s.keyId ≠ self.sealer.keyId

/-- The commands a lock is for. -/
def Guards (l : SealerLock) (c : Cmd) : Prop := ∃ s, self.asked l = some s ∧ s.Issues c

variable {P self}

theorem behind_of_asked {l : SealerLock} {s : TpmSealer} (h : self.asked l = some s) :
    self.behind l = some s := by
  cases l with
  | sealer => exact h
  | legacySealer => exact (Option.filter_eq_some_iff.mp h).1

theorem asked_legacy {legacy : TpmSealer} (h : self.legacySealer = some legacy)
    (hkey : legacy.keyId ≠ self.sealer.keyId) : self.asked .legacySealer = some legacy :=
  Option.filter_eq_some_iff.mpr ⟨h, by simpa using hkey⟩

theorem call_disciplined {α : Type} {l : SealerLock} {s : TpmSealer}
    {f : Fallible (Failure TpmError) α} (hs : self.asked l = some s) (hf : f.run.Only s.Issues) :
    (l.call f).Disciplined self.Guards (some l) := by
  refine Prog.Disciplined.inside_bind (hf.mono fun c hc => ⟨s, hs, hc⟩) fun r => ?_
  match r with
  | .ok a => exact ⟨rfl, rfl⟩
  | .error (.error e) => exact ⟨rfl, rfl⟩
  | .error .panic => exact ⟨rfl, rfl⟩

theorem call_within {α : Type} {l : SealerLock} {f : Fallible (Failure TpmError) α} {n : Nat}
    (hf : f.run.Within n) : (l.call f).Within (n + 1) := by
  refine Prog.Within.bind hf.inside fun r => ?_
  match r with
  | .ok a => exact fun _ => trivial
  | .error (.error e) => exact fun _ => trivial
  | .error .panic => exact fun _ => trivial

/-- **Every handler is disciplined.** -/
theorem handle_disciplined (request : KmsRequest) :
    (self.handle P request).Disciplined self.Guards none := by
  cases request with
  | status => exact ⟨rfl, rfl, rfl, rfl⟩
  | encrypt plaintext =>
    refine Prog.Disciplined.bind (p := self.encrypt P plaintext) ⟨rfl, rfl, ?_⟩ fun _ => rfl
    show Prog.Disciplined _ _ ((SealerLock.sealer.call (self.sealer.seal P plaintext)).bind _)
    exact Prog.Disciplined.bind (call_disciplined rfl (TpmSealer.seal_issues P _ _)) fun _ => rfl
  | decrypt keyId ciphertext =>
    refine Prog.Disciplined.bind (p := self.decrypt P keyId ciphertext) ⟨rfl, rfl, ?_⟩ fun _ => rfl
    show Prog.Disciplined _ _ (if keyId = self.sealer.keyId then _ else _)
    split
    · exact call_disciplined rfl (TpmSealer.unseal_issues P _ _)
    · rename_i hother
      refine ⟨rfl, ?_⟩
      cases hlegacy : self.legacySealer with
      | none => exact rfl
      | some legacy =>
        refine ⟨rfl, rfl, ?_⟩
        show Prog.Disciplined _ _ (if keyId = legacy.keyId then _ else _)
        split
        · rename_i hkey
          exact call_disciplined (asked_legacy hlegacy (hkey ▸ hother))
            (TpmSealer.unseal_issues P _ _)
        · exact ⟨rfl, rfl⟩

theorem encrypt_within (plaintext : Bytes) : (self.encrypt P plaintext).Within 6 := by
  intro poisoned
  cases poisoned with
  | true => trivial
  | false =>
    show Prog.Within 5 ((SealerLock.sealer.call (self.sealer.seal P plaintext)).bind _)
    exact Prog.Within.bind (m := 5) (n := 0) (call_within (TpmSealer.seal_within P _ _))
      fun _ => trivial

theorem decrypt_within (keyId : String) (ciphertext : Bytes) :
    (self.decrypt P keyId ciphertext).Within 10 := by
  have hcall : ∀ (l : SealerLock) (s : TpmSealer), (l.call (s.unseal P ciphertext)).Within 7 :=
    fun l s => call_within (TpmSealer.unseal_within P s ciphertext)
  intro poisoned
  cases poisoned with
  | true => trivial
  | false =>
    show Prog.Within 9 (if keyId = self.sealer.keyId then _ else _)
    split
    · exact (hcall _ _).mono (by omega)
    · intro _
      cases hlegacy : self.legacySealer with
      | none => trivial
      | some legacy =>
        intro poisoned
        cases poisoned with
        | true => trivial
        | false =>
          show Prog.Within 7 (if keyId = legacy.keyId then _ else _)
          split
          · exact hcall _ _
          · exact fun _ => trivial

/-- Ten commands answer a request: the longest is a `Decrypt` with the legacy key. -/
theorem handle_within (request : KmsRequest) : (self.handle P request).Within 10 := by
  cases request with
  | status =>
    intro poisoned
    cases poisoned with
    | true => trivial
    | false => exact fun _ => trivial
  | encrypt plaintext =>
    exact Prog.Within.mono (m := 6 + 0) (by omega)
      (Prog.Within.bind (encrypt_within plaintext) fun _ => trivial)
  | decrypt keyId ciphertext =>
    exact Prog.Within.bind (m := 10) (n := 0) (decrypt_within keyId ciphertext) fun _ => trivial

end Sealers

/-! ## One at a time

Of disciplined tasks at most one holds a lock. That this separates the commands on a context, and not
only the locks, needs the two sealers to be on contexts of their own. -/

section Exclusion

variable {P : Platform} {faults : TpmCmd → Bool} {m m' : Machine}

/-- The sealers of a service. -/
def KmsService.sealers (self : KmsService) : Sealers :=
  { sealer := self.sealer.value, legacySealer := self.legacySealer.map (·.value) }

/-- A sealer of its own is on a new context. -/
theorem TpmSealer.new_context :
    Prog.wpOk (nodeDevice P faults) (TpmSealer.new P) (fun s _ => s.context.id = m.tpm.next) m := by
  unfold TpmSealer.new
  refine Prog.wpOk_bind (wpOk_contextNew ?_)
  refine Prog.wpOk_bind (Prog.wp_always _ fun _ _ _ _ _ => Prog.wpOk_pure rfl)

theorem TpmSealer.fromPrimary_context {context : Context} {primary : Handle} :
    Prog.wpOk (nodeDevice P faults) (TpmSealer.fromPrimary P context primary)
      (fun s _ => s.context = context) m := by
  unfold TpmSealer.fromPrimary
  exact Prog.wpOk_bind (Prog.wp_always _ fun _ _ _ _ _ => Prog.wpOk_pure rfl)

/-- The two sealers are on contexts of their own. -/
def Sealers.Apart (self : Sealers) : Prop :=
  ∀ legacy ∈ self.legacySealer, legacy.context.id ≠ self.sealer.context.id

theorem Sealers.apart_none (s : TpmSealer) : Sealers.Apart ⟨s, none⟩ := by
  intro legacy h
  cases h

theorem buildSealer_apart :
    Prog.wpOk (nodeDevice P faults) (buildSealer P) (fun x _ => Sealers.Apart ⟨x.1, x.2⟩) m := by
  unfold buildSealer
  refine Prog.wpOk_bind (Prog.wpOk_mapErr (wpOk_contextNew ?_))
  refine Prog.wpOk_bind (Prog.wp_run_lift.mpr (Prog.wp_mono ?_ (next_le _ _)))
  intro tr found m₁ hprobe found' hfound
  obtain rfl := Except.ok.inj hfound
  cases found with
  | error e =>
    refine Prog.wpOk_bind (Prog.wp_always _ ?_)
    intro tr r m₂ s _
    exact Prog.wpOk_pure (Sealers.apart_none s)
  | ok fleetKey =>
    refine Prog.wpOk_bind (Prog.wpOk_mapErr (Prog.wp_mono ?_
      (Prog.wp_and TpmSealer.fromPrimary_context (next_le _ m₁))))
    intro tr r m₂ hr s hs
    refine Prog.wpOk_bind (Prog.wpOk_mapErr (Prog.wpOk_mapErr
      (Prog.wpOk_mono ?_ TpmSealer.new_context)))
    intro legacy m₃ hlegacy
    refine Prog.wpOk_pure fun legacy' hmem => ?_
    obtain rfl := Option.some.inj hmem
    -- the probe's number was given out before
    have hlt : m.tpm.next < m₂.tpm.next := Nat.lt_of_lt_of_le (Nat.lt_succ_self _)
      (Nat.le_trans hprobe hr.2)
    rw [hlegacy, hr.1 s hs]
    exact Nat.ne_of_gt hlt

theorem runServe_apart {forceLegacy : Bool} :
    Prog.wpOk (nodeDevice P faults) (runServe P forceLegacy)
      (fun service _ => service.sealers.Apart) m := by
  have hchoose : Prog.wpOk (nodeDevice P faults) (chooseSealer P forceLegacy)
      (fun x _ => Sealers.Apart ⟨x.1, x.2⟩) m := by
    unfold chooseSealer
    split
    · refine Prog.wpOk_bind (Prog.wp_always _ ?_)
      intro tr r m₂ s _
      exact Prog.wpOk_pure (Sealers.apart_none s)
    · exact buildSealer_apart
  unfold runServe
  refine Prog.wpOk_bind (Prog.wpOk_mapErr (Prog.wpOk_mono ?_ hchoose))
  intro x m' hapart
  obtain ⟨s, legacy⟩ := x
  cases legacy with
  | none => exact Prog.wpOk_pure hapart
  | some legacy => exact Prog.wpOk_pure hapart

theorem Sealers.Apart.lock_eq {sealers : Sealers} (h : sealers.Apart) {l l' : SealerLock}
    {s s' : TpmSealer} (hs : sealers.behind l = some s) (hs' : sealers.behind l' = some s')
    (hctx : s.context.id = s'.context.id) : l = l' := by
  cases l with
  | sealer =>
    obtain rfl := Option.some.inj hs
    cases l' with
    | sealer => rfl
    | legacySealer => exact absurd hctx.symm (h s' hs')
  | legacySealer =>
    cases l' with
    | sealer =>
      obtain rfl := Option.some.inj hs'
      exact absurd hctx (h s hs)
    | legacySealer => rfl

theorem serve_orderly {sealers : Sealers} {acts : List (Act KmsRequest (Option Choice) Empty)}
    {pool : ServePool}
    (hrun : runs (serveSystem P faults sealers).step (ServePool.start m) acts = some pool) :
    Orderly sealers.Guards pool :=
  (Orderly.start m).run Sealers.handle_disciplined hrun

/-- The request holds the lock of the sealer on this context. -/
def UsesContext (sealers : Sealers)
    (t : Task KmsRequest (LockCmd SealerLock Cmd) (LockCmd.Res Cmd.Res) KmsOutcome) (n : Nat) :
    Prop :=
  ∃ l s, t.holds = some l ∧ sealers.behind l = some s ∧ s.context.id = n

/-- **One request at a time on a sealer.** In every state of every run of a service that `serve` has
started: a TPM command is issued only by a request that holds the lock of the sealer whose context it
is for, no other request is using that context, a request that waits for a lock holds none, and once
all are answered no lock is left taken. -/
theorem serve_exclusive {forceLegacy : Bool} {es : List Choice} {service : KmsService}
    {tr : List (Event Cmd Cmd.Res)}
    (hserve : (runServe P forceLegacy).run.exec (nodeDevice P faults) m es =
      some (.ok service, m', tr))
    {acts : List (Act KmsRequest (Option Choice) Empty)} {pool : ServePool}
    (hrun : runs (serveSystem P faults service.sealers).step (ServePool.start m') acts =
      some pool) :
    (∀ t ∈ pool.tasks, ∀ c, t.next? = some (.run c) →
      ∃ ctx tc, c = .tpm ctx tc ∧ UsesContext service.sealers t ctx.id) ∧
    (∀ (i j : Nat) t u n, pool.tasks[i]? = some t → pool.tasks[j]? = some u →
      UsesContext service.sealers t n → UsesContext service.sealers u n → i = j) ∧
    (∀ t ∈ pool.tasks, ∀ l, t.next? = some (.lock l) → t.holds = none) ∧
    (pool.quiescent → ∀ l, pool.shared.held l = false) := by
  have horder := serve_orderly hrun
  have hapart := Prog.wp_sound runServe_apart hserve service rfl
  refine ⟨?_, ?_, ?_, ?_⟩
  · intro t ht c hc
    obtain ⟨k, hprog⟩ := Task.call_of_next hc
    have hdisc := horder.disciplined t ht
    rw [hprog] at hdisc
    obtain ⟨l, hl, s, hs, hissues⟩ := hdisc.1
    cases c with
    | tpm ctx tc =>
      exact ⟨ctx, tc, rfl, l, s, hl, Sealers.behind_of_asked hs, hissues.1.symm⟩
    | _ => exact hissues.elim
  · intro i j t u n hi hj ht hu
    obtain ⟨l, s, hl, hs, hn⟩ := ht
    obtain ⟨l', s', hl', hs', hn'⟩ := hu
    have hsame : l = l' := hapart.lock_eq hs hs' (hn.trans hn'.symm)
    exact horder.alone hi hj hl (hsame ▸ hl')
  · intro t ht l hl
    obtain ⟨k, hprog⟩ := Task.call_of_next hl
    have hdisc := horder.disciplined t ht
    rw [hprog] at hdisc
    exact hdisc.1
  · exact fun hquiet => horder.free hquiet

/-! A node with a fleet key, and two requests of which each comes in between the other's commands. -/

/-- All of the TPM's commands succeed while the two sealers are built. -/
def allPerformed : List Choice := List.replicate 15 (performed 1)

/-- An `Encrypt` on the fleet key, and a `Decrypt` on the legacy one of what it has not sealed. -/
def twoRequests : List (Act KmsRequest (Option Choice) Empty) :=
  [.spawn (.encrypt [9]), .spawn (.decrypt "sceau-0001" [1, 0, 2, 1, 2, 2]),
    .step 1 none, .step 1 none, .step 1 none, .step 0 none,
    .step 0 (some (performed 2)), .step 1 (some (performed 2)), .step 1 (some (performed 2)),
    .step 0 (some (performed 2)), .step 1 (some (.fail (.rc 0x1df))), .step 0 (some (performed 2)),
    .step 1 (some (performed 2)), .step 0 (some (performed 2)), .step 0 none, .step 1 none]

/-- A run of `serve` on that node, and which of its requests are under way at the end. -/
theorem keyedMachine_run {faults : TpmCmd → Bool} {acts : List (Act KmsRequest (Option Choice) Empty)}
    {flying : List Bool}
    (h : (((runServe .plain false).run.exec (nodeDevice .plain faults) keyedMachine allPerformed).bind
      fun x => x.1.toOption.bind fun service =>
        (runs (serveSystem .plain faults service.sealers).step (ServePool.start x.2.1) acts).map
          fun pool => pool.tasks.map Task.inFlight) = some flying) :
    ∃ service m' tr pool,
      (runServe .plain false).run.exec (nodeDevice .plain faults) keyedMachine allPerformed =
        some (.ok service, m', tr) ∧
      runs (serveSystem .plain faults service.sealers).step (ServePool.start m') acts = some pool ∧
      pool.tasks.map Task.inFlight = flying := by
  obtain ⟨⟨r, m', tr⟩, hserve, h⟩ := Option.bind_eq_some_iff.mp h
  obtain ⟨service, hr, h⟩ := Option.bind_eq_some_iff.mp h
  obtain ⟨pool, hrun, hpool⟩ := Option.map_eq_some_iff.mp h
  cases r with
  | error e => cases hr
  | ok service' =>
    obtain rfl := Option.some.inj hr
    exact ⟨service', m', tr, pool, hserve, hrun, hpool⟩

/-- Both requests are in their sections, and they are on two contexts. -/
theorem serve_exclusive_two :
    ∃ service m' tr pool,
      (runServe .plain false).run.exec (nodeDevice .plain noFault) keyedMachine allPerformed =
        some (.ok service, m', tr) ∧
      runs (serveSystem .plain noFault service.sealers).step (ServePool.start m')
        (twoRequests.take 10) = some pool ∧ pool.tasks.map Task.inFlight = [true, true] ∧
      ∀ (i j : Nat) t u n, pool.tasks[i]? = some t → pool.tasks[j]? = some u →
        UsesContext service.sealers t n → UsesContext service.sealers u n → i = j := by
  obtain ⟨service, m', tr, pool, hserve, hrun, hpool⟩ :=
    @keyedMachine_run noFault (twoRequests.take 10) [true, true] (by decide +kernel)
  exact ⟨service, m', tr, pool, hserve, hrun, hpool, (serve_exclusive hserve hrun).2.1⟩

end Exclusion

/-! ## Nothing is stuck -/

section Progress

variable {P : Platform} {m : Machine}

/-- Where every TPM command may fail, every command can be answered. -/
theorem nodeDevice_total (c : Cmd) (m : Machine) : ∃ e x, nodeDevice P anyFault c m e = some x := by
  cases c with
  | tpm ctx c =>
    have hfails : Fails anyFault m ctx c := .inl rfl
    exact ⟨.fail .wrongValueFromTpm, _, hfails.step (P := P) _⟩
  | openContext => exact ⟨.fail .wrongValueFromTpm, _, rfl⟩
  | fetchSub => exact ⟨.counter 0, _, rfl⟩
  | readFile path => exact ⟨.file none, _, rfl⟩
  | duplicateRpc request => exact ⟨.reply none, _, rfl⟩
  | _ => exact ⟨.io true, _, rfl⟩

/-- **Every request is answered**, whatever the order of steps: a run that cannot go on has answered
them all, and no run goes on for more than ten steps a request. -/
theorem serve_answers_all {sealers : Sealers}
    {acts : List (Act KmsRequest (Option Choice) Empty)} {pool : ServePool}
    (hrun : runs (serveSystem P anyFault sealers).step (ServePool.start m) acts = some pool) :
    acts.countP Act.isStep ≤ 10 * acts.countP Act.isSpawn ∧
    ((∀ i e, (serveSystem P anyFault sealers).step pool (.step i e) = none) →
      ∀ t ∈ pool.tasks, ∃ a, t.result? = some a) := by
  have horder := serve_orderly hrun
  refine ⟨System.steps_le Sealers.handle_within hrun, fun hstuck t ht => ?_⟩
  have hflight : t.inFlight = false := by
    cases hf : t.inFlight with
    | false => rfl
    | true =>
      obtain ⟨i, e, pool', hstep⟩ := @Orderly.progress _ _ _ _ _ _ _ _ _ _ (sealers.handle P)
        (nodeDevice P anyFault) horder nodeDevice_total ⟨t, ht, hf⟩
      have hnone := hstuck i e
      rw [show (serveSystem P anyFault sealers).step pool (.step i e) = some pool' from hstep] at hnone
      cases hnone
  have hkept := horder.kept t ht
  cases hprog : t.prog with
  | ret a => exact ⟨a, by simp [Task.result?, hprog, hkept]⟩
  | call c k => simp [Task.inFlight, Task.next?, hprog, hkept] at hflight

/-- Two requests, all of their steps taken. -/
theorem serve_answers_all_two :
    ∃ service m' tr pool,
      (runServe .plain false).run.exec (nodeDevice .plain anyFault) keyedMachine allPerformed =
        some (.ok service, m', tr) ∧
      runs (serveSystem .plain anyFault service.sealers).step (ServePool.start m') twoRequests =
        some pool ∧ pool.tasks.map Task.inFlight = [false, false] ∧
      twoRequests.countP Act.isStep ≤ 10 * twoRequests.countP Act.isSpawn := by
  obtain ⟨service, m', tr, pool, hserve, hrun, hpool⟩ :=
    @keyedMachine_run anyFault twoRequests [false, false] (by decide +kernel)
  exact ⟨service, m', tr, pool, hserve, hrun, hpool, (serve_answers_all hrun).1⟩

end Progress

end Sceau
