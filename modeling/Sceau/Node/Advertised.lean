import Sceau.Node.Rules

/-!
# What `Status` advertises

`status` answers `healthz` "ok" by construction, the reasoning being that a process that listens has
built its sealer and so can seal. Three handlers look at the lock of that sealer, and each treats its
poisoning differently: `encrypt` and `decrypt` answer an error, `key_id` the default. So the one thing
to know of a run is whether a handler panicked while it held the preferred sealer's lock. Up to then
an `Encrypt` whose TPM commands succeed succeeds under the `key_id` advertised, and from then on none
does.
-/

set_option autoImplicit false

namespace Sceau

open Lib

variable {P : Platform} {faults : TpmCmd → Bool} {m : Machine}

/-! ## An `Encrypt` with nothing to fail it -/

/-- The command succeeded: it returned no error, and a session came with its handle. -/
def Succeeded : Event Cmd Cmd.Res → Prop
  | ⟨.tpm _ (.startAuthSession _), .ok none⟩ => False
  | ⟨.tpm _ _, .error _⟩ => False
  | _ => True

/-- What the command created marshals, as the `expect` in `envelope_encode` takes for granted. -/
def Marshals (P : Platform) : Event Cmd Cmd.Res → Prop
  | ⟨.tpm _ (.create _ _ _), .ok created⟩ => (P.marshall created.2).isSome = true
  | _ => True

theorem TpmSealer.seal_succeeds (self : TpmSealer) {plaintext : Bytes}
    (hlen : plaintext.length ≤ maxSealData) :
    (self.seal P plaintext).run.wp (nodeDevice P faults)
      (fun tr r _ => (∀ ev ∈ tr, Succeeded ev) → (∀ ev ∈ tr, Marshals P ev) → ∃ c, r = .ok c) m := by
  unfold TpmSealer.seal
  rw [if_neg (Nat.not_lt.mpr hlen), Prog.wp_run_bind]
  refine wp_nullauth ?_ ?_ ?_ (wp_tpmCall.mpr ⟨?_, ?_⟩)
  · intro _ e hall
    exact (hall _ List.mem_cons_self).elim
  · intro _ hall
    exact (hall _ List.mem_cons_self).elim
  · intro _ e hall
    exact (hall _ (List.mem_cons_of_mem _ List.mem_cons_self)).elim
  · -- the creation failed, whether or not the session then closes
    intro _ e
    refine ⟨fun _ e' hall => ?_, fun _ hall => ?_⟩
    · exact (hall _ (List.mem_append_left _ (List.mem_append_right _ List.mem_cons_self))).elim
    · exact (hall _ (List.mem_append_left _ (List.mem_append_right _ List.mem_cons_self))).elim
  · intro created m₂ hcreate
    refine ⟨fun _ e hall => ?_, fun _ => ?_⟩
    · exact (hall _ (List.mem_append_right _ List.mem_cons_self)).elim
    · obtain ⟨priv, pub⟩ := created
      simp only
      cases henc : envelopeEncode P.marshall Private.value pub priv with
      | some c => exact fun _ _ => ⟨c, rfl⟩
      | none =>
        intro _ hmarshals
        have hmar : (P.marshall pub).isSome = true :=
          hmarshals _ (List.mem_append_left _ (List.mem_append_left _
            (List.mem_append_right _ List.mem_cons_self)))
        rw [envelopeEncode, Option.map_eq_none_iff] at henc
        rw [henc] at hmar
        cases hmar

/-! ## Locks -/

/-- A panic poisons the lock, and nothing else does. -/
theorem Mutex.call_poison {α : Type} (lock : Mutex TpmSealer)
    (f : TpmSealer → Fallible (Failure TpmError) α) :
    (lock.call f).wp (nodeDevice P faults) (fun _ x _ => x.2.value = lock.value ∧
      (x.2.poisoned = true ↔ lock.poisoned = true ∨ x.1 = .error .panic)) m := by
  unfold Mutex.call
  split
  · rename_i h
    exact ⟨rfl, by simp [h]⟩
  · rename_i h
    refine Prog.wp_bind.mpr (Prog.wp_always _ fun tr r m' => ?_)
    match r with
    | .ok a => exact ⟨rfl, by simp [h]⟩
    | .error (.error e) => exact ⟨rfl, by simp [h]⟩
    | .error .panic => exact ⟨rfl, by simp⟩

/-- What is asked of a service. The last is a handler that panics somewhere else while it holds a
lock, the preferred sealer's or the legacy one's. -/
inductive KmsCall where
  | status
  | encrypt (plaintext : Bytes)
  | decrypt (keyId : String) (ciphertext : Bytes)
  | panic (legacy : Bool)

inductive KmsOutcome where
  | status (response : StatusResponse)
  | encrypt (result : Except (Failure KmsStatus) EncryptResponse)
  | decrypt (result : Except (Failure KmsStatus) Bytes)
  | panic (legacy : Bool)

/-- The handler panicked while it held the preferred sealer's lock. `Decrypt` does not panic of
itself. -/
def KmsOutcome.panicked : KmsOutcome → Bool
  | .encrypt (.error .panic) => true
  | .panic legacy => !legacy
  | _ => false

namespace KmsService

variable (P) (self : KmsService)

/-- One call. -/
def handle : KmsCall → Code (KmsOutcome × KmsService)
  | .status => .ret (.status self.status, self)
  | .encrypt plaintext => (self.encrypt P plaintext).bind fun x => .ret (.encrypt x.1, x.2)
  | .decrypt keyId ciphertext =>
    (self.decrypt P keyId ciphertext).bind fun x => .ret (.decrypt x.1, x.2)
  | .panic false => .ret (.panic false, { self with sealer := { self.sealer with poisoned := true } })
  | .panic true => .ret (.panic true,
      { self with legacySealer := self.legacySealer.map ({ · with poisoned := true }) })

end KmsService

/-- Calls one after the other. -/
def KmsService.handleAll (P : Platform) : List KmsCall → KmsService →
    Code (List KmsOutcome × KmsService)
  | [], self => .ret ([], self)
  | c :: cs, self => (self.handle P c).bind fun x =>
      (handleAll P cs x.2).bind fun y => .ret (x.1 :: y.1, y.2)

namespace KmsService

variable (self : KmsService)

/-- A `Decrypt` leaves the service as it was. -/
theorem decrypt_service (keyId : String) (ciphertext : Bytes) :
    (self.decrypt P keyId ciphertext).wp (nodeDevice P faults) (fun _ x _ => x.2 = self) m := by
  refine Prog.wp_mono (fun _ _ _ h => h.1) (decrypt_wp self (Q := fun _ _ => True) (fun _ => trivial) ?_)
  intro lock _
  refine Mutex.call_wp (Q := fun _ _ => True) (fun _ => trivial) fun _ => ?_
  refine Prog.wp_mono ?_ (TpmSealer.unseal_ne_panic lock.value ciphertext)
  intro tr r m' hr
  exact ⟨fun _ _ => trivial, fun _ _ => trivial, hr⟩

/-- What one call does to the preferred sealer's lock. -/
theorem handle_poison (c : KmsCall) :
    (self.handle P c).wp (nodeDevice P faults) (fun _ x _ =>
      x.2.sealer.value = self.sealer.value ∧
        (x.2.sealer.poisoned = true ↔ self.sealer.poisoned = true ∨ x.1.panicked = true)) m := by
  cases c with
  | status => exact ⟨rfl, by simp [KmsOutcome.panicked]⟩
  | encrypt plaintext =>
    refine Prog.wp_bind.mpr (Prog.wp_bind.mpr (Prog.wp_mono ?_
      (Mutex.call_poison self.sealer fun sealer => sealer.seal P plaintext)))
    rintro tr ⟨r, lock⟩ m' ⟨hvalue, hpoison⟩
    refine ⟨hvalue, hpoison.trans (or_congr_right ?_)⟩
    match r with
    | .ok c => simp [KmsOutcome.panicked, Except.map]
    | .error (.error e) => simp [KmsOutcome.panicked, Except.map]
    | .error .panic => simp [KmsOutcome.panicked, Except.map]
  | decrypt keyId ciphertext =>
    refine Prog.wp_bind.mpr (Prog.wp_mono ?_ (decrypt_service self keyId ciphertext))
    rintro tr ⟨r, service⟩ m' rfl
    exact ⟨rfl, by simp [KmsOutcome.panicked]⟩
  | panic legacy =>
    cases legacy with
    | false => exact ⟨rfl, by simp [KmsOutcome.panicked]⟩
    | true => exact ⟨rfl, by simp [KmsOutcome.panicked]⟩

/-- What a run does to it. -/
theorem handleAll_poison (cs : List KmsCall) :
    (handleAll P cs self).wp (nodeDevice P faults) (fun _ y _ =>
      y.2.sealer.value = self.sealer.value ∧
        (y.2.sealer.poisoned = true ↔
          self.sealer.poisoned = true ∨ ∃ o ∈ y.1, o.panicked = true)) m := by
  induction cs generalizing self m with
  | nil => exact ⟨rfl, by simp⟩
  | cons c cs ih =>
    refine Prog.wp_bind.mpr (Prog.wp_mono ?_ (handle_poison self c))
    rintro tr ⟨o, service⟩ m₁ ⟨hvalue, hpoison⟩
    refine Prog.wp_bind.mpr (Prog.wp_mono ?_ (ih service))
    rintro tr' ⟨log, service'⟩ m₂ ⟨hvalue', hpoison'⟩
    refine ⟨hvalue'.trans hvalue, ?_⟩
    rw [hpoison', hpoison]
    simp only [List.mem_cons, exists_eq_or_imp, or_assoc]

/-- Unpoisoned, `encrypt` is `seal` under the advertised `key_id`. -/
theorem encrypt_succeeds (hlock : self.sealer.poisoned = false) {plaintext : Bytes}
    (hlen : plaintext.length ≤ maxSealData) :
    (self.encrypt P plaintext).wp (nodeDevice P faults) (fun tr x _ =>
      (∀ ev ∈ tr, Succeeded ev) → (∀ ev ∈ tr, Marshals P ev) →
        ∃ response, x.1 = .ok response ∧ response.keyId = self.status.keyId) m := by
  have hkey : self.status.keyId = self.sealer.value.keyId := by
    simp [KmsService.status, KmsService.keyId, hlock]
  unfold KmsService.encrypt Mutex.call
  rw [if_neg (by simp [hlock])]
  refine Prog.wp_bind.mpr (Prog.wp_bind.mpr (Prog.wp_mono ?_ (TpmSealer.seal_succeeds _ hlen)))
  intro tr r m' hr
  match r with
  | .ok c => exact fun _ _ => ⟨_, rfl, hkey.symm⟩
  | .error (.error e) =>
    intro hall hmarshals
    obtain ⟨c, hc⟩ := hr (by simpa using hall) (by simpa using hmarshals)
    cases hc
  | .error .panic =>
    intro hall hmarshals
    obtain ⟨c, hc⟩ := hr (by simpa using hall) (by simpa using hmarshals)
    cases hc

end KmsService

/-! ## Runs -/

/-- **When `Status` tells the truth.** After any run of calls on a service as it starts, whatever the
TPM did in it: that an `Encrypt` of 1 to 128 bytes issued next, its TPM commands succeeding and the
area they create marshalling, succeeds under the `key_id` advertised along with the "ok", comes down
to no handler of the run having panicked while it held the preferred sealer's lock. -/
theorem status_truthful_iff (P : Platform) (s : TpmSealer) (legacy : Option TpmSealer)
    (cs : List KmsCall) (m m' : Machine) (es : List Choice) (log : List KmsOutcome)
    (service : KmsService) (tr : List (Event Cmd Cmd.Res))
    (hrun : (KmsService.handleAll P cs (serviceOf s legacy)).exec (nodeDevice P anyFault) m es =
      some ((log, service), m', tr)) :
    (service.status.healthz = "ok" →
      ∀ plaintext : Bytes, 1 ≤ plaintext.length → plaintext.length ≤ 128 →
      ∀ es' r service' m'' tr',
        (service.encrypt P plaintext).exec (nodeDevice P anyFault) m' es' =
          some ((r, service'), m'', tr') →
        (∀ ev ∈ tr', Succeeded ev) → (∀ ev ∈ tr', Marshals P ev) →
        ∃ response, r = .ok response ∧ response.keyId = service.status.keyId) ↔
      ∀ o ∈ log, o.panicked = false := by
  have hpoison := (Prog.wp_sound (KmsService.handleAll_poison (serviceOf s legacy) cs) hrun).2
  have hstart : (serviceOf s legacy).sealer.poisoned = false := rfl
  simp only [hstart, Bool.false_eq_true, false_or] at hpoison
  constructor
  · intro htrue o ho
    by_contra hpanic
    have hlock : service.sealer.poisoned = true := hpoison.mpr ⟨o, ho, by simpa using hpanic⟩
    -- a poisoned lock is answered without asking the TPM, so nothing in the trace failed
    have hexec : (service.encrypt P [1]).exec (nodeDevice P anyFault) m' [] =
        some ((.error (.error (.internal .poisoned)), service), m', []) := by
      unfold KmsService.encrypt Mutex.call
      rw [if_pos hlock]
      rfl
    obtain ⟨response, hr, -⟩ :=
      htrue rfl [1] (by decide) (by decide) _ _ _ _ _ hexec (by simp) (by simp)
    cases hr
  · intro hnone _ plaintext _ hlen es' r service' m'' tr' hexec hall hmarshals
    have hlock : service.sealer.poisoned = false := by
      rw [← Bool.not_eq_true]
      intro hp
      obtain ⟨o, ho, hpanic⟩ := hpoison.mp hp
      rw [hnone o ho] at hpanic
      cases hpanic
    exact Prog.wp_sound (KmsService.encrypt_succeeds service hlock hlen) hexec hall
      hmarshals

/-- A marshaller that fails on one public area. -/
def flakyPlatform : Platform :=
  { Platform.plain with
    marshall := fun pub => if pub.unique = [13] then none else Platform.plainMarshall pub }

/-- A sealer on the SRK a TPM has loaded. -/
def srkSealer : TpmSealer where
  context := { id := 0 }
  primary := .transient 0 (.key { srkPublic with unique := [7] })
  keyId := "sceau-07"
  childFixed := true
  ownsTransientPrimary := true

def srkMachine : Machine :=
  { tpm := Tpm.addObject { ownerSeed := fun _ => some [7] } 0 (.key { srkPublic with unique := [7] }) }

/-- The created area does not marshal, the `expect` panics, and from then on `Status` answers "ok"
while every `Encrypt` is an error. -/
theorem poisoned_status_ok :
    ∃ log service m' tr,
      (KmsService.handleAll flakyPlatform [.encrypt [1]] (serviceOf srkSealer none)).exec
        (nodeDevice flakyPlatform anyFault) srkMachine (List.replicate 4 (performed 13)) =
          some ((log, service), m', tr) ∧
      service.status = { version := "v2", healthz := "ok", keyId := "" } ∧
      (service.encrypt flakyPlatform [1]).exec (nodeDevice flakyPlatform anyFault) m' [] =
        some ((.error (.error (.internal .poisoned)), service), m', []) :=
  ⟨_, _, _, _, rfl, rfl, rfl⟩

/-- Without the panic, the next `Encrypt` is under the key advertised. -/
theorem status_truthful_sealing :
    ∃ log service m' tr r service' m'' tr',
      (KmsService.handleAll flakyPlatform [.status, .encrypt [1]] (serviceOf srkSealer none)).exec
        (nodeDevice flakyPlatform anyFault) srkMachine (List.replicate 4 (performed 1)) =
          some ((log, service), m', tr) ∧
      (service.encrypt flakyPlatform [2]).exec (nodeDevice flakyPlatform anyFault) m'
        (List.replicate 4 (performed 2)) = some ((r, service'), m'', tr') ∧
      ∃ response, r = .ok response ∧ response.keyId = service.status.keyId := by
  have hrun : ∃ log service m' tr r service' m'' tr',
      (KmsService.handleAll flakyPlatform [.status, .encrypt [1]] (serviceOf srkSealer none)).exec
        (nodeDevice flakyPlatform anyFault) srkMachine (List.replicate 4 (performed 1)) =
          some ((log, service), m', tr) ∧
      (service.encrypt flakyPlatform [2]).exec (nodeDevice flakyPlatform anyFault) m'
        (List.replicate 4 (performed 2)) = some ((r, service'), m'', tr') ∧
      (∀ o ∈ log, o.panicked = false) ∧ (∀ ev ∈ tr', Succeeded ev) ∧
      ∀ ev ∈ tr', Marshals flakyPlatform ev := by
    refine ⟨_, _, _, _, _, _, _, _, rfl, rfl, by decide, by simp [Succeeded], ?_⟩
    simp [Marshals]
    decide
  obtain ⟨log, service, m', tr, r, service', m'', tr', hrun, hnext, hlog, hall, hmarshals⟩ := hrun
  refine ⟨log, service, m', tr, r, service', m'', tr', hrun, hnext, ?_⟩
  exact (status_truthful_iff flakyPlatform srkSealer none _ _ _ _ log service tr hrun).mpr hlog rfl
    [2] (by decide) (by decide) _ _ _ _ _ hnext hall hmarshals

end Sceau
