import Sceau.Fleet.Commands
import Sceau.Node.Code

/-!
# Which commands a node's programs issue

The counterpart of `Fleet/Commands.lean` for the sealer and for what runs around it: besides benign
commands, sealing issues `TPM2_Create`, unsealing and dropping flush an object, and a join issues
the file and network commands of its first half.
-/

set_option autoImplicit false

namespace Sceau

open Lib

variable {X : Cmd → Prop} (hX : ∀ c : Cmd, c.benign → X c) (P : Platform)

/-! ## The sealer and the service -/

namespace TpmSealer

section

include hX

theorem new_only : (TpmSealer.new P).run.Only X := by
  unfold TpmSealer.new
  refine Prog.Only.run_bind (only_contextNew hX) fun context => ?_
  refine Prog.Only.run_bind (only_nullauth_benign hX fun ctx => ?_) fun _ => trivial
  refine Prog.Only.run_bind (only_benign hX rfl) fun primary => ?_
  exact Prog.Only.run_bind (only_benign hX rfl) fun _ => trivial

theorem fromPrimary_only (context : Context) (primary : Handle) :
    (fromPrimary P context primary).run.Only X :=
  Prog.Only.run_bind (only_nullauth_benign hX fun _ => only_benign hX rfl) fun _ => trivial

/-- Sealing creates one object under the primary. -/
theorem seal_only (self : TpmSealer) (plaintext : Bytes)
    (hcreate : ∀ ctx, X (.tpm ctx (.create self.primary (sealedPublic self.childFixed) plaintext))) :
    (self.seal P plaintext).run.Only X := by
  unfold TpmSealer.seal
  split
  · trivial
  · refine Prog.Only.run_bind (only_nullauth_benign hX fun ctx => only_tpmCall (hcreate ctx)) ?_
    intro created
    dsimp only
    split <;> trivial

theorem unseal_only (self : TpmSealer) (ciphertext : Bytes)
    (hflush : ∀ ctx h, X (.tpm ctx (.flushContext h))) :
    (self.unseal P ciphertext).run.Only X := by
  unfold TpmSealer.unseal
  split
  · trivial
  · trivial
  · refine only_nullauth_benign hX fun ctx => ?_
    refine Prog.Only.run_bind (only_benign hX rfl) fun handle => ?_
    refine Prog.Only.run_bind (only_benign hX rfl) fun data => ?_
    exact Prog.Only.run_bind (only_tpmCall (hflush _ _)) fun _ => trivial

theorem drop_only (self : TpmSealer) (hflush : ∀ ctx, X (.tpm ctx (.flushContext self.primary))) :
    self.drop.Only X := by
  unfold TpmSealer.drop
  split
  · exact Prog.Only.bind (only_nullauth_benign hX fun _ => only_tpmCall (hflush _))
      fun _ => trivial
  · trivial

end

end TpmSealer

theorem Mutex.call_closed {Φ : {α : Type} → Code α → Prop} (hΦ : Prog.Closed Φ) {α : Type}
    (lock : Mutex TpmSealer) {f : TpmSealer → Fallible (Failure TpmError) α}
    (hf : lock.poisoned = false → Φ (f lock.value).run) : Φ (lock.call f) := by
  unfold Mutex.call
  split
  · exact hΦ.ret _
  · rename_i h
    refine hΦ.bind (hf (by simpa using h)) fun r => ?_
    split <;> exact hΦ.ret _

namespace KmsService

/-- The sealer whose lock `decrypt` takes last. -/
def selected (self : KmsService) (keyId : String) : Option (Mutex TpmSealer) :=
  if self.sealer.poisoned ∨ keyId = self.sealer.value.keyId then some self.sealer
  else self.legacySealer.filter fun legacy => legacy.poisoned ∨ keyId = legacy.value.keyId

/-- `decrypt` is one call of `unseal`, on the sealer its `key_id` selects. -/
theorem decrypt_closed {Φ : {α : Type} → Code α → Prop} (hΦ : Prog.Closed Φ) (self : KmsService)
    (keyId : String) (ciphertext : Bytes)
    (hcall : ∀ lock, self.selected keyId = some lock → lock.poisoned = false →
      Φ (lock.value.unseal P ciphertext).run) :
    Φ (self.decrypt P keyId ciphertext) := by
  unfold KmsService.decrypt
  unfold selected at hcall
  split
  · rename_i h
    simp only [h, if_true] at hcall
    exact hΦ.bind (Mutex.call_closed hΦ self.sealer (hcall _ rfl)) fun _ => hΦ.ret _
  · rename_i h
    simp only [h, if_false] at hcall
    split
    · exact hΦ.ret _
    · rename_i legacy hl
      split
      · rename_i hk
        refine hΦ.bind (Mutex.call_closed hΦ legacy (hcall legacy ?_)) fun _ => hΦ.ret _
        rw [hl, Option.filter_some, if_pos (decide_eq_true hk)]
      · exact hΦ.ret _

include hX

theorem encrypt_only (self : KmsService) (plaintext : Bytes)
    (hcreate : ∀ ctx, X (.tpm ctx (.create self.sealer.value.primary
      (sealedPublic self.sealer.value.childFixed) plaintext))) :
    (self.encrypt P plaintext).Only X :=
  Prog.Only.bind (Mutex.call_closed (Prog.only_closed X) self.sealer
    fun _ => TpmSealer.seal_only hX P _ plaintext hcreate) fun _ => trivial

theorem decrypt_only (self : KmsService) (keyId : String) (ciphertext : Bytes)
    (hflush : ∀ ctx h, X (.tpm ctx (.flushContext h))) :
    (self.decrypt P keyId ciphertext).Only X :=
  decrypt_closed P (Prog.only_closed X) self keyId ciphertext fun _ _ _ =>
    TpmSealer.unseal_only hX P _ ciphertext hflush

theorem drop_only (self : KmsService)
    (hsealer : ∀ ctx, X (.tpm ctx (.flushContext self.sealer.value.primary)))
    (hlegacy : ∀ ctx, ∀ legacy ∈ self.legacySealer,
      X (.tpm ctx (.flushContext legacy.value.primary))) : self.drop.Only X := by
  unfold KmsService.drop
  refine Prog.Only.bind (TpmSealer.drop_only hX _ hsealer) fun _ => ?_
  split
  · trivial
  · rename_i legacy hl
    exact TpmSealer.drop_only hX _ fun ctx => hlegacy ctx legacy hl

end KmsService

/-! ## The subcommands

Each is its functions of `fleet.rs` and of the sealer in a row, and issues what they issue. -/

section Main

include hX

theorem buildSealer_only : (buildSealer P).run.Only X := by
  unfold buildSealer
  refine Prog.Only.run_bind (Prog.Only.mapErr (only_contextNew hX)) fun probe => ?_
  refine Prog.Only.run_bind (Prog.Only.bind (Fleet.loadFleetKey_only hX probe) fun _ => trivial) ?_
  intro found
  cases found with
  | error e => exact Prog.Only.run_bind (Prog.Only.mapErr (TpmSealer.new_only hX P)) fun _ => trivial
  | ok fleetKey =>
    refine Prog.Only.run_bind (Prog.Only.mapErr (TpmSealer.fromPrimary_only hX P _ _)) fun _ => ?_
    exact Prog.Only.run_bind (Prog.Only.mapErr (Prog.Only.mapErr (TpmSealer.new_only hX P)))
      fun _ => trivial

theorem runServe_only (forceLegacy : Bool) : (runServe P forceLegacy).run.Only X := by
  unfold runServe
  refine Prog.Only.run_bind (Prog.Only.mapErr ?_) fun sealers => ?_
  · unfold chooseSealer
    split
    · exact Prog.Only.run_bind (Prog.Only.mapErr (TpmSealer.new_only hX P)) fun _ => trivial
    · exact buildSealer_only hX P
  · obtain ⟨sealer, legacySealer⟩ := sealers
    cases legacySealer <;> trivial

theorem runStatus_only : (runStatus P).run.Only X := by
  unfold runStatus
  refine Prog.Only.run_bind (Prog.Only.mapErr (only_contextNew hX)) fun probe => ?_
  refine Prog.Only.run_bind (Prog.Only.bind (Fleet.loadFleetKey_only hX probe) fun _ => trivial) ?_
  intro found
  cases found with
  | error e =>
    exact Prog.Only.run_bind (Prog.Only.mapErr (Prog.Only.mapErr (TpmSealer.new_only hX P)))
      fun _ => trivial
  | ok fleetKey =>
    exact Prog.Only.run_bind
      (Prog.Only.mapErr (Prog.Only.mapErr (TpmSealer.fromPrimary_only hX P _ _))) fun _ => trivial

theorem runEnroll_only : runEnroll.run.Only X := by
  unfold runEnroll
  refine Prog.Only.run_bind (only_contextNew hX) fun context => ?_
  exact Prog.Only.run_bind (Fleet.loadFleetKey_only hX context) fun _ => trivial

/-- The first half of a join reads two files and connects. -/
theorem joinRequest_only (seed k0sDataDir : String) (hread : ∀ path, X (.readFile path))
    (hconnect : ∀ uri, X (.connect uri)) : (joinRequest P seed k0sDataDir).run.Only X := by
  have hfile : ∀ path, (readToString path).run.Only X := by
    intro path
    refine Prog.Only.run_bind ⟨hread path, fun _ => trivial⟩ fun content => ?_
    cases content <;> trivial
  unfold joinRequest
  refine Prog.Only.run_bind (only_contextNew hX) fun context => ?_
  refine Prog.Only.run_bind (Prog.Only.mapErr (Fleet.createTransportKey_only hX context)) ?_
  intro transport
  refine Prog.Only.run_bind (hfile _) fun _ => ?_
  refine Prog.Only.run_bind (hfile _) fun _ => ?_
  refine Prog.Only.run_bind ⟨hconnect _, fun _ => trivial⟩ fun connected => ?_
  cases connected with
  | error => trivial
  | ok =>
    dsimp only
    split <;> trivial

theorem runGenesis_only (force : Bool) (hevict : ∀ ctx h ph, X (.tpm ctx (.evictControl h ph))) :
    (runGenesis force).run.Only X := by
  unfold runGenesis
  refine Prog.Only.run_bind (Prog.Only.mapErr (only_contextNew hX)) fun context => ?_
  exact Prog.Only.run_bind
    (Prog.Only.mapErr (Prog.Only.mapErr (Fleet.createFleetKey_only hX context hevict force)))
    fun _ => trivial

/-- The second half of a join imports, moves the slot and flushes the transport key. -/
theorem joinFinish_only (join : PendingJoin) (response : DuplicateResponse)
    (hevict : ∀ ctx h ph, X (.tpm ctx (.evictControl h ph)))
    (himport : ∀ ctx ek pub priv secret,
      X (.tpm ctx (.import join.transportHandle ek pub priv secret duplicationSymmetricAlg)))
    (hflush : ∀ ctx, X (.tpm ctx (.flushContext join.transportHandle))) :
    (joinFinish P join response).run.Only X := by
  unfold joinFinish
  refine Prog.Only.run_bind trivial fun blob => ?_
  refine Prog.Only.run_bind (Prog.Only.mapErr ?_) fun _ => trivial
  exact Fleet.importAndPersist_only hX _ hevict _ blob (fun _ => himport _ _ _ _ _) hflush

end Main

/-! ## What a response decodes to

Decoding checks sizes and unmarshals the public area; it alters nothing. -/

theorem tryFrom_eq {α : Type} {n : Nat} {b : Bytes} {f : Bytes → α} {a : α}
    (h : (if b.length ≤ n then some (f b) else none) = some a) : a = f b := by
  split at h
  · exact (Option.some.inj h).symm
  · cases h

/-- The blob is the response, field for field: the public area its bytes stand for, and the other
bytes as they are. -/
structure DuplicateResponse.Carries (P : Platform) (response : DuplicateResponse)
    (blob : DuplicationBlob) : Prop where
  fleetKeyPublic : P.unmarshall response.fleetKeyPublic = some blob.fleetKeyPublic
  duplicatePrivate : blob.duplicatePrivate = ⟨response.duplicatePrivate⟩
  encryptedSecret : blob.encryptedSecret = ⟨response.encryptedSecret⟩
  encryptionKey : blob.encryptionKey =
    if response.hasEncryptionKey then some ⟨response.encryptionKey⟩ else none

/-- Decoding changes nothing. -/
theorem decodeResponse_eq {P : Platform} {response : DuplicateResponse} {blob : DuplicationBlob}
    (h : decodeResponse P response = .ok blob) : response.Carries P blob := by
  unfold decodeResponse at h
  split at h
  · cases h
  · rename_i fleetKeyPublic hpub
    split at h
    · cases h
    · rename_i priv hpriv
      split at h
      · cases h
      · rename_i secret hsecret
        split at h
        · rename_i hek
          split at h
          · cases h
          · rename_i data hdata
            obtain rfl := Except.ok.inj h
            exact ⟨hpub, tryFrom_eq hpriv, tryFrom_eq hsecret, by simp [hek, tryFrom_eq hdata]⟩
        · rename_i hek
          obtain rfl := Except.ok.inj h
          exact ⟨hpub, tryFrom_eq hpriv, tryFrom_eq hsecret, by simp [hek]⟩

end Sceau
