import Sceau.Fleet.Code
import Sceau.Tpm.Rules

/-!
# Which commands the fleet and sealer code issues

Most of the code issues **benign** commands only: sessions, reads, loads — nothing that moves the
persistent slot, wraps an object or flushes one. Each function's lemma is stated for an arbitrary set
of commands that contains the benign ones and the few others the function needs, so one lemma
serves every frame argument made about it.
-/

set_option autoImplicit false

namespace Sceau

open Lib

/-! ## Benign commands

They only make a machine grow: what was loaded stays loaded, and the slot and the ledger are as they
were. -/

/-- Neither moves the slot, nor adds to the ledger, nor flushes an object. -/
def TpmCmd.benign : TpmCmd → Bool
  | .evictControl _ _ => false
  | .create _ _ _ => false
  | .duplicate _ _ _ => false
  | .import _ _ _ _ _ _ => false
  | .flushContext (.session _) => true
  | .flushContext _ => false
  | _ => true

def Cmd.benign : Cmd → Prop
  | .tpm _ c => c.benign = true
  | .openContext => True
  | _ => False

theorem Cmd.benign.quiet {moves : TpmCmd → Bool} {c : Cmd} (h : c.benign)
    (hmoves : ∀ c : TpmCmd, c.benign = true → moves c = false) : c.quiet moves := by
  cases c with
  | tpm ctx c => exact hmoves c h
  | _ => trivial

theorem Cmd.benign.slot {c : Cmd} (h : c.benign) : c.quiet TpmCmd.movesSlot := by
  refine h.quiet fun c hc => ?_
  cases c with
  | evictControl _ _ => cases hc
  | _ => rfl

theorem Cmd.benign.ledger {c : Cmd} (h : c.benign) : c.quiet TpmCmd.movesLedger := by
  refine h.quiet fun c hc => ?_
  cases c with
  | create _ _ _ => cases hc
  | duplicate _ _ _ => cases hc
  | «import» _ _ _ _ _ _ => cases hc
  | _ => rfl

def TpmCmd.creates : TpmCmd → Bool
  | .create _ _ _ => true
  | _ => false

theorem Cmd.benign.creates {c : Cmd} (h : c.benign) : c.quiet TpmCmd.creates := by
  refine h.quiet fun c hc => ?_
  cases c with
  | create _ _ _ => cases hc
  | _ => rfl

/-- What benign commands leave of a machine: the slot, the ledger, the seed and every object. -/
structure Grown (m m' : Machine) : Prop where
  slot : m'.tpm.slot = m.tpm.slot
  ledger : m'.ledger = m.ledger
  ownerSeed : m'.tpm.ownerSeed = m.tpm.ownerSeed
  next : m.tpm.next ≤ m'.tpm.next
  objects : ∀ o ∈ m.tpm.objects, o ∈ m'.tpm.objects

theorem Grown.refl (m : Machine) : Grown m m := ⟨rfl, rfl, rfl, Nat.le_refl _, fun _ h => h⟩

theorem Grown.trans {m₁ m₂ m₃ : Machine} (h : Grown m₁ m₂) (h' : Grown m₂ m₃) : Grown m₁ m₃ :=
  ⟨h'.slot.trans h.slot, h'.ledger.trans h.ledger, h'.ownerSeed.trans h.ownerSeed,
    Nat.le_trans h.next h'.next, fun o ho => h'.objects o (h.objects o ho)⟩

section Benign

variable {P : Platform} {faults : TpmCmd → Bool} {m m' : Machine}

theorem nodeDevice_benign {c : Cmd} (hc : c.benign) {e : Choice} {r : c.Res}
    (h : nodeDevice P faults c m e = some (r, m')) : Grown m m' := by
  have hframe := nodeDevice_frame h
  refine ⟨hframe.slot hc.slot, hframe.ledger hc.ledger, hframe.ownerSeed, hframe.next, ?_⟩
  by_cases hquiet : c.quiet TpmCmd.movesObjects
  · rw [hframe.objects hquiet]
    exact fun _ h => h
  · cases c with
    | tpm ctx c =>
      rcases tpmStep_cases h with ⟨-, -, -, rfl⟩ | ⟨a, hp, -⟩
      · exact fun _ h => h
      · cases c with
        | createPrimary template =>
          obtain ⟨-, unique, -, -, rfl⟩ := performs_createPrimary.mp hp
          exact fun o ho => List.mem_cons_of_mem _ ho
        | loadExternalPublic pub =>
          obtain ⟨-, rfl⟩ := performs_loadExternalPublic.mp hp
          exact fun o ho => List.mem_cons_of_mem _ ho
        | load parent priv pub =>
          obtain ⟨-, t, o, -, -, -, rfl⟩ := performs_load.mp hp
          exact fun o ho => List.mem_cons_of_mem _ ho
        | flushContext hd =>
          cases hd with
          | session s => exact absurd rfl hquiet
          | _ => exact absurd hc (by simp [Cmd.benign, TpmCmd.benign])
        | _ => exact absurd rfl hquiet
    | _ => exact absurd trivial hquiet

theorem grown_of_only {α : Type} {p : Code α} (hp : p.Only Cmd.benign) :
    p.wp (nodeDevice P faults) (fun _ _ m' => Grown m m') m :=
  Prog.Only.moves (nodeDevice P faults) Grown.refl (fun _ _ _ => Grown.trans)
    (fun _ _ _ _ _ hc h => nodeDevice_benign hc h) hp m

end Benign

/-! ## What each function issues

`X` is any set of commands with the benign ones in it; a function that needs more takes a hypothesis
for each further kind. -/

section Only

variable {X : Cmd → Prop} {ε α : Type} [FromTss ε]

theorem only_tpmCall {ctx : Context} {c : TpmCmd} (h : X (.tpm ctx c)) :
    (tpmCall (ε := ε) ctx c).run.Only X :=
  ⟨h, fun _ => trivial⟩

variable (hX : ∀ c : Cmd, c.benign → X c)
include hX

theorem only_benign {ctx : Context} {c : TpmCmd} (h : c.benign = true) :
    (tpmCall (ε := ε) ctx c).run.Only X :=
  only_tpmCall (hX _ h)

theorem only_nullauth_benign {ctx : Context} {f : Context → Fallible ε α}
    (hbody : ∀ ctx', (f ctx').run.Only X) : (ctx.executeWithNullauthSession f).run.Only X :=
  only_nullauth (hX _ rfl) (fun _ => hX _ rfl) (fun _ => hX _ rfl) hbody

theorem only_contextNew : (Context.new (ε := ε)).run.Only X :=
  ⟨hX _ trivial, fun _ => trivial⟩

end Only

namespace Fleet

variable {X : Cmd → Prop} (hX : ∀ c : Cmd, c.benign → X c) (context : Context)
include hX

theorem startSession_only (ty : SessionType) : (startSession context ty).run.Only X := by
  unfold startSession
  refine Prog.Only.run_bind (only_benign hX rfl) ?_
  intro s
  cases s with
  | none => trivial
  | some s => exact Prog.Only.run_bind (only_benign hX rfl) fun _ => trivial

omit hX in
theorem policySessionTryFrom_only (s : AuthSession) : (policySessionTryFrom s).run.Only X := by
  unfold policySessionTryFrom
  split <;> trivial

theorem duplicationAuthPolicyDigest_only : (duplicationAuthPolicyDigest context).run.Only X := by
  unfold duplicationAuthPolicyDigest
  refine Prog.Only.run_bind (startSession_only hX context _) fun trial => ?_
  refine Prog.Only.run_bind (policySessionTryFrom_only trial) fun policy => ?_
  refine Prog.Only.run_bind (only_benign hX rfl) fun _ => ?_
  refine Prog.Only.run_bind (only_benign hX rfl) fun digest => ?_
  exact Prog.Only.run_bind (only_benign hX rfl) fun _ => trivial

theorem duplicationAuthPolicySession_only : (duplicationAuthPolicySession context).run.Only X := by
  unfold duplicationAuthPolicySession
  refine Prog.Only.run_bind (startSession_only hX context _) fun session => ?_
  refine Prog.Only.run_bind (policySessionTryFrom_only session) fun policy => ?_
  exact Prog.Only.run_bind (only_benign hX rfl) fun _ => trivial

theorem duplicableStoragePublic_only : (duplicableStoragePublic context).run.Only X :=
  Prog.Only.run_bind (duplicationAuthPolicyDigest_only hX context) fun _ => trivial

theorem loadFleetKey_only : (loadFleetKey context).run.Only X :=
  Prog.Only.run_bind trivial fun _ => only_nullauth_benign hX fun _ => only_benign hX rfl

theorem createTransportKey_only : (createTransportKey context).run.Only X := by
  unfold createTransportKey
  refine Prog.Only.run_bind (duplicableStoragePublic_only hX context) fun template => ?_
  refine Prog.Only.run_bind (only_nullauth_benign hX fun _ => only_benign hX rfl) fun created => ?_
  exact Prog.Only.run_bind (only_nullauth_benign hX fun _ => only_benign hX rfl)
    fun _ => trivial

/-- Besides benign commands, wrapping for a joiner issues `TPM2_Duplicate`, and flushes the wrapping
target. -/
theorem duplicateForJoiner_only (fleetKeyHandle : Handle) (joinerPublic : Public)
    (hdup : ∀ ctx external, X (.tpm ctx (.duplicate fleetKeyHandle external
      duplicationSymmetricAlg)))
    (hflush : ∀ ctx h, X (.tpm ctx (.flushContext h))) :
    (duplicateForJoiner context fleetKeyHandle joinerPublic).run.Only X := by
  unfold duplicateForJoiner
  refine Prog.Only.run_bind (only_nullauth_benign hX fun _ => only_benign hX rfl) fun pub => ?_
  refine Prog.Only.run_bind (only_benign hX rfl) fun external => ?_
  refine Prog.Only.run_bind (duplicationAuthPolicySession_only hX context) fun session => ?_
  refine Prog.Only.run_bind (Prog.Only.bind (only_tpmCall (hdup _ _)) fun _ => trivial)
    fun result => ?_
  refine Prog.Only.run_bind (only_benign hX rfl) fun _ => ?_
  refine Prog.Only.run_bind (Prog.Only.bind (only_tpmCall (hflush _ _)) fun _ => trivial)
    fun _ => ?_
  exact Prog.Only.run_bind trivial fun _ => trivial

section Evicting

variable (hevict : ∀ ctx h ph, X (.tpm ctx (.evictControl h ph)))
include hevict

theorem persist_only (transient : Handle) : (persist context transient).run.Only X :=
  Prog.Only.run_bind trivial fun _ => only_nullauth_benign hX fun _ => only_tpmCall (hevict _ _ _)

theorem deletePersistedFleetKey_only : (deletePersistedFleetKey context).run.Only X := by
  unfold deletePersistedFleetKey
  refine Prog.Only.run_bind (Prog.Only.bind (loadFleetKey_only hX context) fun _ => trivial) ?_
  intro found
  cases found with
  | error e => trivial
  | ok existing =>
    refine Prog.Only.run_bind trivial fun _ => ?_
    exact Prog.Only.run_bind (only_nullauth_benign hX fun _ => only_tpmCall (hevict _ _ _))
      fun _ => trivial

theorem createFleetKey_only (force : Bool) : (createFleetKey context force).run.Only X := by
  have hcreate : (createAndPersist context).run.Only X := by
    unfold createAndPersist
    refine Prog.Only.run_bind (duplicableStoragePublic_only hX context) fun template => ?_
    refine Prog.Only.run_bind (only_nullauth_benign hX fun _ => only_benign hX rfl) fun created => ?_
    exact persist_only hX context hevict created
  unfold createFleetKey
  split
  · exact Prog.Only.run_bind (deletePersistedFleetKey_only hX context hevict) fun _ => hcreate
  · refine Prog.Only.run_bind (Prog.Only.bind (loadFleetKey_only hX context) fun _ => trivial) ?_
    intro found
    cases found with
    | error e => exact hcreate
    | ok existing => trivial

/-- Importing a duplicate issues one `TPM2_Import`, and flushes the transport key. -/
theorem importAndPersist_only (transport : Handle) (blob : DuplicationBlob)
    (himport : ∀ ctx, X (.tpm ctx (.import transport blob.encryptionKey blob.fleetKeyPublic
      blob.duplicatePrivate blob.encryptedSecret duplicationSymmetricAlg)))
    (hflush : ∀ ctx, X (.tpm ctx (.flushContext transport))) :
    (importAndPersist context transport blob).run.Only X := by
  unfold importAndPersist
  refine Prog.Only.run_bind (startSession_only hX context _) fun session => ?_
  refine Prog.Only.run_bind (Prog.Only.bind ?_ fun _ => trivial) fun result => ?_
  · exact Prog.Only.run_bind (only_tpmCall (himport _)) fun priv => only_benign hX rfl
  refine Prog.Only.run_bind (only_benign hX rfl) fun _ => ?_
  refine Prog.Only.run_bind trivial fun key => ?_
  refine Prog.Only.run_bind (deletePersistedFleetKey_only hX context hevict) fun _ => ?_
  refine Prog.Only.run_bind (persist_only hX context hevict key) fun persisted => ?_
  exact Prog.Only.run_bind (only_nullauth_benign hX fun _ => only_tpmCall (hflush _))
    fun _ => trivial

end Evicting

end Fleet

end Sceau
