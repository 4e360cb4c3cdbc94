import Sceau.Enroll.Window
import Sceau.Node.Rules

/-!
# What an operation leaves of a machine

The ledger only grows, and never changes what is found in it: an object is created with bytes that
no object of its parent has. Loaded objects stay until they are flushed. A sealer flushes what it
loaded for one request, a joiner its transport key, a service that ends its SRK — so of the objects
loaded before an operation all stay, but for one that the operation names.
-/

set_option autoImplicit false

namespace Sceau

open Lib

variable {P : Platform} {faults : TpmCmd → Bool} {m m' : Machine} {gone : Nat → Prop}

/-- All is still there but objects whose number is `gone`. -/
structure Kept (gone : Nat → Prop) (m m' : Machine) : Prop where
  ownerSeed : m'.tpm.ownerSeed = m.tpm.ownerSeed
  next : m.tpm.next ≤ m'.tpm.next
  objects : ∀ o ∈ m.tpm.objects, ¬ gone o.id → o ∈ m'.tpm.objects
  found : ∀ t pub priv o, m.ledger.findObject t pub priv = some o →
    m'.ledger.findObject t pub priv = some o

theorem Kept.refl (m : Machine) : Kept gone m m :=
  ⟨rfl, Nat.le_refl _, fun _ h _ => h, fun _ _ _ _ h => h⟩

theorem Kept.trans {m₁ m₂ m₃ : Machine} (h : Kept gone m₁ m₂) (h' : Kept gone m₂ m₃) :
    Kept gone m₁ m₃ where
  ownerSeed := h'.ownerSeed.trans h.ownerSeed
  next := Nat.le_trans h.next h'.next
  objects := fun o ho hg => h'.objects o (h.objects o ho hg) hg
  found := fun t pub priv o ho => h'.found t pub priv o (h.found t pub priv o ho)

/-- What is numbered anew was not there before. -/
theorem Kept.of_fresh (h : Kept (m.tpm.next ≤ ·) m m') : Kept (fun _ => False) m m' :=
  ⟨h.ownerSeed, h.next, fun o ho _ => h.objects o ho (Nat.not_le_of_lt (m.tpm.objects_lt o ho)),
    h.found⟩

/-! ## One command -/

theorem Ledger.findObject_cons {l : Ledger} {o o' : CreatedObject} {t pub : Public} {priv : Private}
    (hfresh : l.findObject o.parent o.pub o.priv = none) (h : l.findObject t pub priv = some o') :
    ({ l with objects := o :: l.objects } : Ledger).findObject t pub priv = some o' := by
  unfold Ledger.findObject at *
  rw [List.find?_cons_of_neg]
  · exact h
  · intro heq
    obtain ⟨rfl, rfl, rfl⟩ := of_decide_eq_true heq
    rw [hfresh] at h
    cases h

theorem Ledger.findObject_head {l : Ledger} {t pub : Public} {priv : Private} {c : Content} :
    ({ l with objects := ⟨t, pub, priv, c⟩ :: l.objects } : Ledger).findObject t pub priv =
      some ⟨t, pub, priv, c⟩ := by
  simp [Ledger.findObject]

theorem nodeDevice_found {c : Cmd} {e : Choice} {r : c.Res}
    (h : nodeDevice P faults c m e = some (r, m')) {t pub : Public} {priv : Private}
    {o : CreatedObject} (ho : m.ledger.findObject t pub priv = some o) :
    m'.ledger.findObject t pub priv = some o := by
  have hframe := nodeDevice_frame h
  by_cases hquiet : c.quiet TpmCmd.movesLedger
  · rwa [hframe.ledger hquiet]
  · cases c with
    | tpm ctx c =>
      rcases tpmStep_cases h with ⟨-, -, -, rfl⟩ | ⟨a, hp, -⟩
      · exact ho
      cases c with
      | create _ _ _ =>
        obtain ⟨t', -, -, -, -, hfresh, rfl⟩ := performs_create hp
        exact Ledger.findObject_cons hfresh ho
      | duplicate _ _ _ =>
        obtain ⟨-, -, -, -, -, rfl⟩ := performs_duplicate hp
        exact ho
      | «import» _ _ _ _ _ _ =>
        obtain ⟨t', -, -, hfresh, rfl⟩ := performs_import hp
        exact Ledger.findObject_cons hfresh ho
      | _ => exact absurd rfl hquiet
    | _ => exact absurd trivial hquiet

/-- Flushes no transient object but such as may be gone. -/
def Cmd.Flushes (gone : Nat → Prop) : Cmd → Prop
  | .tpm _ (.flushContext (.transient id _)) => gone id
  | _ => True

theorem nodeDevice_objects {c : Cmd} (hc : c.Flushes gone) {e : Choice} {r : c.Res}
    (h : nodeDevice P faults c m e = some (r, m')) {o : LoadedObject} (ho : o ∈ m.tpm.objects)
    (hgone : ¬ gone o.id) : o ∈ m'.tpm.objects := by
  have hframe := nodeDevice_frame h
  by_cases hquiet : c.quiet TpmCmd.movesObjects
  · rwa [hframe.objects hquiet]
  · cases c with
    | tpm ctx c =>
      rcases tpmStep_cases h with ⟨-, -, -, rfl⟩ | ⟨a, hp, -⟩
      · exact ho
      cases c with
      | createPrimary _ =>
        obtain ⟨-, unique, -, -, rfl⟩ := performs_createPrimary.mp hp
        exact List.mem_cons_of_mem _ ho
      | loadExternalPublic _ =>
        obtain ⟨-, rfl⟩ := performs_loadExternalPublic.mp hp
        exact List.mem_cons_of_mem _ ho
      | load _ _ _ =>
        obtain ⟨-, t, o', -, -, -, rfl⟩ := performs_load.mp hp
        exact List.mem_cons_of_mem _ ho
      | flushContext hd =>
        cases hd with
        | transient id obj =>
          obtain ⟨-, rfl⟩ := performs_flushTransient.mp hp
          refine List.mem_filter.mpr ⟨ho, ?_⟩
          have hid : o.id ≠ id := fun heq => hgone (heq ▸ hc)
          simpa using hid
        | _ => exact absurd rfl hquiet
      | _ => exact absurd rfl hquiet
    | _ => exact absurd trivial hquiet

theorem nodeDevice_kept {c : Cmd} (hc : c.Flushes gone) {e : Choice} {r : c.Res}
    (h : nodeDevice P faults c m e = some (r, m')) : Kept gone m m' :=
  ⟨(nodeDevice_frame h).ownerSeed, (nodeDevice_frame h).next,
    fun _ ho hgone => nodeDevice_objects hc h ho hgone, fun _ _ _ _ ho => nodeDevice_found h ho⟩

/-! ## Programs -/

section Programs

variable {ε α β : Type}

theorem Cmd.benign.flushes {c : Cmd} (h : c.benign) : c.Flushes gone := by
  unfold Cmd.Flushes
  split
  · exact absurd h (by simp [Cmd.benign, TpmCmd.benign])
  · trivial

theorem kept_closed (P : Platform) (faults : TpmCmd → Bool) (gone : Nat → Prop) :
    Prog.Closed (Prog.Moves (nodeDevice P faults) (Kept gone)) :=
  Prog.moves_closed _ Kept.refl fun _ _ _ => Kept.trans

theorem kept_of_only {p : Code α} (hp : p.Only (Cmd.Flushes gone)) :
    p.Moves (nodeDevice P faults) (Kept gone) :=
  Prog.Only.moves (nodeDevice P faults) Kept.refl (fun _ _ _ => Kept.trans)
    (fun _ _ _ _ _ hc hd => nodeDevice_kept hc hd) hp

/-- A command whose answer matters, and what comes after it. -/
theorem kept_tpmCall_bind [FromTss ε] {ctx : Context} {c : TpmCmd} {f : c.Res → Fallible ε β}
    (hc : (Cmd.tpm ctx c).Flushes gone)
    (hf : ∀ a m₁, Performs P faults m ctx c a m₁ →
      (f a).run.wp (nodeDevice P faults) (fun _ _ m' => Kept gone m₁ m') m₁) :
    (tpmCall ctx c >>= f).run.wp (nodeDevice P faults) (fun _ _ m' => Kept gone m m') m := by
  refine Prog.wp_run_bind.mpr (wp_tpmCall.mpr ⟨fun _ _ => Kept.refl m, fun a m₁ hp => ?_⟩)
  obtain ⟨e, he⟩ := hp.step
  have hkept : Kept gone m m₁ := nodeDevice_kept (c := .tpm ctx c) hc he
  exact Prog.wp_mono (fun _ _ _ h => hkept.trans h) (hf a m₁ hp)

theorem kept_nullauth [FromTss ε] {ctx : Context} {f : Context → Fallible ε α}
    (hbody : (f (ctx.withSession m)).run.wp (nodeDevice P faults)
      (fun _ _ m' => Kept gone (m.inSession ctx) m') (m.inSession ctx)) :
    (ctx.executeWithNullauthSession f).run.wp (nodeDevice P faults)
      (fun _ _ m' => Kept gone m m') m := by
  have hopen : Kept gone m (m.inSession ctx) :=
    ⟨rfl, Nat.le_succ _, fun _ ho _ => ho, fun _ _ _ _ ho => ho⟩
  refine wp_nullauth (fun _ _ => Kept.refl m) (fun _ => Kept.refl m) (fun _ _ => hopen)
    (Prog.wp_mono ?_ hbody)
  intro tr r m₂ h
  exact ⟨fun _ _ => hopen.trans h, fun _ => (hopen.trans h).trans
    ⟨rfl, Nat.le_refl _, fun _ ho _ => ho, fun _ _ _ _ ho => ho⟩⟩

/-- Unsealing flushes what it loaded. -/
theorem TpmSealer.unseal_kept (self : TpmSealer) (ciphertext : Bytes) :
    (self.unseal P ciphertext).run.Moves (nodeDevice P faults) (Kept fun _ => False) := by
  intro m
  unfold TpmSealer.unseal
  split
  · exact Kept.refl m
  · exact Kept.refl m
  · refine Prog.wp_mono (fun _ _ _ h => Kept.of_fresh h) (kept_nullauth ?_)
    refine kept_tpmCall_bind trivial fun handle m₁ hload => ?_
    obtain ⟨-, t, o, -, -, rfl, -⟩ := performs_load.mp hload
    refine kept_of_only ?_ m₁
    refine Prog.Only.run_bind (only_tpmCall trivial) fun data => ?_
    exact Prog.Only.run_bind (only_tpmCall (Nat.le_succ _)) fun _ => trivial

theorem KmsService.decrypt_kept (self : KmsService) (keyId : String) (ciphertext : Bytes) :
    (self.decrypt P keyId ciphertext).Moves (nodeDevice P faults) (Kept fun _ => False) :=
  decrypt_closed P (kept_closed P faults _) self keyId ciphertext fun lock _ _ =>
    lock.value.unseal_kept ciphertext

/-- Wrapping flushes the external key it loaded. -/
theorem Fleet.duplicateForJoiner_kept (context : Context) (fleetKeyHandle : Handle)
    (joinerPublic : Public) :
    (duplicateForJoiner context fleetKeyHandle joinerPublic).run.Moves (nodeDevice P faults)
      (Kept fun _ => False) := by
  intro m
  have hX : ∀ c : Cmd, c.benign → c.Flushes (m.tpm.next ≤ ·) := fun _ => Cmd.benign.flushes
  unfold duplicateForJoiner
  refine Prog.wp_mono (fun _ _ _ h => Kept.of_fresh h) (Prog.wp_run_bind.mpr (Prog.wp_mono ?_
    (kept_of_only (only_nullauth_benign hX fun _ => only_benign hX rfl) m)))
  intro tr r m₁ h₁
  cases r with
  | error e => exact h₁
  | ok fleetKeyPublic =>
    refine Prog.wp_mono (fun _ _ _ h => h₁.trans h) (kept_tpmCall_bind trivial ?_)
    intro external m₂ hload
    obtain ⟨rfl, -⟩ := performs_loadExternalPublic.mp hload
    refine kept_of_only ?_ m₂
    refine Prog.Only.run_bind (duplicationAuthPolicySession_only hX context) fun session => ?_
    refine Prog.Only.run_bind (Prog.Only.bind (only_tpmCall trivial) fun _ => trivial)
      fun result => ?_
    refine Prog.Only.run_bind (only_benign hX rfl) fun _ => ?_
    refine Prog.Only.run_bind (Prog.Only.bind (only_tpmCall h₁.next) fun _ => trivial) fun _ => ?_
    exact Prog.Only.run_bind trivial fun _ => trivial

theorem EnrollService.duplicate_kept (service : EnrollService) (request : Request) :
    (service.duplicate P request).Moves (nodeDevice P faults) (Kept fun _ => False) := by
  have hcall : ∀ c : Cmd, c.Flushes (fun _ => False) →
      (issue c).Moves (nodeDevice P faults) (Kept fun _ => False) :=
    fun _ hc => kept_of_only ⟨hc, fun _ => trivial⟩
  exact duplicate_closed P service request (kept_closed P faults _) (fun _ => hcall _ trivial)
    (hcall _ trivial) (hcall _ trivial) (fun _ => Fleet.duplicateForJoiner_kept _ _ _)
    (hcall _ trivial) (hcall _ trivial) (hcall _ trivial)

end Programs

end Sceau
