import Sceau.Node.Kept

/-!
# The programs where nothing fails on its own

A command then fails only where the TPM has to refuse it, so a program's outcome is decided by the
machine it starts on. The probe of `serve` finds the fleet key exactly when there is one; replacing
it never leaves the slot empty; unsealing an object of the ledger under its key gives its data.
-/

set_option autoImplicit false

namespace Sceau

open Lib

variable {P : Platform} {m : Machine} {context : Context}

/-! ## The slot

Replacing a key deletes the old one first; here the step that follows cannot fail, so the slot is never
left empty. -/

/-- If the blob is a duplicate on record, it is one of the key it says it is. -/
def Ledger.ImportsAs (l : Ledger) (blob : DuplicationBlob) : Prop :=
  ∀ d, l.findDup blob.encryptionKey blob.duplicatePrivate blob.encryptedSecret = some d →
    d.key = blob.fleetKeyPublic

namespace Fleet

theorem loadFleetKey_noFault :
    (loadFleetKey context).run.wp (nodeDevice P noFault)
      (fun _ r _ => ∀ k, m.tpm.slot = some k → r = .ok (.persistent k)) m := by
  refine wp_persistentHandle fun ph hph => ?_
  refine wp_nullauth_noFault
    (Q := fun r _ => ∀ k, m.tpm.slot = some k → r = .ok (Handle.persistent k)) ?_
  refine wp_tpmCall.mpr ⟨fun hf e => ⟨rfl, fun k hk => ?_⟩, fun h m' hp => ?_⟩
  · simp [Fails, noFault, refuses, hph, hk] at hf
  · obtain ⟨-, ⟨k', hk', rfl⟩, rfl⟩ := performs_trFromTpmPublic.mp hp
    refine ⟨rfl, fun k hk => ?_⟩
    rw [inSession_slot, hk] at hk'
    rw [Option.some.inj hk']

/-- Evicting the key in the slot. -/
theorem evict_persistent_noFault {k : Public} {ph : PersistentTpmHandle}
    (hph : ph.value = fleetKeyPersistentHandle) (hslot : m.tpm.slot = some k) :
    (context.executeWithNullauthSession fun ctx => ctx.evictControl (.persistent k) ph :
      Fallible FleetError Handle).run.wp (nodeDevice P noFault)
      (fun _ r m' => (∃ h, r = .ok h) ∧ m'.tpm.slot = none) m := by
  refine wp_nullauth_noFault (Q := fun r m' => (∃ h, r = .ok h) ∧ m'.tpm.slot = none) ?_
  refine wp_tpmCall.mpr ⟨fun hf e => ?_, fun h m' hp => ?_⟩
  · simp [Fails, noFault, refuses, hph, hslot, hasAuth_inSession] at hf
  · obtain ⟨-, -, -, -, rfl⟩ := performs_evict_persistent.mp hp
    exact ⟨rfl, ⟨h, rfl⟩, rfl⟩

/-- Persisting a loaded key in an empty slot. -/
theorem persist_noFault {id : Nat} {pub : Public} (hslot : m.tpm.slot = none)
    (hobj : ⟨context.id, id, .key pub⟩ ∈ m.tpm.objects) :
    (persist context (.transient id (.key pub))).run.wp (nodeDevice P noFault)
      (fun _ r m' => r = .ok (.persistent pub) ∧ m'.tpm.slot = some pub) m := by
  refine wp_persistentHandle fun ph hph => ?_
  refine wp_nullauth_noFault
    (Q := fun r m' => r = .ok (Handle.persistent pub) ∧ m'.tpm.slot = some pub) ?_
  refine wp_tpmCall.mpr ⟨fun hf e => ?_, fun h m' hp => ?_⟩
  · simp [Fails, noFault, refuses, hph, hslot, hasAuth_inSession, hobj] at hf
  · obtain ⟨-, -, -, -, -, rfl, rfl⟩ := performs_evict_transient.mp hp
    exact ⟨rfl, rfl, rfl⟩

/-- Deleting leaves the slot empty. -/
theorem deletePersistedFleetKey_noFault :
    (deletePersistedFleetKey context).run.wp (nodeDevice P noFault)
      (fun _ r m' => r = .ok () ∧ m'.tpm.slot = none) m := by
  unfold deletePersistedFleetKey
  rw [Prog.wp_run_bind, Prog.wp_run_lift]
  refine Prog.wp_mono ?_ (Prog.wp_and loadFleetKey_noFault (Prog.wp_and loadFleetKey_wp
    (grown_of_only (loadFleetKey_only (fun _ h => h) _))))
  intro tr r m₁ h
  obtain ⟨hexact, hok, hgrown⟩ := h
  cases r with
  | error e =>
    have hnone : m.tpm.slot = none := by
      cases hs : m.tpm.slot with
      | none => rfl
      | some k => cases hexact k hs
    exact ⟨rfl, hgrown.slot.trans hnone⟩
  | ok existing =>
    obtain ⟨k, rfl, hk⟩ := hok existing rfl
    refine wp_persistentHandle fun ph hph => ?_
    refine Prog.wp_run_bind.mpr (Prog.wp_mono ?_
      (evict_persistent_noFault hph (hgrown.slot.trans hk)))
    intro tr r m₂ hr
    obtain ⟨⟨h, rfl⟩, hslot⟩ := hr
    exact ⟨rfl, hslot⟩

/-- What is imported and then loaded is a key: the object loaded is the one just added. -/
theorem importAndLoad_wp {faults : TpmCmd → Bool} {ctx : Context} {transport : Handle}
    {blob : DuplicationBlob} :
    Prog.wpOk (nodeDevice P faults) (importAndLoad ctx transport blob)
      (fun h m' => (∃ id, h = .transient id (.key blob.fleetKeyPublic) ∧
          ⟨ctx.id, id, .key blob.fleetKeyPublic⟩ ∈ m'.tpm.objects) ∧ m.ledger.ImportsAs blob) m := by
  unfold importAndLoad
  refine Prog.wpOk_bind (wpOk_tpmCall fun priv m₁ himport => wpOk_tpmCall fun h m₂ hload => ?_)
  obtain ⟨t, ht, hdup, -, rfl⟩ := performs_import himport
  obtain ⟨-, t', o, ht', ho, rfl, rfl⟩ := performs_load.mp hload
  have hsame : t' = t := Option.some.inj (ht'.symm.trans ht)
  subst hsame
  have hkey : o = ⟨t', blob.fleetKeyPublic, priv, .key⟩ := by
    unfold Ledger.findObject at ho
    rw [List.find?_cons_of_pos (by simp)] at ho
    exact (Option.some.inj ho).symm
  subst hkey
  exact ⟨⟨_, rfl, List.mem_cons_self ..⟩, fun d hd => (hdup d hd).2⟩

/-- **A join keeps the slot filled**: it holds what it held, or the key that was imported. -/
theorem importAndPersist_noFault {transport : Handle} {blob : DuplicationBlob} :
    (importAndPersist context transport blob).run.wp (nodeDevice P noFault)
      (fun _ _ m' => m'.tpm.slot = m.tpm.slot ∨
        (m'.tpm.slot = some blob.fleetKeyPublic ∧ m.ledger.ImportsAs blob)) m := by
  have hquiet : ∀ c : Cmd, c.benign → c.quiet TpmCmd.movesSlot := fun _ => Cmd.benign.slot
  have himport : ∀ ctx : Context, (importAndLoad ctx transport blob).run.Only
      (Cmd.quiet TpmCmd.movesSlot) := fun _ =>
    Prog.Only.run_bind (only_tpmCall rfl) fun _ => only_tpmCall rfl
  have hdelete : (deletePersistedFleetKey context).run.Moves (nodeDevice P noFault)
      (Kept fun _ => False) := kept_of_only
    (deletePersistedFleetKey_only (fun _ => Cmd.benign.flushes) context fun _ _ _ => trivial)
  unfold importAndPersist
  refine Prog.wp_run_bind.mpr (Prog.wp_mono ?_
    (grown_of_only (startSession_only (fun _ h => h) context _)))
  intro tr r m₁ hgrown
  cases r with
  | error e => exact .inl hgrown.slot
  | ok session =>
    refine Prog.wp_run_bind.mpr (Prog.wp_run_lift.mpr (Prog.wp_mono ?_ (Prog.wp_and
      importAndLoad_wp (slot_of_only (himport _) m₁))))
    intro tr result m₂ hload
    obtain ⟨hok, hslot₂⟩ := hload
    have hslot : m₂.tpm.slot = m.tpm.slot := hslot₂.trans hgrown.slot
    refine Prog.wp_run_bind.mpr (wp_tpmCall.mpr ⟨fun _ _ => .inl hslot, fun _ m₃ hflush => ?_⟩)
    obtain ⟨-, rfl⟩ := performs_flushSession.mp hflush
    cases result with
    | error e => exact .inl hslot
    | ok key =>
      obtain ⟨⟨id, rfl, hobj⟩, hdup⟩ := hok key rfl
      rw [hgrown.ledger] at hdup
      -- from here on nothing fails: the slot is emptied, and filled again
      show (deletePersistedFleetKey context >>= _ : Fallible FleetError Handle).run.wp _ _ _
      refine Prog.wp_run_bind.mpr (Prog.wp_mono ?_
        (Prog.wp_and deletePersistedFleetKey_noFault (hdelete _)))
      intro tr r m₄ h₄
      obtain ⟨⟨rfl, hempty⟩, hkept⟩ := h₄
      refine Prog.wp_run_bind.mpr (Prog.wp_mono ?_
        (persist_noFault hempty (hkept.objects _ hobj not_false)))
      intro tr r m₅ h₅
      obtain ⟨rfl, hfilled⟩ := h₅
      refine Prog.wp_mono (fun _ _ m₆ h₆ => .inr ⟨h₆.trans hfilled, hdup⟩) (slot_of_only ?_ m₅)
      exact Prog.Only.run_bind (only_nullauth_benign hquiet fun _ => only_tpmCall rfl)
        fun _ => trivial

end Fleet

theorem joinFinish_noFault {join : PendingJoin} {response : DuplicateResponse} :
    (joinFinish P join response).run.wp (nodeDevice P noFault)
      (fun _ _ m' => m'.tpm.slot = m.tpm.slot ∨
        ∃ blob, decodeResponse P response = .ok blob ∧ m'.tpm.slot = some blob.fleetKeyPublic ∧
          m.ledger.ImportsAs blob) m := by
  unfold joinFinish
  cases hdecode : decodeResponse P response with
  | error e => exact .inl rfl
  | ok blob =>
    show (Prog.mapErr JoinError.fleet _ >>= _ : Fallible JoinError Unit).run.wp _ _ _
    refine Prog.wp_run_bind.mpr (Prog.wp_mapErr.mpr (Prog.wp_mono ?_
      Fleet.importAndPersist_noFault))
    intro tr r m' h
    rcases h with h | ⟨hslot, himports⟩
    · cases r <;> exact .inl h
    · cases r <;> exact .inr ⟨blob, rfl, hslot, himports⟩

/-- A service started on an occupied slot has the fleet key's sealer. -/
theorem runServe_noFault {k : Public} (hslot : m.tpm.slot = some k) :
    Prog.wpOk (nodeDevice P noFault) (runServe P false)
      (fun service _ => service.legacySealer.isSome = true) m := by
  have hbuild : Prog.wpOk (nodeDevice P noFault) (chooseSealer P false)
      (fun x _ => x.2.isSome = true) m := by
    show Prog.wpOk _ (buildSealer P) _ _
    unfold buildSealer
    refine Prog.wpOk_bind (Prog.wpOk_mapErr (wpOk_contextNew ?_))
    refine Prog.wpOk_bind (Prog.wp_run_lift.mpr (Prog.wp_mono ?_ Fleet.loadFleetKey_noFault))
    intro tr found m₁ hexact found' hfound
    obtain rfl := Except.ok.inj hfound
    obtain rfl := hexact k hslot
    refine Prog.wpOk_bind (Prog.wpOk_mapErr (Prog.wpOk_mono ?_ TpmSealer.fromPrimary_wp))
    intro s m₂ _
    refine Prog.wpOk_bind (Prog.wpOk_mapErr (Prog.wpOk_mapErr
      (Prog.wpOk_mono ?_ TpmSealer.new_wp)))
    exact fun legacy m₃ _ => Prog.wpOk_pure rfl
  unfold runServe
  refine Prog.wpOk_bind (Prog.wpOk_mapErr (Prog.wpOk_mono ?_ hbuild))
  intro x m₁ hx
  obtain ⟨s, legacy⟩ := x
  cases legacy with
  | none => cases hx
  | some legacy => exact Prog.wpOk_pure rfl

/-! ## Unsealing

The converse of what `Node/Rules.lean` says: an object that is there is found, and its data returned. -/

theorem resolve_addObject (m : Machine) (ctx : Context) (obj : Obj) :
    Machine.resolve { m with tpm := m.tpm.addObject ctx.id obj } ctx
      (.transient m.tpm.next obj) = some obj := by
  simp [Machine.resolve, Tpm.addObject]

theorem TpmSealer.unseal_noFault (self : TpmSealer) {ciphertext plaintext : Bytes}
    {t pub : Public} {priv : Private}
    (hdecode : envelopeDecode P.unmarshall P.privateTryFrom ciphertext = some (.ok (pub, priv)))
    (hparent : m.storageParent self.context self.primary = some t)
    (hfound : m.ledger.findObject t pub priv = some ⟨t, pub, priv, .data plaintext⟩) :
    (self.unseal P ciphertext).run.wp (nodeDevice P noFault)
      (fun _ r _ => r = .ok plaintext) m := by
  unfold TpmSealer.unseal
  simp only [hdecode]
  have hauth := hasAuth_inSession m self.context
  rw [← storageParent_inSession] at hparent
  refine wp_nullauth_noFault (Q := fun r _ => r = .ok plaintext) (Prog.wp_run_bind.mpr ?_)
  refine wp_tpmCall.mpr ⟨fun hf e => ?_, fun handle m₁ hload => ?_⟩
  · simp [Fails, noFault, refuses, hparent, hauth, hfound] at hf
  obtain ⟨-, t', o, ht', ho, rfl, rfl⟩ := performs_load.mp hload
  obtain rfl := Option.some.inj (ht'.symm.trans hparent)
  obtain rfl := Option.some.inj (ho.symm.trans hfound)
  -- the machine with the object loaded
  have hauth₁ : Machine.hasAuth { m.inSession self.context with
      tpm := (m.inSession self.context).tpm.addObject (self.context.withSession m).id
        (.sealedData pub plaintext) } (self.context.withSession m) = true := hauth
  have hloaded := resolve_addObject (m.inSession self.context) (self.context.withSession m)
    (.sealedData pub plaintext)
  refine Prog.wp_run_bind.mpr (wp_tpmCall.mpr ⟨fun hf e => ?_, fun d m₂ hunseal => ?_⟩)
  · simp only [Fails, noFault, refuses, CreatedObject.load] at hf
    rw [hloaded, hauth₁] at hf
    simp at hf
  obtain ⟨-, ⟨pub', hd⟩, rfl⟩ := performs_unseal.mp hunseal
  obtain ⟨-, rfl⟩ := Obj.sealedData.inj (Option.some.inj (hloaded.symm.trans hd))
  refine Prog.wp_run_bind.mpr (wp_tpmCall.mpr ⟨fun hf e => ?_, fun _ m₃ hflush => ?_⟩)
  · simp [Fails, noFault, refuses, CreatedObject.load, Tpm.addObject] at hf
  obtain ⟨-, rfl⟩ := performs_flushTransient.mp hflush
  exact ⟨rfl, rfl⟩

/-- **What was sealed is decrypted**, by a service that selects a sealer under whose key it was. -/
theorem KmsService.decrypt_noFault (self : KmsService) {keyId : String} {lock : Mutex TpmSealer}
    (hsel : self.selected keyId = some lock) (hlock : lock.poisoned = false)
    {ciphertext plaintext : Bytes} {t pub : Public} {priv : Private}
    (hdecode : envelopeDecode P.unmarshall P.privateTryFrom ciphertext = some (.ok (pub, priv)))
    (hparent : m.storageParent lock.value.context lock.value.primary = some t)
    (hfound : m.ledger.findObject t pub priv = some ⟨t, pub, priv, .data plaintext⟩) :
    (self.decrypt P keyId ciphertext).wp (nodeDevice P noFault)
      (fun _ x _ => x.2 = self ∧ x.1 = .ok plaintext) m := by
  refine self.decrypt_wp (Q := fun r _ => r = .ok plaintext) (fun hnone => ?_) fun lock' hsel' => ?_
  · rw [hsel] at hnone
    cases hnone
  obtain rfl := Option.some.inj (hsel'.symm.trans hsel)
  refine Mutex.call_wp (Q := fun r _ => r = .ok plaintext) (fun hpoisoned => ?_) fun _ => ?_
  · rw [hlock] at hpoisoned
    cases hpoisoned
  refine Prog.wp_mono ?_ (lock'.value.unseal_noFault hdecode hparent hfound)
  intro tr r m' hr
  subst hr
  exact ⟨nofun, fun a ha => congrArg Except.ok (Except.ok.inj ha).symm, nofun⟩

/-! ## Every command is answered

A weakest precondition says nothing of a program that gets stuck. None does: a command that is not
refused can be performed. -/

/-- A command that wraps nothing needs nothing of the environment. -/
theorem perform_isSome {ctx : Context} {c : TpmCmd} (hc : c.movesLedger = false)
    (hr : refuses m ctx c = false) : (perform P m ctx c {}).isSome = true := by
  cases c with
  | startAuthSession ty => rfl
  | trSessSetAttributes s cs => rfl
  | policyCommandCode s code => rfl
  | policyGetDigest s =>
    simpa [perform, Option.isSome_iff_ne_none] using (Bool.or_eq_false_iff.mp hr).2
  | flushContext h =>
    cases h with
    | persistent pub => cases hr
    | _ => rfl
  | createPrimary template => simp [perform]
  | readPublic h => simpa [refuses, perform, Option.isSome_iff_ne_none] using hr
  | trFromTpmPublic h =>
    simpa [perform, Option.isSome_iff_ne_none] using (Bool.or_eq_false_iff.mp hr).2
  | loadExternalPublic pub => rfl
  | load parent priv pub =>
    simp only [refuses] at hr
    split at hr
    · rename_i t ht
      simpa [perform, ht, Option.isSome_iff_ne_none] using (Bool.or_eq_false_iff.mp hr).2
    · cases hr
  | evictControl h ph => cases h <;> rfl
  | «unseal» h =>
    simp only [refuses] at hr
    split at hr
    · rename_i pub d hd
      simp [perform, hd]
    · cases hr
  | create _ _ _ => cases hc
  | duplicate _ _ _ => cases hc
  | «import» _ _ _ _ _ _ => cases hc

theorem nodeDevice_answers {faults : TpmCmd → Bool} {c : Cmd} (hc : c.quiet TpmCmd.movesLedger)
    (m : Machine) : ∃ e r m', nodeDevice P faults c m e = some (r, m') := by
  cases c with
  | tpm ctx c =>
    cases hr : refuses m ctx c with
    | true => exact ⟨.fail (.rc 0), .error (.rc 0), m, Fails.step (P := P) (.inr hr) _⟩
    | false =>
      obtain ⟨⟨a, m'⟩, hp⟩ := Option.isSome_iff_exists.mp (perform_isSome (P := P) hc hr)
      obtain ⟨e, he⟩ := Performs.step ⟨{}, hr, nofun, hp⟩
      exact ⟨e, _, _, he⟩
  | openContext => exact ⟨.ok {}, _, _, rfl⟩
  | fetchSub => exact ⟨.counter 0, _, _, rfl⟩
  | readFile path => exact ⟨.file none, _, _, rfl⟩
  | duplicateRpc request => exact ⟨.reply none, _, _, rfl⟩
  | _ => exact ⟨.io true, _, _, rfl⟩

theorem KmsService.decrypt_total {faults : TpmCmd → Bool} (self : KmsService) (keyId : String)
    (ciphertext : Bytes) (m : Machine) :
    ∃ es x m' tr, (self.decrypt P keyId ciphertext).exec (nodeDevice P faults) m es =
      some (x, m', tr) :=
  Prog.Only.exec_total (fun _ m hc => nodeDevice_answers hc m)
    (KmsService.decrypt_only (fun _ => Cmd.benign.ledger) P self keyId ciphertext fun _ _ => rfl) m

end Sceau
