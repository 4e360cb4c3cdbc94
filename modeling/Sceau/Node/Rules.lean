import Sceau.Fleet.Slot
import Sceau.Node.Commands

/-!
# What the node's programs do

One specification per program, as a weakest precondition. A sealer **names** its key: its handle
stands for that key or for nothing, and its `key_id` is the key's. Everything the cluster modules say
about a `key_id` goes through that.
-/

set_option autoImplicit false

namespace Sceau

open Lib

variable {P : Platform} {faults : TpmCmd → Bool} {m : Machine}

/-! ## Handles that name a key

A handle that a sealer holds may have become stale, but it never stands for another key: a transient
number is not given out twice and a persistent handle carries the public area it was read with. -/

/-- The handle was made for this key. -/
def Handle.Names (h : Handle) (t : Public) : Prop :=
  h = .persistent t ∨ ∃ id, h = .transient id (.key t)

theorem Handle.Names.resolve {h : Handle} {t : Public} (hn : h.Names t) {ctx : Context} {o : Obj}
    (ho : m.resolve ctx h = some o) : o = .key t := by
  rcases hn with rfl | ⟨id, rfl⟩
  · simp only [Machine.resolve] at ho
    split at ho
    · exact (Option.some.inj ho).symm
    · cases ho
  · simp only [Machine.resolve] at ho
    split at ho
    · exact (Option.some.inj ho).symm
    · cases ho

theorem storageParent_eq_some {ctx : Context} {h : Handle} {t : Public} :
    m.storageParent ctx h = some t ↔ m.resolve ctx h = some (.key t) ∧
      (t.objectAttributes.restricted && t.objectAttributes.decrypt) = true := by
  unfold Machine.storageParent
  constructor
  · intro hp
    split at hp
    · rename_i pub hres
      split at hp
      · rename_i hattr
        obtain rfl := Option.some.inj hp
        exact ⟨hres, hattr⟩
      · cases hp
    · cases hp
  · intro hp
    simp [hp.1, hp.2]

/-- What is created or loaded under such a handle is created or loaded under its key. -/
theorem Handle.Names.storageParent {h : Handle} {t t' : Public} (hn : h.Names t) {ctx : Context}
    (hp : m.storageParent ctx h = some t') : t' = t :=
  Obj.key.inj (hn.resolve (storageParent_eq_some.mp hp).1)

/-- The sealer's handle and its `key_id` belong to one key. -/
def TpmSealer.Named (P : Platform) (s : TpmSealer) : Prop :=
  ∃ t, s.primary.Names t ∧ s.keyId = keyIdOf P t

def KmsService.Named (P : Platform) (service : KmsService) : Prop :=
  service.sealer.value.Named P ∧ ∀ legacy ∈ service.legacySealer, legacy.value.Named P

/-! ## Building sealers

A sealer of the node's own makes the SRK anew each time it is built; one on the fleet key takes what
is in the slot. -/

/-- A sealer of its own: the SRK, loaded and numbered anew. -/
structure TpmSealer.Srk (P : Platform) (m m' : Machine) (s : TpmSealer) (id : Nat) (t : Public) :
    Prop where
  primary : s.primary = .transient id (.key t)
  keyId : s.keyId = keyIdOf P t
  template : ∃ random, t = m.tpm.primary srkPublic random
  loaded : ⟨s.context.id, id, .key t⟩ ∈ m'.tpm.objects
  fresh : m.tpm.next ≤ id

theorem TpmSealer.new_wp :
    Prog.wpOk (nodeDevice P faults) (TpmSealer.new P)
      (fun s m' => ∃ id t, s.Srk P m m' id t) m := by
  unfold TpmSealer.new
  refine Prog.wpOk_bind (wpOk_contextNew ?_)
  refine Prog.wpOk_bind (Prog.wpOk_mono ?_ (wp_nullauth_ok
    (Q := fun (x : Handle × String × Bool) m₂ => ∃ id t, x.1 = .transient id (.key t) ∧
      x.2.1 = keyIdOf P t ∧ (∃ random, t = m.tpm.primary srkPublic random) ∧
      ⟨m.tpm.next, id, .key t⟩ ∈ m₂.tpm.objects ∧ m.tpm.next ≤ id) (fun _ _ _ h => h) ?_))
  · intro x m₂ h
    obtain ⟨id, t, hprimary, hkeyId, htemplate, hloaded, hfresh⟩ := h
    exact Prog.wpOk_pure ⟨id, t, hprimary, hkeyId, htemplate, hloaded, hfresh⟩
  · refine Prog.wpOk_bind (wpOk_tpmCall fun primary m₁ hcreate => ?_)
    obtain ⟨-, random, -, rfl, rfl⟩ := performs_createPrimary.mp hcreate
    refine Prog.wpOk_bind (wpOk_tpmCall fun pub m₂ hread => ?_)
    obtain ⟨⟨o, ho, rfl⟩, rfl⟩ := performs_readPublic.mp hread
    have hobj : o = .key (m.tpm.primary srkPublic random) :=
      Handle.Names.resolve (.inr ⟨_, rfl⟩) ho
    subst hobj
    exact Prog.wpOk_pure
      ⟨_, _, rfl, rfl, ⟨random, rfl⟩, List.mem_cons_self .., Nat.le_add_right _ 2⟩

theorem TpmSealer.fromPrimary_wp {context : Context} {k : Public} :
    Prog.wpOk (nodeDevice P faults) (TpmSealer.fromPrimary P context (.persistent k))
      (fun s _ => s.primary = .persistent k ∧ s.keyId = keyIdOf P k) m := by
  unfold TpmSealer.fromPrimary
  refine Prog.wpOk_bind (Prog.wpOk_mono ?_ (wp_nullauth_ok (Q := fun pub _ => pub = k)
    (fun _ _ _ h => h) (wpOk_tpmCall fun pub m₂ hread => ?_)))
  · intro pub m₂ hpub
    subst hpub
    exact Prog.wpOk_pure ⟨rfl, rfl⟩
  · obtain ⟨⟨o, ho, rfl⟩, rfl⟩ := performs_readPublic.mp hread
    have hobj : o = .key k := Handle.Names.resolve (.inl rfl) ho
    rw [hobj]
    rfl

/-- The handle `load_fleet_key` returns is that of the key in the slot. -/
theorem loadFleetKey_wp {context : Context} :
    Prog.wpOk (nodeDevice P faults) (Fleet.loadFleetKey context)
      (fun h _ => ∃ k, h = .persistent k ∧ m.tpm.slot = some k) m := by
  refine Fleet.wp_persistentHandle fun ph _ => ?_
  refine wp_nullauth_ok (fun _ _ _ h => h) (wpOk_tpmCall fun h m' hp => ?_)
  obtain ⟨-, ⟨k, hk, rfl⟩, -⟩ := performs_trFromTpmPublic.mp hp
  exact ⟨k, rfl, hk⟩

/-! ## Enroll and join -/

theorem runEnroll_wp :
    Prog.wpOk (nodeDevice P faults) runEnroll
      (fun service _ => ∃ k, service.fleetKeyHandle = .persistent k ∧ m.tpm.slot = some k) m := by
  unfold runEnroll
  refine Prog.wpOk_bind (wpOk_contextNew ?_)
  refine Prog.wpOk_bind (Prog.wpOk_mono ?_ loadFleetKey_wp)
  intro h m' hk
  obtain ⟨k, rfl, hslot⟩ := hk
  exact Prog.wpOk_pure ⟨k, rfl, hslot⟩

/-- Numbers are never given back. -/
theorem next_le {α : Type} (p : Code α) (m : Machine) :
    p.wp (nodeDevice P faults) (fun _ _ m' => m.tpm.next ≤ m'.tpm.next) m := by
  induction p generalizing m with
  | ret a => exact Nat.le_refl _
  | call c k ih =>
    intro e r m₁ hd
    refine Prog.wp_mono ?_ (ih r m₁)
    exact fun _ _ m' h => Nat.le_trans (nodeDevice_frame hd).next h

/-- The transport key of a join is numbered anew. -/
theorem createTransportKey_wp {context : Context} :
    Prog.wpOk (nodeDevice P faults) (Fleet.createTransportKey context)
      (fun x m' => ∃ id obj, x.1 = .transient id obj ∧ m.tpm.next ≤ id ∧ id < m'.tpm.next) m := by
  unfold Fleet.createTransportKey
  refine Prog.wpOk_bind (Prog.wp_mono ?_ (next_le _ m))
  intro tr r m₁ h₁ template _
  refine Prog.wpOk_bind (Prog.wpOk_mono ?_ (wp_nullauth_ok
    (Q := fun (h : Handle) m₂ => ∃ id obj, h = .transient id obj ∧ m.tpm.next ≤ id ∧
      id < m₂.tpm.next) (fun _ _ _ h => h) (wpOk_tpmCall fun h m₂ hcreate => ?_)))
  · intro created m₂ h₂
    obtain ⟨id, obj, rfl, hfresh, hlt⟩ := h₂
    refine Prog.wpOk_bind (Prog.wp_mono ?_ (next_le _ m₂))
    intro tr r m₃ h₃ pub _
    exact Prog.wpOk_pure ⟨id, obj, rfl, hfresh, Nat.lt_of_lt_of_le hlt h₃⟩
  · obtain ⟨-, unique, -, rfl, rfl⟩ := performs_createPrimary.mp hcreate
    exact ⟨_, _, rfl, Nat.le_succ_of_le h₁, Nat.lt_succ_self _⟩

theorem joinRequest_wp {seed k0sDataDir : String} :
    Prog.wpOk (nodeDevice P faults) (joinRequest P seed k0sDataDir)
      (fun join m' => ∃ id obj, join.transportHandle = .transient id obj ∧ m.tpm.next ≤ id ∧
        id < m'.tpm.next) m := by
  unfold joinRequest
  refine Prog.wpOk_bind (wpOk_contextNew ?_)
  refine Prog.wpOk_bind (Prog.wpOk_mapErr (Prog.wpOk_mono ?_ createTransportKey_wp))
  intro transport m₁ h₁
  obtain ⟨id, obj, hhandle, hfresh, hlt⟩ := h₁
  refine Prog.wpOk_bind (Prog.wp_mono ?_ (next_le _ m₁))
  intro _ _ m₂ h₂ _ _
  refine Prog.wpOk_bind (Prog.wp_mono ?_ (next_le _ m₂))
  intro _ _ m₃ h₃ _ _
  refine Prog.wpOk_bind (Prog.wp_mono ?_ (next_le _ m₃))
  intro _ _ m₄ h₄ connected _
  have hnext := Nat.le_trans h₂ (Nat.le_trans h₃ h₄)
  cases connected with
  | error => exact fun _ h => by cases h
  | ok =>
    dsimp only
    split
    · exact fun _ h => by cases h
    · exact Prog.wpOk_pure
        ⟨id, obj, hhandle, Nat.le_of_succ_le hfresh, Nat.lt_of_lt_of_le hlt hnext⟩

/-! ## The sealers of a service

`serve` has one sealer or two. Which, and what is known of each, is `SealerPair`; the later modules
take it apart instead of the code. -/

/-- The sealers `serve` starts with: the node's own, or the fleet key's and, behind it, the node's
own. -/
inductive SealerPair (P : Platform) (m m' : Machine) : TpmSealer → Option TpmSealer → Prop where
  | own {s : TpmSealer} {id : Nat} {t : Public} (srk : s.Srk P m m' id t) : SealerPair P m m' s none
  | fleet {s legacy : TpmSealer} {id : Nat} {t k : Public} (slot : m.tpm.slot = some k)
      (primary : s.primary = .persistent k) (keyId : s.keyId = keyIdOf P k)
      (srk : legacy.Srk P m m' id t) : SealerPair P m m' s (some legacy)

/-- A sealer built after the machine has grown. -/
theorem TpmSealer.Srk.before {m₀ m m' : Machine} {s : TpmSealer} {id : Nat} {t : Public}
    (h : s.Srk P m m' id t) (hgrown : Grown m₀ m) : s.Srk P m₀ m' id t := by
  obtain ⟨random, ht⟩ := h.template
  refine ⟨h.primary, h.keyId, ⟨random, ?_⟩, h.loaded, Nat.le_trans hgrown.next h.fresh⟩
  rw [ht]
  unfold Tpm.primary
  rw [hgrown.ownerSeed]

theorem grown_takeId (m : Machine) : Grown m { m with tpm := m.tpm.takeId } :=
  ⟨rfl, rfl, rfl, Nat.le_succ _, fun _ h => h⟩

theorem buildSealer_wp :
    Prog.wpOk (nodeDevice P faults) (buildSealer P)
      (fun x m' => SealerPair P m m' x.1 x.2) m := by
  unfold buildSealer
  refine Prog.wpOk_bind (Prog.wpOk_mapErr (wpOk_contextNew ?_))
  refine Prog.wpOk_bind (Prog.wp_run_lift.mpr (Prog.wp_mono ?_ (Prog.wp_and loadFleetKey_wp
    (grown_of_only (Fleet.loadFleetKey_only (fun _ h => h) _)))))
  intro tr found m₁ h found' hfound
  obtain rfl := Except.ok.inj hfound
  have hgrown := (grown_takeId m).trans h.2
  cases found with
  | error e =>
    refine Prog.wpOk_bind (Prog.wpOk_mapErr (Prog.wpOk_mono ?_ TpmSealer.new_wp))
    intro s m₂ hs
    obtain ⟨id, t, hsrk⟩ := hs
    exact Prog.wpOk_pure (.own (hsrk.before hgrown))
  | ok fleetKey =>
    obtain ⟨k, rfl, hslot⟩ := h.1 fleetKey rfl
    refine Prog.wpOk_bind (Prog.wpOk_mapErr (Prog.wp_mono ?_ (Prog.wp_and TpmSealer.fromPrimary_wp
      (grown_of_only (TpmSealer.fromPrimary_only (fun _ h => h) P _ _)))))
    intro tr r m₂ hr s hs
    obtain ⟨hprimary, hkeyId⟩ := hr.1 s hs
    refine Prog.wpOk_bind (Prog.wpOk_mapErr (Prog.wpOk_mapErr
      (Prog.wpOk_mono ?_ TpmSealer.new_wp)))
    intro legacy m₃ hlegacy
    obtain ⟨id, t, hsrk⟩ := hlegacy
    exact Prog.wpOk_pure (.fleet hslot hprimary hkeyId (hsrk.before (hgrown.trans hr.2)))

/-- The service of these sealers, as it starts. -/
def serviceOf (s : TpmSealer) (legacy : Option TpmSealer) : KmsService :=
  { sealer := { value := s }, legacySealer := legacy.map ({ value := · }) }

theorem runServe_wp {forceLegacy : Bool} :
    Prog.wpOk (nodeDevice P faults) (runServe P forceLegacy)
      (fun service m' => ∃ s legacy, SealerPair P m m' s legacy ∧ service = serviceOf s legacy)
      m := by
  have hchoose : Prog.wpOk (nodeDevice P faults) (chooseSealer P forceLegacy)
      (fun x m' => SealerPair P m m' x.1 x.2) m := by
    unfold chooseSealer
    split
    · refine Prog.wpOk_bind (Prog.wpOk_mapErr (Prog.wpOk_mono ?_ TpmSealer.new_wp))
      intro s m₁ hs
      obtain ⟨id, t, hsrk⟩ := hs
      exact Prog.wpOk_pure (.own hsrk)
    · exact buildSealer_wp
  unfold runServe
  refine Prog.wpOk_bind (Prog.wpOk_mapErr (Prog.wpOk_mono ?_ hchoose))
  intro x m' hpair
  obtain ⟨s, legacy⟩ := x
  cases legacy with
  | none => exact Prog.wpOk_pure ⟨s, none, hpair, rfl⟩
  | some legacy => exact Prog.wpOk_pure ⟨s, some legacy, hpair, rfl⟩

theorem TpmSealer.Srk.named {m m' : Machine} {s : TpmSealer} {id : Nat} {t : Public}
    (h : s.Srk P m m' id t) : s.Named P :=
  ⟨t, .inr ⟨id, h.primary⟩, h.keyId⟩

theorem SealerPair.named {m m' : Machine} {s : TpmSealer} {legacy : Option TpmSealer}
    (h : SealerPair P m m' s legacy) : (serviceOf s legacy).Named P := by
  cases h with
  | own srk => exact ⟨srk.named, by simp [serviceOf]⟩
  | fleet slot primary keyId srk =>
    refine ⟨⟨_, .inl primary, keyId⟩, ?_⟩
    simpa [serviceOf] using srk.named

/-! ## Sealing

A seal that succeeds has added one object to the ledger, under the sealer's key, and the ciphertext
decodes to it. One that fails has added none, if flushing does not fail: an error in closing the
session would come after the object was made. -/

/-- The object a successful seal has created, and the ciphertext that decodes to it. -/
structure TpmSealer.SealedAs (P : Platform) (s : TpmSealer) (plaintext : Bytes) (m m' : Machine)
    (t pub : Public) (priv : Private) (c : Bytes) : Prop where
  parent : m.storageParent s.context s.primary = some t
  fresh : m.ledger.findObject t pub priv = none
  ledger : m'.ledger = { m.ledger with
    objects := ⟨t, pub, priv, .data plaintext⟩ :: m.ledger.objects }
  decodes : envelopeDecode P.unmarshall P.privateTryFrom c = some (.ok (pub, priv))

/-- A public area made from a template of the repository marshals and comes back. -/
theorem envelope_of_create (hP : P.Lawful) {template pub : Public} {priv : Private}
    (htemplate : template ∈ templates) (hempty : template.unique = [])
    (hpub : pub = { template with unique := pub.unique })
    (hunique : pub.unique.length ≤ P.uniqueMax) (hpriv : priv.value.length ≤ P.privateMax) :
    ∃ c, envelopeEncode P.marshall Private.value pub priv = some c ∧
      envelopeDecode P.unmarshall P.privateTryFrom c = some (.ok (pub, priv)) := by
  have htpub : pub.template ∈ templates := by
    have hsame : pub.template = template := by
      rw [hpub]
      unfold Public.template
      rw [← hempty]
    rwa [hsame]
  obtain ⟨b, hm, hlen, hu⟩ := hP.roundTrip pub htpub hunique
  have hc : envelopeEncode P.marshall Private.value pub priv =
      some (envelopeVersion :: (be16 b.length ++ b ++ priv.value)) := by
    simp [envelopeEncode, hm]
  have hv : P.privateTryFrom priv.value = some priv := by
    simp [Platform.privateTryFrom, hpriv]
  exact ⟨_, hc, envelopeDecode_encode hm hlen hu hv hc⟩

theorem TpmSealer.seal_wp (hP : P.Lawful) (hflush : ∀ h, faults (.flushContext h) = false)
    (self : TpmSealer) (plaintext : Bytes) :
    (self.seal P plaintext).run.wp (nodeDevice P faults)
      (fun _ r m' => (m'.ledger = m.ledger ∧ ∃ e, r = .error (.error e)) ∨
        ∃ t pub priv c, self.SealedAs P plaintext m m' t pub priv c ∧ r = .ok c) m := by
  unfold TpmSealer.seal
  split
  · exact .inl ⟨rfl, _, rfl⟩
  · rw [Prog.wp_run_bind]
    refine wp_nullauth ?_ ?_ ?_ (wp_tpmCall.mpr ⟨?_, ?_⟩)
    · exact fun _ e => .inl ⟨rfl, _, rfl⟩
    · exact fun _ => .inl ⟨rfl, _, rfl⟩
    · exact fun _ e => .inl ⟨rfl, _, rfl⟩
    · intro _ e
      exact ⟨fun _ e => .inl ⟨rfl, _, rfl⟩, fun _ => .inl ⟨rfl, _, rfl⟩⟩
    · intro created m₂ hcreate
      obtain ⟨t, ht, hpriv, hunique, hpub, hfresh, rfl⟩ := performs_create hcreate
      rw [storageParent_inSession] at ht
      have htemplate : sealedPublic self.childFixed ∈ templates := by
        cases self.childFixed <;> simp [templates]
      obtain ⟨c, hc, hdecode⟩ := envelope_of_create hP htemplate rfl hpub hunique hpriv
      refine ⟨fun hf => absurd hf (not_fails_closing (hflush _) rfl), fun _ => ?_⟩
      obtain ⟨priv, pub⟩ := created
      simp only [hc]
      exact .inr ⟨t, pub, priv, c, ⟨ht, hfresh, rfl, hdecode⟩, rfl⟩

/-! ## Unsealing

What comes out was put in: data under the sealer's key that the ledger has. This needs no assumption on
the ciphertext, which may be anybody's. -/

/-- This data was sealed under a key with this `key_id`. -/
def Ledger.Sealed (P : Platform) (l : Ledger) (keyId : String) (d : Bytes) : Prop :=
  ∃ o ∈ l.objects, keyIdOf P o.parent = keyId ∧ o.content = .data d

/-- Whatever fails, unsealing ends in an error and not in a panic: the decoder does not panic, and
the rest is the TPM's answer. -/
theorem TpmSealer.unseal_ne_panic (self : TpmSealer) (ciphertext : Bytes) :
    (self.unseal P ciphertext).run.wp (nodeDevice P faults)
      (fun _ r _ => r ≠ .error .panic) m := by
  unfold TpmSealer.unseal
  split
  · rename_i hnone
    exact absurd hnone (envelopeDecode_ne_none _)
  · exact nofun
  · refine wp_nullauth (fun _ _ => nofun) (fun _ => nofun) (fun _ _ => nofun) ?_
    rw [Prog.wp_run_bind]
    refine wp_tpmCall.mpr ⟨fun _ _ => ⟨fun _ _ => nofun, fun _ => nofun⟩, fun h m₁ _ => ?_⟩
    simp only
    rw [Prog.wp_run_bind]
    refine wp_tpmCall.mpr ⟨fun _ _ => ⟨fun _ _ => nofun, fun _ => nofun⟩, fun d m₂ _ => ?_⟩
    simp only
    rw [Prog.wp_run_bind]
    exact wp_tpmCall.mpr ⟨fun _ _ => ⟨fun _ _ => nofun, fun _ => nofun⟩,
      fun _ m₃ _ => ⟨fun _ _ => nofun, fun _ => nofun⟩⟩

theorem CreatedObject.content_of_load {o : CreatedObject} {pub : Public} {d : Bytes}
    (h : o.load = .sealedData pub d) : o.content = .data d := by
  unfold CreatedObject.load at h
  cases hc : o.content with
  | data d' =>
    rw [hc] at h
    injection h with _ hd
    rw [hd]
  | key =>
    rw [hc] at h
    cases h

/-- **What is unsealed was sealed** under the sealer's own key. -/
theorem TpmSealer.unseal_wp (self : TpmSealer) (ciphertext : Bytes) :
    Prog.wpOk (nodeDevice P faults) (self.unseal P ciphertext)
      (fun d _ => ∃ o ∈ m.ledger.objects, m.storageParent self.context self.primary = some o.parent ∧
        o.content = .data d) m := by
  unfold TpmSealer.unseal
  split
  · exact nofun
  · exact nofun
  · refine wp_nullauth_ok (fun _ _ _ h => h) ?_
    refine Prog.wpOk_bind (wpOk_tpmCall fun h m₁ hload => ?_)
    obtain ⟨-, t, o, ht, ho, rfl, rfl⟩ := performs_load.mp hload
    rw [storageParent_inSession] at ht
    obtain ⟨hmem, rfl, -, -⟩ := Ledger.findObject_eq ho
    refine Prog.wpOk_bind (wpOk_tpmCall fun d m₂ hunseal => ?_)
    obtain ⟨-, ⟨pub, hresolve⟩, rfl⟩ := performs_unseal.mp hunseal
    have hdata : o.content = .data d := by
      simp only [Machine.resolve] at hresolve
      split at hresolve
      · exact CreatedObject.content_of_load (Option.some.inj hresolve)
      · cases hresolve
    exact Prog.wpOk_bind (wpOk_tpmCall fun _ m₃ _ => Prog.wpOk_pure ⟨o, hmem, ht, hdata⟩)

/-- A load under a key with this `key_id`, if a load at all. -/
def Cmd.LoadsUnder (P : Platform) (keyId : String) : Cmd → Prop
  | .tpm _ (.load h _ _) => ∃ t, h.Names t ∧ keyIdOf P t = keyId
  | _ => True

theorem TpmSealer.Named.unseal_loads {self : TpmSealer} (hn : self.Named P) (ciphertext : Bytes) :
    (self.unseal P ciphertext).run.Only (Cmd.LoadsUnder P self.keyId) := by
  unfold TpmSealer.unseal
  split
  · trivial
  · trivial
  · refine only_nullauth trivial (fun _ => trivial) (fun _ => trivial) fun ctx => ?_
    refine Prog.Only.run_bind (only_tpmCall ?_) fun handle => ?_
    · obtain ⟨t, ht, hkey⟩ := hn
      exact ⟨t, ht, hkey.symm⟩
    · refine Prog.Only.run_bind (only_tpmCall trivial) fun data => ?_
      exact Prog.Only.run_bind (only_tpmCall trivial) fun _ => trivial

/-! ## The service

The handlers add a mutex around the sealer. A panic would poison it; sealing and unsealing do not
panic, so a service stays as it was started. -/

section Service

variable {α : Type}

/-- A call on a sealer that does not panic leaves its mutex as it was. -/
theorem Mutex.call_wp {lock : Mutex TpmSealer} {f : TpmSealer → Fallible (Failure TpmError) α}
    {Q : Except (Failure KmsStatus) α → Machine → Prop}
    (hpoisoned : lock.poisoned = true → Q (.error (.error (.internal .poisoned))) m)
    (hf : lock.poisoned = false → (f lock.value).run.wp (nodeDevice P faults) (fun _ r m' =>
      (∀ e, r = .error (.error e) → Q (.error (.error (.internal (.tpm e)))) m') ∧
      (∀ a, r = .ok a → Q (.ok a) m') ∧ r ≠ .error .panic) m) :
    (lock.call f).wp (nodeDevice P faults) (fun _ x m' => x.2 = lock ∧ Q x.1 m') m := by
  unfold Mutex.call
  split
  · rename_i h
    exact ⟨rfl, hpoisoned h⟩
  · rename_i h
    refine Prog.wp_bind.mpr (Prog.wp_mono ?_ (hf (by simpa using h)))
    intro tr r m' hr
    obtain ⟨herr, hok, hpanic⟩ := hr
    cases r with
    | ok a => exact ⟨rfl, hok a rfl⟩
    | error e =>
      cases e with
      | error e => exact ⟨rfl, herr e rfl⟩
      | panic => exact absurd rfl hpanic

namespace KmsService

variable (self : KmsService)

/-- The outcomes of a seal, as `encrypt` passes them on: the service itself does not change. -/
theorem encrypt_wp (hP : P.Lawful) (hflush : ∀ h, faults (.flushContext h) = false)
    (plaintext : Bytes) :
    (self.encrypt P plaintext).wp (nodeDevice P faults)
      (fun _ x m' => x.2 = self ∧ ((m'.ledger = m.ledger ∧ ∃ e, x.1 = .error e) ∨
        ∃ t pub priv c, self.sealer.value.SealedAs P plaintext m m' t pub priv c ∧
          x.1 = .ok { ciphertext := c, keyId := self.sealer.value.keyId })) m := by
  unfold KmsService.encrypt
  refine Prog.wp_bind.mpr (Prog.wp_mono ?_ (Mutex.call_wp
    (Q := fun r m' => (m'.ledger = m.ledger ∧ ∃ e, r = .error e) ∨
      ∃ t pub priv c, self.sealer.value.SealedAs P plaintext m m' t pub priv c ∧ r = .ok c) ?_ ?_))
  · intro tr x m' hx
    obtain ⟨r, lock⟩ := x
    obtain ⟨rfl, hx⟩ := hx
    refine ⟨rfl, ?_⟩
    rcases hx with ⟨hm, e, rfl⟩ | ⟨t, pub, priv, c, hs, rfl⟩
    · exact .inl ⟨hm, e, rfl⟩
    · exact .inr ⟨t, pub, priv, c, hs, rfl⟩
  · exact fun _ => .inl ⟨rfl, _, rfl⟩
  · intro _
    refine Prog.wp_mono ?_ (TpmSealer.seal_wp hP hflush _ plaintext)
    intro tr r m' hr
    rcases hr with ⟨hm, e, rfl⟩ | ⟨t, pub, priv, c, hs, rfl⟩
    · exact ⟨fun _ _ => .inl ⟨hm, _, rfl⟩, nofun, nofun⟩
    · refine ⟨nofun, fun a ha => .inr ⟨t, pub, priv, c, hs, ?_⟩, nofun⟩
      exact congrArg Except.ok (Except.ok.inj ha).symm

/-- `decrypt` is one call of `unseal`, on the sealer its `key_id` selects. -/
theorem decrypt_wp {keyId : String} {ciphertext : Bytes}
    {Q : Except (Failure KmsStatus) Bytes → Machine → Prop}
    (hunknown : self.selected keyId = none → Q (.error (.error (unknownKeyId keyId))) m)
    (hcall : ∀ lock, self.selected keyId = some lock →
      (lock.call fun sealer => sealer.unseal P ciphertext).wp (nodeDevice P faults)
        (fun _ x m' => x.2 = lock ∧ Q x.1 m') m) :
    (self.decrypt P keyId ciphertext).wp (nodeDevice P faults)
      (fun _ x m' => x.2 = self ∧ Q x.1 m') m := by
  unfold KmsService.decrypt
  unfold selected at hunknown hcall
  split
  · rename_i h
    simp only [h, if_true] at hcall
    refine Prog.wp_bind.mpr (Prog.wp_mono ?_ (hcall _ rfl))
    intro tr x m' hx
    obtain ⟨r, lock⟩ := x
    obtain ⟨rfl, hx⟩ := hx
    exact ⟨rfl, hx⟩
  · rename_i h
    simp only [h, if_false] at hunknown hcall
    cases hl : self.legacySealer with
    | none => exact ⟨rfl, hunknown (by simp [hl])⟩
    | some legacy =>
      simp only
      split
      · rename_i hk
        have hsel : self.legacySealer.filter
            (fun legacy => legacy.poisoned ∨ keyId = legacy.value.keyId) = some legacy := by
          rw [hl, Option.filter_some, if_pos (decide_eq_true hk)]
        refine Prog.wp_bind.mpr (Prog.wp_mono ?_ (hcall legacy hsel))
        intro tr x m' hx
        obtain ⟨r, lock⟩ := x
        obtain ⟨rfl, hx⟩ := hx
        refine ⟨?_, hx⟩
        show { self with legacySealer := some lock } = self
        rw [← hl]
      · rename_i hk
        refine ⟨rfl, hunknown ?_⟩
        rw [hl, Option.filter_some, if_neg (by simpa using hk)]

variable {self}

/-- A sealer that is called, and not only found poisoned, is one of the service's and has the
`key_id` of the request. -/
theorem Named.selected (hn : self.Named P) {keyId : String} {lock : Mutex TpmSealer}
    (h : self.selected keyId = some lock) (hlock : lock.poisoned = false) :
    lock.value.Named P ∧ lock.value.keyId = keyId := by
  unfold KmsService.selected at h
  split at h
  · rename_i hk
    obtain rfl := Option.some.inj h
    rw [hlock] at hk
    exact ⟨hn.1, by simpa [eq_comm] using hk⟩
  · obtain ⟨hmem, hk⟩ := Option.filter_eq_some_iff.mp h
    rw [hlock] at hk
    exact ⟨hn.2 lock hmem, by simpa [eq_comm] using hk⟩

/-- **What is decrypted was sealed under a key with the request's `key_id`.** -/
theorem Named.decrypt_wp (hn : self.Named P) (keyId : String) (ciphertext : Bytes) :
    (self.decrypt P keyId ciphertext).wp (nodeDevice P faults)
      (fun _ x _ => x.2 = self ∧ ∀ p, x.1 = .ok p → m.ledger.Sealed P keyId p) m := by
  refine KmsService.decrypt_wp self (Q := fun r _ => ∀ p, r = .ok p → m.ledger.Sealed P keyId p)
    (fun _ => nofun) fun lock hsel => ?_
  refine Mutex.call_wp (Q := fun r _ => ∀ p, r = .ok p → m.ledger.Sealed P keyId p)
    (fun _ => nofun) fun hlock => ?_
  obtain ⟨⟨t, ht, hkey⟩, rfl⟩ := hn.selected hsel hlock
  refine Prog.wp_mono ?_ (Prog.wp_and (TpmSealer.unseal_wp lock.value ciphertext)
    (TpmSealer.unseal_ne_panic lock.value ciphertext))
  intro tr r m' hr
  refine ⟨fun _ _ => nofun, ?_, hr.2⟩
  intro p hp q hq
  obtain rfl := Except.ok.inj hq
  obtain ⟨o, hmem, hparent, hdata⟩ := hr.1 p hp
  refine ⟨o, hmem, ?_, hdata⟩
  rw [ht.storageParent hparent, hkey]

theorem Named.decrypt_loads (hn : self.Named P) (keyId : String) (ciphertext : Bytes) :
    (self.decrypt P keyId ciphertext).Only (Cmd.LoadsUnder P keyId) := by
  refine decrypt_closed P (Prog.only_closed _) self keyId ciphertext fun lock hsel hlock => ?_
  obtain ⟨hnamed, rfl⟩ := hn.selected hsel hlock
  exact hnamed.unseal_loads ciphertext

end KmsService

end Service

end Sceau
