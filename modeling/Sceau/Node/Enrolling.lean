import Sceau.Node.Exact
import Mathlib.Data.Fintype.EquivFin

/-!
# Enrollment where nothing fails on its own

The two sides of an enrollment, each run to its end on its own node. On the seed's, a key made from the
fleet key's template and still in the slot is wrapped for whatever public key the request carries, and
the duplicate is on record. On the joiner's, a duplicate that is on record for the transport key it has
loaded is imported, and ends up in the slot. The record is where the two meet.

What can go wrong on its own does so before the TPM is asked: the permit, the certificate, the Node
lookup, a poisoned lock.
-/

set_option autoImplicit false

namespace Sceau

open Lib

variable {P : Platform} {faults : TpmCmd → Bool} {m : Machine} {context : Context}

/-! ## Keys made from the template

The fleet key and every transport key are made from one template. What the two sides need of such a
key is read off the template: it may be wrapped, under the policy of `TPM2_Duplicate`; it can be a
parent; and its public area survives the wire. -/

/-- A key as `duplicable_storage_public` has it made. -/
structure Public.Duplicable (P : Platform) (k : Public) : Prop where
  template : k.template = duplicableStorageTemplate (.policyCommandCode .duplicate)
  unique : k.unique.length ≤ P.uniqueMax

namespace Public.Duplicable

variable {k : Public}

theorem attributes (h : k.Duplicable P) :
    k.objectAttributes =
      (duplicableStorageTemplate (.policyCommandCode .duplicate)).objectAttributes := by
  rw [← h.template]
  rfl

theorem authPolicy (h : k.Duplicable P) : k.authPolicy = .policyCommandCode .duplicate :=
  congrArg (fun p : Public => p.authPolicy) h.template

theorem storage (h : k.Duplicable P) :
    (k.objectAttributes.restricted && k.objectAttributes.decrypt) = true := by
  rw [h.attributes]
  rfl

theorem roundTrip (h : k.Duplicable P) (hP : P.Lawful) :
    ∃ b, P.marshall k = some b ∧ P.unmarshall b = some k := by
  have htemplate : k.template ∈ templates := by
    rw [h.template]
    simp [templates]
  obtain ⟨b, hm, -, hu⟩ := hP.roundTrip k htemplate h.unique
  exact ⟨b, hm, hu⟩

end Public.Duplicable

/-- What a TPM derives fits the buffer, as what it draws does. -/
def Tpm.Fits (P : Platform) (tpm : Tpm) : Prop :=
  ∀ template u, tpm.ownerSeed template = some u → u.length ≤ P.uniqueMax

theorem Tpm.Fits.later {tpm tpm' : Tpm} (h : tpm.Fits P) (hsame : tpm'.ownerSeed = tpm.ownerSeed) :
    tpm'.Fits P := by
  unfold Fits
  rwa [hsame]

theorem Tpm.Fits.primary {tpm : Tpm} (h : tpm.Fits P) {random : Bytes}
    (hrandom : random.length ≤ P.uniqueMax) :
    (tpm.primary (duplicableStorageTemplate (.policyCommandCode .duplicate)) random).Duplicable P := by
  refine ⟨rfl, ?_⟩
  show ((tpm.ownerSeed _).getD random).length ≤ P.uniqueMax
  cases hseed : tpm.ownerSeed (duplicableStorageTemplate (.policyCommandCode .duplicate)) with
  | none => exact hrandom
  | some u => exact h _ u hseed

namespace Fleet

/-! ## Sessions

Where nothing fails on its own a session that is started comes back open, and it is the newest, so it
can be named by the number that was next. -/

/-- A session that comes back is the newest. -/
theorem startSession_wp {ty : SessionType} :
    Prog.wpOk (nodeDevice P faults) (startSession context ty) (fun s m' =>
      s = ⟨m.tpm.next, ty⟩ ∧ m' = { m with tpm := m.tpm.addSession context.id ty }) m := by
  unfold startSession
  refine Prog.wpOk_bind (wpOk_tpmCall fun s m₁ hstart => ?_)
  rcases performs_startAuthSession.mp hstart with ⟨rfl, -, rfl⟩ | ⟨rfl, rfl⟩
  · exact fun _ h => by cases h
  · refine Prog.wpOk_bind (wpOk_tpmCall fun _ m₂ hattr => ?_)
    obtain ⟨-, rfl⟩ := performs_trSessSetAttributes.mp hattr
    exact Prog.wpOk_pure ⟨rfl, rfl⟩

/-- The newest session is open. -/
theorem openSession_addSession (m : Machine) (context : Context) (ty : SessionType) :
    Machine.openSession { m with tpm := m.tpm.addSession context.id ty } context ⟨m.tpm.next, ty⟩ =
      some { ctx := context.id, session := ⟨m.tpm.next, ty⟩ } :=
  openSession_newest (s := { ctx := context.id, session := ⟨m.tpm.next, ty⟩ }) rfl rfl

theorem startSession_noFault {ty : SessionType} :
    (startSession context ty).run.wp (nodeDevice P noFault) (fun _ r m' =>
      r = .ok ⟨m.tpm.next, ty⟩ ∧ m' = { m with tpm := m.tpm.addSession context.id ty }) m := by
  unfold startSession
  refine Prog.wp_run_bind.mpr (wp_tpmCall.mpr ⟨fun hf => ?_, fun s m₁ hstart => ?_⟩)
  · simp [Fails, noFault, refuses] at hf
  rcases performs_startAuthSession.mp hstart with ⟨-, hnone, -⟩ | ⟨rfl, rfl⟩
  · cases hnone
  refine Prog.wp_run_bind.mpr (wp_tpmCall.mpr ⟨fun hf => ?_, fun _ m₂ hattr => ?_⟩)
  · simp [Fails, noFault, refuses, openSession_addSession] at hf
  obtain ⟨-, rfl⟩ := performs_trSessSetAttributes.mp hattr
  exact ⟨rfl, rfl⟩

/-- The newest session once its policy is set, and the machine with it. -/
def withPolicy (m : Machine) (context : Context) (ty : SessionType) : OpenSession where
  ctx := context.id
  session := ⟨m.tpm.next, ty⟩
  policy := .policyCommandCode .duplicate

def policySession (m : Machine) (context : Context) (ty : SessionType) : Machine :=
  { m with tpm := (m.tpm.addSession context.id ty).setPolicy m.tpm.next (.policyCommandCode .duplicate) }

theorem openSession_policySession (m : Machine) (context ctx : Context) (ty : SessionType)
    (hctx : ctx.id = context.id) :
    (policySession m context ty).openSession ctx ⟨m.tpm.next, ty⟩ = some (withPolicy m context ty) :=
  openSession_newest (s := withPolicy m context ty) (Tpm.setPolicy_newest ty _) hctx.symm

/-- The digest is that of the one command the policy is for. -/
theorem duplicationAuthPolicyDigest_wp :
    Prog.wpOk (nodeDevice P faults) (duplicationAuthPolicyDigest context)
      (fun digest _ => digest = .policyCommandCode .duplicate) m := by
  unfold duplicationAuthPolicyDigest
  refine Prog.wpOk_bind (Prog.wpOk_mono ?_ startSession_wp)
  rintro s m₁ ⟨rfl, rfl⟩
  refine Prog.wpOk_bind (Prog.wpOk_pure ?_)
  refine Prog.wpOk_bind (wpOk_tpmCall fun _ m₂ hcode => ?_)
  obtain ⟨-, -, rfl⟩ := performs_policyCommandCode.mp hcode
  refine Prog.wpOk_bind (wpOk_tpmCall fun digest m₃ hdigest => ?_)
  obtain ⟨-, ⟨e, he, rfl⟩, rfl⟩ := performs_policyGetDigest.mp hdigest
  refine Prog.wpOk_bind (wpOk_tpmCall fun _ m₄ _ => Prog.wpOk_pure ?_)
  have hopen := openSession_policySession m context context .trial rfl
  rw [Option.some.inj (he.symm.trans hopen)]
  rfl

theorem duplicableStoragePublic_wp :
    Prog.wpOk (nodeDevice P faults) (duplicableStoragePublic context)
      (fun template _ => template = duplicableStorageTemplate (.policyCommandCode .duplicate)) m := by
  unfold duplicableStoragePublic
  refine Prog.wpOk_bind (Prog.wpOk_mono ?_ duplicationAuthPolicyDigest_wp)
  rintro digest m₁ rfl
  exact Prog.wpOk_pure rfl

/-- `duplication_auth_policy_session` comes back with the newest session, its policy set. -/
theorem duplicationAuthPolicySession_noFault :
    (duplicationAuthPolicySession context).run.wp (nodeDevice P noFault) (fun _ r m' =>
      r = .ok ⟨m.tpm.next, .policy⟩ ∧ m' = policySession m context .policy) m := by
  unfold duplicationAuthPolicySession
  refine Prog.wp_run_bind.mpr (Prog.wp_mono ?_ startSession_noFault)
  rintro tr r m₁ ⟨rfl, rfl⟩
  have htry : policySessionTryFrom ⟨m.tpm.next, .policy⟩ = pure ⟨m.tpm.next, .policy⟩ :=
    if_neg (by simp)
  show (policySessionTryFrom ⟨m.tpm.next, .policy⟩ >>= _ : Fallible FleetError _).run.wp _ _ _
  rw [htry]
  show (context.policyCommandCode ⟨m.tpm.next, .policy⟩ .duplicate >>= _ :
    Fallible FleetError _).run.wp _ _ _
  refine Prog.wp_run_bind.mpr (wp_tpmCall.mpr ⟨fun hf => ?_, fun _ m₂ hcode => ?_⟩)
  · simp [Fails, noFault, refuses, openSession_addSession] at hf
  obtain ⟨-, -, rfl⟩ := performs_policyCommandCode.mp hcode
  exact ⟨rfl, rfl⟩

/-! ## Making a key

Genesis and the first half of a join: a primary key of the template, which genesis puts into the slot
and a join keeps loaded. -/

/-- A primary key of the template is loaded, and as it should be. -/
theorem createPrimary_wp (hfits : m.tpm.Fits P) :
    Prog.wpOk (nodeDevice P faults) (context.executeWithNullauthSession fun ctx =>
      ctx.createPrimary (duplicableStorageTemplate (.policyCommandCode .duplicate)) :
        Fallible FleetError Handle)
      (fun h m' => ∃ id t, t.Duplicable P ∧ h = .transient id (.key t) ∧
        ⟨context.id, id, .key t⟩ ∈ m'.tpm.objects) m := by
  refine wp_nullauth_ok (fun _ _ _ h => h) (wpOk_tpmCall fun h m₁ hcreate => ?_)
  obtain ⟨-, unique, hlen, rfl, rfl⟩ := performs_createPrimary.mp hcreate
  exact ⟨_, _, Tpm.Fits.primary hfits hlen, rfl, List.mem_cons_self ..⟩

/-- The key to be put into the slot is either there afterwards or not. -/
theorem persist_slot {id : Nat} {pub : Public} :
    (persist context (.transient id (.key pub))).run.wp (nodeDevice P noFault)
      (fun _ _ m' => m'.tpm.slot = m.tpm.slot ∨ m'.tpm.slot = some pub) m := by
  refine wp_persistentHandle fun ph _ => ?_
  refine wp_nullauth_noFault
    (Q := fun _ m' => m'.tpm.slot = m.tpm.slot ∨ m'.tpm.slot = some pub) ?_
  refine wp_tpmCall.mpr ⟨fun _ _ => ⟨rfl, .inl rfl⟩, fun h m₁ hput => ?_⟩
  obtain ⟨-, -, -, -, -, -, rfl⟩ := performs_evict_transient.mp hput
  exact ⟨rfl, .inr rfl⟩

/-- Genesis puts a key made from the template into the slot, or leaves it as it is. -/
theorem createAndPersist_slot (hfits : m.tpm.Fits P) :
    (createAndPersist context).run.wp (nodeDevice P noFault)
      (fun _ _ m' => m'.tpm.slot = m.tpm.slot ∨ ∃ k, m'.tpm.slot = some k ∧ k.Duplicable P) m := by
  unfold createAndPersist
  refine Prog.wp_run_bind.mpr (Prog.wp_mono ?_ (Prog.wp_and duplicableStoragePublic_wp
    (grown_of_only (duplicableStoragePublic_only (fun _ h => h) context))))
  rintro tr r m₁ ⟨htemplate, hgrown⟩
  cases r with
  | error e => exact .inl hgrown.slot
  | ok template =>
    obtain rfl := htemplate template rfl
    refine Prog.wp_run_bind.mpr (Prog.wp_mono ?_ (Prog.wp_and
      (createPrimary_wp (hfits.later hgrown.ownerSeed))
      (grown_of_only (only_nullauth_benign (fun _ h => h) fun _ => only_tpmCall rfl))))
    rintro tr r m₂ ⟨hcreated, hgrown'⟩
    have hslot : m₂.tpm.slot = m.tpm.slot := hgrown'.slot.trans hgrown.slot
    cases r with
    | error e => exact .inl hslot
    | ok created =>
      obtain ⟨id, k, hk, rfl, -⟩ := hcreated created rfl
      refine Prog.wp_mono ?_ persist_slot
      intro tr r m₃ hput
      rw [hslot] at hput
      exact hput.imp_right fun hput => ⟨k, hput, hk⟩

/-- If it is not forced, only into an empty one. -/
theorem createFleetKey_slot (hfits : m.tpm.Fits P) :
    (createFleetKey context false).run.wp (nodeDevice P noFault)
      (fun _ _ m' => m'.tpm.slot = m.tpm.slot ∨
        m.tpm.slot = none ∧ ∃ k, m'.tpm.slot = some k ∧ k.Duplicable P) m := by
  show (liftM (loadFleetKey context).run >>= _ : Fallible FleetError Handle).run.wp _ _ _
  refine Prog.wp_run_bind.mpr (Prog.wp_run_lift.mpr (Prog.wp_mono ?_ (Prog.wp_and
    loadFleetKey_noFault (grown_of_only (loadFleetKey_only (fun _ h => h) context)))))
  rintro tr found m₁ ⟨hexact, hgrown⟩
  cases found with
  | ok existing => exact .inl hgrown.slot
  | error e =>
    have hnone : m.tpm.slot = none := by
      cases hs : m.tpm.slot with
      | none => rfl
      | some k => cases hexact k hs
    refine Prog.wp_mono ?_ (createAndPersist_slot (hfits.later hgrown.ownerSeed))
    intro tr r m₂ hput
    rw [hgrown.slot] at hput
    exact hput.imp_right fun hput => ⟨hnone, hput⟩

/-- The public area read through a handle is that of the key it was made for. -/
theorem readPublic_wp {ε : Type} [FromTss ε] {h : Handle} {t : Public} (hn : h.Names t) :
    Prog.wpOk (nodeDevice P faults) (context.executeWithNullauthSession fun ctx => ctx.readPublic h :
      Fallible ε Public) (fun pub m' => pub = t ∧ m'.tpm.objects = m.tpm.objects) m := by
  refine wp_nullauth_ok (Q := fun pub m' => pub = t ∧ m'.tpm.objects = m.tpm.objects)
    (fun _ _ _ h => h) (wpOk_tpmCall fun pub m₁ hread => ?_)
  obtain ⟨⟨o, ho, rfl⟩, rfl⟩ := performs_readPublic.mp hread
  exact ⟨congrArg Obj.pub (hn.resolve ho), rfl⟩

/-- The transport key is loaded, and the public area that goes with it is its own. -/
theorem createTransportKey_loads (hfits : m.tpm.Fits P) :
    Prog.wpOk (nodeDevice P faults) (createTransportKey context) (fun x m' => ∃ id,
      x.2.Duplicable P ∧ x.1 = .transient id (.key x.2) ∧
        ⟨context.id, id, .key x.2⟩ ∈ m'.tpm.objects) m := by
  unfold createTransportKey
  refine Prog.wpOk_bind (Prog.wp_mono ?_ (Prog.wp_and duplicableStoragePublic_wp
    (grown_of_only (duplicableStoragePublic_only (fun _ h => h) context))))
  rintro tr r m₁ ⟨htemplate, hgrown⟩ template rfl
  obtain rfl := htemplate template rfl
  refine Prog.wpOk_bind (Prog.wpOk_mono ?_ (createPrimary_wp (hfits.later hgrown.ownerSeed)))
  rintro created m₂ ⟨id, t, ht, rfl, hloaded⟩
  refine Prog.wpOk_bind (Prog.wpOk_mono ?_ (readPublic_wp (.inr ⟨id, rfl⟩)))
  rintro pub m₃ ⟨rfl, hobjects⟩
  rw [← hobjects] at hloaded
  exact Prog.wpOk_pure ⟨id, ht, rfl, hloaded⟩

end Fleet

/-! ## The seed's side

A handler, from the permit to the response. `Records` is what the ledger has to say about the blob in
the end, and it is all that the other side is going to ask. -/

/-- The blob is a duplicate of `k` for the transport key `t`, and on record as such. -/
structure Ledger.Records (l : Ledger) (k t : Public) (blob : DuplicationBlob) : Prop where
  key : blob.fleetKeyPublic = k
  found : ∃ ek, blob.encryptionKey = some ek ∧
    l.findDup (some ek) blob.duplicatePrivate blob.encryptedSecret =
      some ⟨k, t, ek, blob.duplicatePrivate, blob.encryptedSecret⟩

namespace Fleet

theorem readPublic_noFault {k : Public} (hslot : m.tpm.slot = some k) :
    (context.executeWithNullauthSession fun ctx => ctx.readPublic (.persistent k) :
      Fallible FleetError Public).run.wp (nodeDevice P noFault)
      (fun _ r m' => r = .ok k ∧ m'.tpm.slot = some k) m := by
  refine wp_nullauth_noFault (Q := fun r m' => r = .ok k ∧ m'.tpm.slot = some k) ?_
  refine wp_tpmCall.mpr ⟨fun hf => ?_, fun pub m₁ hread => ?_⟩
  · simp [Fails, noFault, refuses, Machine.resolve, hslot] at hf
  · obtain ⟨⟨o, ho, rfl⟩, rfl⟩ := performs_readPublic.mp hread
    have hobj : o = .key k := Handle.Names.resolve (.inl rfl) ho
    subst hobj
    exact ⟨rfl, rfl, hslot⟩

/-- `TPM2_Duplicate` under the policy session. -/
theorem duplicate_noFault {k joiner : Public} {id : Nat} (hk : k.Duplicable P)
    (hslot : m.tpm.slot = some k) (hloaded : ⟨context.id, id, .external joiner⟩ ∈ m.tpm.objects) :
    (context.executeWithSession (some ⟨m.tpm.next, .policy⟩) fun ctx =>
      ctx.duplicate (.persistent k) (.transient id (.external joiner)) duplicationSymmetricAlg :
        Fallible FleetError (Data × Private × EncryptedSecret)).run.wp (nodeDevice P noFault)
      (fun _ r m' => ∃ ek priv secret, r = .ok (ek, priv, secret) ∧
        m'.tpm = (policySession m context .policy).tpm ∧
        m'.ledger.findDup (some ek) priv secret = some ⟨k, joiner, ek, priv, secret⟩)
      (policySession m context .policy) := by
  have hkey : (policySession m context .policy).resolve
      { context with session := some ⟨m.tpm.next, .policy⟩ } (.persistent k) = some (.key k) :=
    if_pos hslot
  have hparent : (policySession m context .policy).resolve
      { context with session := some ⟨m.tpm.next, .policy⟩ } (.transient id (.external joiner)) =
        some (.external joiner) :=
    if_pos hloaded
  have hpolicy : (policySession m context .policy).ambientPolicy
      { context with session := some ⟨m.tpm.next, .policy⟩ } = some k.authPolicy := by
    have hopen := openSession_policySession m context
      { context with session := some ⟨m.tpm.next, .policy⟩ } .policy rfl
    simp only [Machine.ambientPolicy, if_true, hopen, hk.authPolicy]
    rfl
  refine wp_tpmCall.mpr ⟨fun hf => ?_, fun a m₁ hdup => ?_⟩
  · simp only [Fails, noFault, refuses, hkey, hparent, hpolicy, hk.attributes, hk.authPolicy] at hf
    simp [duplicableStorageTemplate] at hf
  · obtain ⟨ek, priv, secret⟩ := a
    obtain ⟨pub, t, ho, ht, -, rfl⟩ := performs_duplicate hdup
    obtain rfl := Obj.key.inj (Option.some.inj (ho.symm.trans hkey))
    obtain rfl := Option.some.inj (ht.symm.trans hparent)
    refine ⟨ek, priv, secret, rfl, rfl, ?_⟩
    simp [Ledger.findDup, Obj.pub]

/-- **A duplicable key that is in the slot is wrapped**, for whatever public key. -/
theorem duplicateForJoiner_noFault {k joiner : Public} (hk : k.Duplicable P)
    (hslot : m.tpm.slot = some k) :
    (duplicateForJoiner context (.persistent k) joiner).run.wp (nodeDevice P noFault)
      (fun _ r m' => ∃ blob, r = .ok blob ∧ m'.ledger.Records k joiner blob) m := by
  unfold duplicateForJoiner
  refine Prog.wp_run_bind.mpr (Prog.wp_mono ?_ (readPublic_noFault hslot))
  rintro tr r m₁ ⟨rfl, hslot₁⟩
  refine Prog.wp_run_bind.mpr (wp_tpmCall.mpr ⟨fun hf => ?_, fun external m₂ hload => ?_⟩)
  · simp [Fails, noFault, refuses] at hf
  obtain ⟨rfl, rfl⟩ := performs_loadExternalPublic.mp hload
  refine Prog.wp_run_bind.mpr (Prog.wp_mono ?_ duplicationAuthPolicySession_noFault)
  rintro tr r m₃ ⟨rfl, rfl⟩
  refine Prog.wp_run_bind.mpr (Prog.wp_run_lift.mpr (Prog.wp_mono ?_
    (duplicate_noFault hk hslot₁ (List.mem_cons_self ..))))
  rintro tr r m₄ ⟨ek, priv, secret, rfl, htpm, hfound⟩
  refine Prog.wp_run_bind.mpr (wp_tpmCall.mpr ⟨fun hf => ?_, fun _ m₅ hflush => ?_⟩)
  · have hopen : ∃ e, m₄.openSession context ⟨m₁.tpm.next + 1, .policy⟩ = some e := by
      unfold Machine.openSession
      rw [htpm]
      exact ⟨_, openSession_policySession _ context context .policy rfl⟩
    obtain ⟨e, he⟩ := hopen
    simp only [Fails, noFault, refuses, Bool.false_eq_true, false_or] at hf
    cases (Option.isNone_iff_eq_none.mp hf).symm.trans he
  obtain ⟨-, rfl⟩ := performs_flushSession.mp hflush
  -- whether the wrapping target can be flushed does not matter
  refine Prog.wp_run_bind.mpr (Prog.wp_run_lift.mpr (wp_tpmCall.mpr ⟨fun _ _ => ?_, fun _ m₆ hflush => ?_⟩))
  · exact ⟨_, rfl, rfl, ek, rfl, hfound⟩
  · obtain ⟨-, rfl⟩ := performs_flushTransient.mp hflush
    exact ⟨_, rfl, rfl, ek, rfl, hfound⟩

end Fleet

/-- The response carries the duplicate of `k` for `t` that is on record. -/
structure Ledger.Answers (P : Platform) (l : Ledger) (k t : Public) (response : DuplicateResponse) :
    Prop where
  key : P.unmarshall response.fleetKeyPublic = some k
  has : response.hasEncryptionKey = true
  found : l.findDup (some ⟨response.encryptionKey⟩) ⟨response.duplicatePrivate⟩
      ⟨response.encryptedSecret⟩ =
    some ⟨k, t, ⟨response.encryptionKey⟩, ⟨response.duplicatePrivate⟩, ⟨response.encryptedSecret⟩⟩

/-- An answer that ends a request before the TPM is asked: no permit, no such Node, a poisoned lock. -/
def turnsAway : Event Cmd Cmd.Res → Bool
  | ⟨.fetchSub, permitsBefore⟩ => permitsBefore == 0
  | ⟨.getNode _, .error _⟩ => true
  | ⟨.lockContext, .error _⟩ => true
  | _ => false

/-- The request was turned away, for its certificate or by such an answer. -/
def TurnedAway (P : Platform) (request : Request) (tr : List (Event Cmd Cmd.Res)) : Prop :=
  (∃ status, EnrollService.requestedNode P request = .error status) ∨ ∃ ev ∈ tr, turnsAway ev = true

theorem TurnedAway.mono {request : Request} {tr tr' : List (Event Cmd Cmd.Res)}
    (h : TurnedAway P request tr) (hsub : tr ⊆ tr') : TurnedAway P request tr' :=
  h.imp_right fun ⟨ev, hmem, haway⟩ => ⟨ev, hsub hmem, haway⟩

/-- A command that is not the TPM's leaves the machine as it is. -/
theorem wp_issue {c : Cmd} {Q : List (Event Cmd Cmd.Res) → c.Res → Machine → Prop}
    (htpm : ∀ ctx c', c ≠ .tpm ctx c') (hopen : c ≠ .openContext) (hQ : ∀ r, Q [⟨c, r⟩] r m) :
    (issue c).wp (nodeDevice P faults) Q m := by
  intro e r m' hd
  have hsame : m' = m := by
    cases c with
    | tpm ctx c => exact absurd rfl (htpm ctx c)
    | openContext => exact absurd rfl hopen
    | _ =>
      cases e <;> simp only [nodeDevice, Option.some.injEq, Prod.mk.injEq, reduceCtorEq] at hd
      exact hd.2.symm
  subst hsame
  exact hQ r

namespace EnrollService

variable {self : EnrollService} {k t : Public} {request : Request}

theorem response_noFault (hP : P.Lawful) (hk : k.Duplicable P) {blob : DuplicationBlob}
    (hrec : m.ledger.Records k t blob) :
    (response P blob).run.wp (nodeDevice P noFault) (fun tr r m' => tr = [] ∧ m' = m ∧
      ∃ resp, r = .ok resp ∧ m.ledger.Answers P k t resp) m := by
  obtain ⟨b, hm, hu⟩ := hk.roundTrip hP
  obtain ⟨ek, hek, hfound⟩ := hrec.found
  unfold response
  rw [hrec.key, hm]
  refine ⟨rfl, rfl, _, rfl, hu, ?_, ?_⟩
  · rw [hek]
    rfl
  · rw [hek]
    exact hfound

theorem serveDuplicate_noFault (hP : P.Lawful) (hk : k.Duplicable P)
    (hslot : m.tpm.slot = some k) (hhandle : self.fleetKeyHandle = .persistent k)
    (ht : P.unmarshall request.message.joinerTransportPublic = some t) :
    (self.serveDuplicate P request).run.wp (nodeDevice P noFault) (fun tr r m' =>
      (∃ ev ∈ tr, turnsAway ev = true) ∨ ∃ resp, r = .ok resp ∧ m'.ledger.Answers P k t resp) m := by
  unfold serveDuplicate lockedDuplicate
  rw [ht, hhandle]
  refine Prog.wp_run_bind.mpr (Prog.wp_run_bind.mpr (Prog.wp_run_lift.mpr
    (wp_issue (by simp) (by simp) fun locked => ?_)))
  cases locked with
  | error e => exact .inl ⟨_, List.mem_cons_self .., rfl⟩
  | ok =>
    refine Prog.wp_run_bind.mpr (Prog.wp_run_lift.mpr (Prog.wp_mono ?_
      (Fleet.duplicateForJoiner_noFault hk hslot)))
    rintro tr r m₁ ⟨blob, rfl, hrec⟩
    refine Prog.wp_run_bind.mpr (Prog.wp_run_lift.mpr (wp_issue (by simp) (by simp) fun _ => ?_))
    show (response P blob).run.wp _ _ _
    refine Prog.wp_mono ?_ (response_noFault hP hk hrec)
    rintro tr r m₂ ⟨-, rfl, hresp⟩
    exact .inr hresp

theorem handleDuplicate_noFault (hP : P.Lawful) (hk : k.Duplicable P)
    (hslot : m.tpm.slot = some k) (hhandle : self.fleetKeyHandle = .persistent k)
    (ht : P.unmarshall request.message.joinerTransportPublic = some t) :
    (self.handleDuplicate P request).run.wp (nodeDevice P noFault) (fun tr r m' =>
      TurnedAway P request tr ∨ ∃ resp, r = .ok resp ∧ m'.ledger.Answers P k t resp) m := by
  rw [handleDuplicate_eq]
  split
  · rename_i hbad
    exact .inl (.inl ⟨_, hbad⟩)
  · rename_i n _
    show ((issue (.getNode n)).bind _).wp _ _ _
    refine Prog.wp_bind.mpr (wp_issue (by simp) (by simp) fun known => ?_)
    cases known with
    | error => exact .inl (.inr ⟨_, List.mem_cons_self .., rfl⟩)
    | ok =>
      refine Prog.wp_mono ?_ (serveDuplicate_noFault hP hk hslot hhandle ht)
      rintro tr r m₁ (⟨ev, hmem, haway⟩ | hresp)
      · exact .inl (.inr ⟨ev, List.mem_cons_of_mem _ hmem, haway⟩)
      · exact .inr hresp

theorem settle_ok (wasLastPermit : Bool) (resp : DuplicateResponse) :
    (settle wasLastPermit (.ok resp)).wp (nodeDevice P faults)
      (fun _ r m' => r = .ok resp ∧ m' = m) m := by
  cases wasLastPermit with
  | false => exact ⟨rfl, rfl⟩
  | true => exact Prog.wp_bind.mpr (wp_issue (by simp) (by simp) fun _ => ⟨rfl, rfl⟩)

/-- **A request is answered, or it was turned away.** -/
theorem duplicate_noFault (hP : P.Lawful) (hk : k.Duplicable P) (hslot : m.tpm.slot = some k)
    (hhandle : self.fleetKeyHandle = .persistent k)
    (ht : P.unmarshall request.message.joinerTransportPublic = some t) :
    (self.duplicate P request).wp (nodeDevice P noFault) (fun tr r m' =>
      TurnedAway P request tr ∨ ∃ resp, r = .ok resp ∧ m'.ledger.Answers P k t resp) m := by
  unfold EnrollService.duplicate
  refine Prog.wp_bind.mpr (wp_issue (by simp) (by simp) fun permitsBefore => ?_)
  split
  · rename_i hnone
    exact Prog.wp_always _ fun _ _ _ => .inl (.inr ⟨_, List.mem_cons_self .., beq_iff_eq.mpr hnone⟩)
  · refine Prog.wp_bind.mpr (Prog.wp_mono ?_ (handleDuplicate_noFault hP hk hslot hhandle ht))
    rintro tr r m₁ (haway | ⟨resp, rfl, hresp⟩)
    · refine Prog.wp_always _ fun tr' _ _ => .inl (haway.mono ?_)
      exact List.subset_append_of_subset_right _ (List.subset_append_left tr tr')
    · refine Prog.wp_mono ?_ (settle_ok (permitsBefore = 1) resp)
      rintro _ r m₂ ⟨rfl, rfl⟩
      exact .inr ⟨resp, rfl, hresp⟩

end EnrollService

/-! ## The joiner's side

From a response that is on record to the key in the slot. The record is for the transport key that is
loaded here, so `TPM2_Import` accepts it; the slot may be occupied or not. -/

namespace Fleet

variable {id : Nat} {k t : Public} {blob : DuplicationBlob}

/-- A duplicate on record for the transport key is imported under it, and loaded. -/
theorem importAndLoad_noFault (ht : t.Duplicable P)
    (hobj : ⟨context.id, id, .key t⟩ ∈ m.tpm.objects) (hrec : m.ledger.Records k t blob) :
    (importAndLoad (context.withSession m) (.transient id (.key t)) blob).run.wp
      (nodeDevice P noFault) (fun _ r m' => ∃ id', r = .ok (.transient id' (.key k)) ∧
        m'.tpm.sessions = (m.inSession context).tpm.sessions ∧
        ⟨context.id, id', .key k⟩ ∈ m'.tpm.objects ∧ ⟨context.id, id, .key t⟩ ∈ m'.tpm.objects)
      (m.inSession context) := by
  have hparent : (m.inSession context).storageParent (context.withSession m)
      (.transient id (.key t)) = some t := by
    rw [storageParent_inSession]
    exact storageParent_eq_some.mpr ⟨if_pos hobj, ht.storage⟩
  have hauth := hasAuth_inSession m context
  obtain ⟨ek, hek, hfound⟩ := hrec.found
  unfold importAndLoad
  rw [hek, hrec.key]
  refine Prog.wp_run_bind.mpr (wp_tpmCall.mpr ⟨fun hf => ?_, fun priv m₁ himport => ?_⟩)
  · simp [Fails, noFault, refuses, hparent, hauth, hfound] at hf
  obtain ⟨t', ht', -, -, rfl⟩ := performs_import himport
  obtain rfl := Option.some.inj (ht'.symm.trans hparent)
  -- the machine with the imported object on record
  set m₁ : Machine := { m.inSession context with ledger := { (m.inSession context).ledger with
    objects := ⟨t', k, priv, .key⟩ :: (m.inSession context).ledger.objects } }
  have hparent₁ : m₁.storageParent (context.withSession m) (.transient id (.key t')) = some t' :=
    hparent
  have hauth₁ : m₁.hasAuth (context.withSession m) = true := hauth
  have hnewest : m₁.ledger.findObject t' k priv = some ⟨t', k, priv, .key⟩ :=
    List.find?_cons_of_pos (by simp)
  refine wp_tpmCall.mpr ⟨fun hf => ?_, fun h m₂ hload => ?_⟩
  · simp [Fails, noFault, refuses, hparent₁, hauth₁, hnewest] at hf
  · obtain ⟨-, t₁, o, ht₁, ho, rfl, rfl⟩ := performs_load.mp hload
    obtain rfl := Option.some.inj (ht₁.symm.trans hparent₁)
    obtain rfl := Option.some.inj (ho.symm.trans hnewest)
    exact ⟨_, rfl, rfl, List.mem_cons_self .., List.mem_cons_of_mem _ hobj⟩

/-- Flushing a loaded key. -/
theorem flushTransient_noFault (hobj : ⟨context.id, id, .key t⟩ ∈ m.tpm.objects) :
    (context.executeWithNullauthSession fun ctx => ctx.flushContext (.transient id (.key t)) :
      Fallible FleetError Unit).run.wp (nodeDevice P noFault)
      (fun _ r m' => r = .ok () ∧ m'.tpm.slot = m.tpm.slot) m := by
  refine wp_nullauth_noFault (Q := fun r m' => r = .ok () ∧ m'.tpm.slot = m.tpm.slot) ?_
  refine wp_tpmCall.mpr ⟨fun hf => ?_, fun _ m₁ hflush => ?_⟩
  · simp [Fails, noFault, refuses, hobj] at hf
  · obtain ⟨-, rfl⟩ := performs_flushTransient.mp hflush
    exact ⟨rfl, rfl, rfl⟩

/-- **A duplicate on record for a transport key ends up in the slot.** -/
theorem importAndPersist_completes (ht : t.Duplicable P)
    (hobj : ⟨context.id, id, .key t⟩ ∈ m.tpm.objects) (hrec : m.ledger.Records k t blob) :
    (importAndPersist context (.transient id (.key t)) blob).run.wp (nodeDevice P noFault)
      (fun _ r m' => r = .ok (.persistent k) ∧ m'.tpm.slot = some k) m := by
  have hdelete : (deletePersistedFleetKey context).run.Moves (nodeDevice P noFault)
      (Kept fun _ => False) := kept_of_only
    (deletePersistedFleetKey_only (fun _ => Cmd.benign.flushes) context fun _ _ _ => trivial)
  have hpersist : ∀ h, (persist context h).run.Moves (nodeDevice P noFault)
      (Kept fun _ => False) := fun h => kept_of_only
    (persist_only (fun _ => Cmd.benign.flushes) context (fun _ _ _ => trivial) h)
  unfold importAndPersist
  refine Prog.wp_run_bind.mpr (Prog.wp_mono ?_ startSession_noFault)
  rintro tr r m₁ ⟨rfl, rfl⟩
  refine Prog.wp_run_bind.mpr (Prog.wp_run_lift.mpr (Prog.wp_mono ?_
    (importAndLoad_noFault ht hobj hrec)))
  rintro tr r m₂ ⟨id', rfl, hsessions, hkey, htransport⟩
  refine Prog.wp_run_bind.mpr (wp_tpmCall.mpr ⟨fun hf => ?_, fun _ m₃ hflush => ?_⟩)
  · exact absurd hf (not_fails_closing rfl hsessions)
  obtain ⟨-, rfl⟩ := performs_flushSession.mp hflush
  show (deletePersistedFleetKey context >>= _ : Fallible FleetError Handle).run.wp _ _ _
  refine Prog.wp_run_bind.mpr (Prog.wp_mono ?_
    (Prog.wp_and deletePersistedFleetKey_noFault (hdelete _)))
  rintro tr r m₄ ⟨⟨rfl, hempty⟩, hkept⟩
  refine Prog.wp_run_bind.mpr (Prog.wp_mono ?_
    (Prog.wp_and (persist_noFault hempty (hkept.objects _ hkey not_false)) (hpersist _ _)))
  rintro tr r m₅ ⟨⟨rfl, hfilled⟩, hkept'⟩
  have hloaded := hkept'.objects _ (hkept.objects _ htransport not_false) not_false
  refine Prog.wp_run_bind.mpr (Prog.wp_mono ?_ (flushTransient_noFault hloaded))
  rintro tr r m₆ ⟨rfl, hslot⟩
  exact ⟨rfl, hslot.trans hfilled⟩

end Fleet

/-- The response fits the buffers it is unpacked into. -/
structure DuplicateResponse.Fits (P : Platform) (response : DuplicateResponse) : Prop where
  duplicatePrivate : response.duplicatePrivate.length ≤ P.privateMax
  encryptedSecret : response.encryptedSecret.length ≤ P.secretMax
  encryptionKey : response.encryptionKey.length ≤ P.dataMax

theorem Ledger.Answers.decodes {l : Ledger} {k t : Public} {response : DuplicateResponse}
    (h : l.Answers P k t response) (hfits : response.Fits P) :
    ∃ blob, decodeResponse P response = .ok blob ∧ l.Records k t blob := by
  refine ⟨⟨k, ⟨response.duplicatePrivate⟩, ⟨response.encryptedSecret⟩,
    some ⟨response.encryptionKey⟩⟩, ?_, rfl, _, rfl, h.found⟩
  simp [decodeResponse, Platform.privateTryFrom, Platform.encryptedSecretTryFrom,
    Platform.dataTryFrom, h.key, h.has, hfits.duplicatePrivate, hfits.encryptedSecret,
    hfits.encryptionKey]

/-- The join's transport key is loaded, and is what it sent to the seed. -/
structure PendingJoin.Carries (P : Platform) (tpm : Tpm) (join : PendingJoin) (id : Nat)
    (t : Public) : Prop where
  made : t.Duplicable P
  handle : join.transportHandle = .transient id (.key t)
  loaded : ⟨join.context.id, id, .key t⟩ ∈ tpm.objects
  asks : P.marshall t = some join.request.joinerTransportPublic

theorem PendingJoin.Carries.unmarshall {tpm : Tpm} {join : PendingJoin} {id : Nat} {t : Public}
    (h : join.Carries P tpm id t) (hP : P.Lawful) :
    P.unmarshall join.request.joinerTransportPublic = some t := by
  obtain ⟨b, hm, hu⟩ := h.made.roundTrip hP
  rwa [← Option.some.inj (hm.symm.trans h.asks)]

theorem joinRequest_carries {seed k0sDataDir : String} (hfits : m.tpm.Fits P) :
    Prog.wpOk (nodeDevice P faults) (joinRequest P seed k0sDataDir)
      (fun join m' => ∃ id t, join.Carries P m'.tpm id t) m := by
  have hread : ∀ path m, Prog.wpOk (nodeDevice P faults) (readToString path)
      (fun _ m' => m' = m) m := by
    intro path m
    refine Prog.wpOk_bind (Prog.wp_run_lift.mpr (wp_issue (by simp) (by simp) fun content => ?_))
    intro answer hanswer
    obtain rfl := Except.ok.inj hanswer
    cases content with
    | error => exact fun _ h => by cases h
    | ok => exact Prog.wpOk_pure rfl
  unfold joinRequest
  refine Prog.wpOk_bind (wpOk_contextNew ?_)
  refine Prog.wpOk_bind (Prog.wpOk_mapErr (Prog.wpOk_mono ?_
    (Fleet.createTransportKey_loads (hfits.later rfl))))
  rintro ⟨transport, t⟩ m₁ ⟨id, ht, hhandle, hloaded⟩
  refine Prog.wpOk_bind (Prog.wpOk_mono ?_ (hread _ m₁))
  rintro _ m₁ rfl
  refine Prog.wpOk_bind (Prog.wpOk_mono ?_ (hread _ m₁))
  rintro _ m₁ rfl
  refine Prog.wpOk_bind (Prog.wp_run_lift.mpr (wp_issue (by simp) (by simp) fun connected => ?_))
  intro answer hanswer
  obtain rfl := Except.ok.inj hanswer
  cases connected with
  | error => exact fun _ h => by cases h
  | ok =>
    dsimp only
    split
    · exact fun _ h => by cases h
    · exact Prog.wpOk_pure ⟨id, t, ht, hhandle, hloaded, ‹_›⟩

theorem runGenesis_slot (hfits : m.tpm.Fits P) :
    (runGenesis false).run.wp (nodeDevice P noFault)
      (fun _ _ m' => m'.tpm.slot = m.tpm.slot ∨
        m.tpm.slot = none ∧ ∃ k, m'.tpm.slot = some k ∧ k.Duplicable P) m := by
  unfold runGenesis
  refine Prog.wp_run_bind.mpr (Prog.wp_mapErr.mpr (wp_contextNew (fun _ => .inl rfl) ?_))
  refine Prog.wp_run_bind.mpr (Prog.wp_mapErr.mpr (Prog.wp_mapErr.mpr (Prog.wp_mono ?_
    (Fleet.createFleetKey_slot (hfits.later rfl)))))
  intro tr r m₁ hput
  cases r <;> exact hput

/-- **A join with the response it asked for fills the slot.** -/
theorem joinFinish_completes {join : PendingJoin} {id : Nat} {k t : Public}
    {response : DuplicateResponse} (hjoin : join.Carries P m.tpm id t)
    (hanswers : m.ledger.Answers P k t response) (hfits : response.Fits P) :
    (joinFinish P join response).run.wp (nodeDevice P noFault)
      (fun _ r m' => r = .ok () ∧ m'.tpm.slot = some k) m := by
  obtain ⟨blob, hdecodes, hrecords⟩ := hanswers.decodes hfits
  unfold joinFinish
  rw [hdecodes, hjoin.handle]
  show (Prog.mapErr JoinError.fleet _ >>= _ : Fallible JoinError Unit).run.wp _ _ _
  refine Prog.wp_run_bind.mpr (Prog.wp_mapErr.mpr (Prog.wp_mono ?_
    (Fleet.importAndPersist_completes hjoin.made hjoin.loaded hrecords)))
  rintro tr r m' ⟨rfl, hslot⟩
  exact ⟨rfl, hslot⟩

/-! ## Every command is answered

The above is about executions there are. That there is one takes fresh bytes for what is wrapped, and
they are always left, the ledger being finite. -/

theorem exists_fresh (bs : List Bytes) : ∃ b, b ∉ bs := by
  obtain ⟨b, hb⟩ := Infinite.exists_notMem_finset bs.toFinset
  exact ⟨b, by simpa using hb⟩

/-- Whatever is on record, there are bytes left for the next duplicate and the next import. -/
theorem perform_wraps {ctx : Context} {c : TpmCmd} (hc : c.creates = false)
    (hledger : c.movesLedger = true) (hr : refuses m ctx c = false) :
    ∃ rnd x, rnd.noHandle = false ∧ perform P m ctx c rnd = some x := by
  cases c with
  | duplicate object newParent alg =>
    obtain ⟨b, hb⟩ := exists_fresh (m.ledger.dups.map (·.priv.value))
    have hfresh : m.ledger.findDup (some ⟨[]⟩) ⟨b⟩ ⟨[]⟩ = none := by
      refine List.find?_eq_none.mpr fun d hd hsame => hb (List.mem_map.mpr ⟨d, hd, ?_⟩)
      simp only [decide_eq_true_eq] at hsame
      rw [hsame.2.1]
    refine ⟨{ priv := b }, ?_⟩
    simp only [refuses] at hr
    split at hr
    · rename_i k t hk ht
      simp [perform, hk, ht, hfresh]
    · cases hr
  | «import» parent ek pub dup secret alg =>
    obtain ⟨b, hb⟩ := exists_fresh (m.ledger.objects.map (·.priv.value))
    have hfresh : ∀ t, m.ledger.findObject t pub ⟨b⟩ = none := by
      intro t
      refine List.find?_eq_none.mpr fun o ho hsame => hb (List.mem_map.mpr ⟨o, ho, ?_⟩)
      simp only [decide_eq_true_eq] at hsame
      rw [hsame.2.2]
    refine ⟨{ priv := b }, ?_⟩
    simp only [refuses] at hr
    split at hr
    · rename_i t ht
      simp [perform, ht, hfresh]
    · cases hr
  | create _ _ _ => cases hc
  | _ => cases hledger

theorem nodeDevice_answers_wraps {c : Cmd} (hc : c.quiet TpmCmd.creates) (m : Machine) :
    ∃ e r m', nodeDevice P faults c m e = some (r, m') := by
  by_cases hledger : c.quiet TpmCmd.movesLedger
  · exact nodeDevice_answers hledger m
  · cases c with
    | tpm ctx c =>
      cases hr : refuses m ctx c with
      | true => exact ⟨.fail (.rc 0), .error (.rc 0), m, Fails.step (P := P) (.inr hr) _⟩
      | false =>
        obtain ⟨rnd, ⟨a, m'⟩, hhandle, hp⟩ := perform_wraps (P := P) hc
          (by simpa [Cmd.quiet] using hledger) hr
        have hperforms : Performs P faults m ctx c a m' := ⟨rnd, hr, by simp [hhandle], hp⟩
        obtain ⟨e, he⟩ := hperforms.step
        exact ⟨e, _, _, he⟩
    | _ => exact absurd trivial hledger

theorem joinFinish_total (join : PendingJoin) (response : DuplicateResponse) (m : Machine) :
    ∃ es x m' tr, (joinFinish P join response).run.exec (nodeDevice P faults) m es =
      some (x, m', tr) :=
  Prog.Only.exec_total (fun _ m hc => nodeDevice_answers_wraps hc m)
    (joinFinish_only (fun _ => Cmd.benign.creates) P join response (fun _ _ _ => rfl)
      (fun _ _ _ _ _ => rfl) fun _ => rfl) m

theorem EnrollService.duplicate_total (self : EnrollService) (request : Request) (m : Machine) :
    ∃ es x m' tr, (self.duplicate P request).exec (nodeDevice P faults) m es = some (x, m', tr) :=
  Prog.Only.exec_total (fun _ m hc => nodeDevice_answers_wraps hc m)
    (duplicate_only P self request (fun _ => Cmd.benign.creates) (fun _ => trivial) trivial trivial
      (fun _ _ => rfl) (fun _ _ => rfl) trivial trivial trivial) m

end Sceau
