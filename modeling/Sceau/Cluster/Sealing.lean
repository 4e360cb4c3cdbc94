import Sceau.Cluster.Enrollment

/-!
# Every service can seal

A TPM refuses to create a child that is fixed to it under a key that is not, and the other way round.
The SRK is fixed and the fleet key is not, so what `seal` asks for has to follow the key the sealer was
built around, and `child_fixed` is there for that. The result is about the cluster: whichever key a
service has, and whatever has happened to its node since it was started, `Encrypt` answers, on every
plaintext a TPM can seal and on no other.

Two invariants carry it, besides `Available`: the key in a slot is a storage key (`Enrollable`), and
each service's `child_fixed` is its key's `fixedTPM`.
-/

set_option autoImplicit false

namespace Sceau

open Lib

/-! ## One sealer -/

section Sealer

variable {P : Platform} {faults : TpmCmd → Bool} {m : Machine} {context : Context}

/-- What is sealed is fixed to the TPM exactly if the sealer's key is. -/
def TpmSealer.Follows (s : TpmSealer) : Prop :=
  ∃ t, s.primary.Names t ∧ s.childFixed = t.objectAttributes.fixedTpm

theorem TpmSealer.new_follows :
    Prog.wpOk (nodeDevice P faults) (TpmSealer.new P) (fun s _ => s.Follows) m := by
  unfold TpmSealer.new
  refine Prog.wpOk_bind (wpOk_contextNew ?_)
  refine Prog.wpOk_bind (Prog.wpOk_mono ?_ (wp_nullauth_ok
    (Q := fun (x : Handle × String × Bool) _ => ∃ t, x.1.Names t ∧
      x.2.2 = t.objectAttributes.fixedTpm) (fun _ _ _ h => h) ?_))
  · intro x m₂ h
    exact Prog.wpOk_pure h
  · refine Prog.wpOk_bind (wpOk_tpmCall fun primary m₁ hcreate => ?_)
    obtain ⟨-, random, -, rfl, rfl⟩ := performs_createPrimary.mp hcreate
    refine Prog.wpOk_bind (wpOk_tpmCall fun pub m₂ hread => ?_)
    obtain ⟨⟨o, ho, rfl⟩, rfl⟩ := performs_readPublic.mp hread
    have hnames : (Handle.transient (m.tpm.next + 2) (.key (m.tpm.primary srkPublic random))).Names
        (m.tpm.primary srkPublic random) := .inr ⟨_, rfl⟩
    exact Prog.wpOk_pure ⟨_, hnames, by rw [hnames.resolve ho]; rfl⟩

theorem TpmSealer.fromPrimary_follows {k : Public} :
    Prog.wpOk (nodeDevice P faults) (TpmSealer.fromPrimary P context (.persistent k))
      (fun s _ => s.Follows) m := by
  unfold TpmSealer.fromPrimary
  refine Prog.wpOk_bind (Prog.wpOk_mono ?_ (Fleet.readPublic_wp (.inl rfl)))
  rintro pub m₁ ⟨rfl, -⟩
  exact Prog.wpOk_pure ⟨pub, .inl rfl, rfl⟩

theorem buildSealer_follows :
    Prog.wpOk (nodeDevice P faults) (buildSealer P) (fun x _ => x.1.Follows) m := by
  unfold buildSealer
  refine Prog.wpOk_bind (Prog.wpOk_mapErr (wpOk_contextNew ?_))
  refine Prog.wpOk_bind (Prog.wp_run_lift.mpr (Prog.wp_mono ?_ loadFleetKey_wp))
  intro tr found m₁ hfound found' heq
  obtain rfl := Except.ok.inj heq
  cases found with
  | error e =>
    refine Prog.wpOk_bind (Prog.wpOk_mapErr (Prog.wpOk_mono ?_ TpmSealer.new_follows))
    exact fun s m₂ hs => Prog.wpOk_pure hs
  | ok fleetKey =>
    obtain ⟨k, rfl, -⟩ := hfound fleetKey rfl
    refine Prog.wpOk_bind (Prog.wpOk_mapErr (Prog.wpOk_mono ?_ TpmSealer.fromPrimary_follows))
    intro s m₂ hs
    refine Prog.wpOk_bind (Prog.wpOk_mapErr (Prog.wpOk_mapErr (Prog.wpOk_mono ?_ TpmSealer.new_wp)))
    exact fun legacy m₃ _ => Prog.wpOk_pure hs

theorem runServe_follows {forceLegacy : Bool} :
    Prog.wpOk (nodeDevice P faults) (runServe P forceLegacy)
      (fun service _ => service.sealer.value.Follows) m := by
  have hchoose : Prog.wpOk (nodeDevice P faults) (chooseSealer P forceLegacy)
      (fun x _ => x.1.Follows) m := by
    unfold chooseSealer
    split
    · refine Prog.wpOk_bind (Prog.wpOk_mapErr (Prog.wpOk_mono ?_ TpmSealer.new_follows))
      exact fun s m₁ hs => Prog.wpOk_pure hs
    · exact buildSealer_follows
  unfold runServe
  refine Prog.wpOk_bind (Prog.wpOk_mapErr (Prog.wpOk_mono ?_ hchoose))
  intro x m' hx
  obtain ⟨s, legacy⟩ := x
  cases legacy <;> exact Prog.wpOk_pure hx

theorem error_ne_ok {ε α β : Type} {e : ε} {f : β → α} :
    ¬ ∃ b, (.error e : Except ε α) = .ok (f b) := by
  rintro ⟨b, hb⟩
  cases hb

/-- What a TPM can seal: something, and not too much of it. -/
def Sealable (plaintext : Bytes) : Prop := plaintext ≠ [] ∧ plaintext.length ≤ maxSealData

/-- Such a child goes with its parent. -/
theorem TpmSealer.Follows.consistent {s : TpmSealer} (h : s.Follows) {ctx : Context} {t : Public}
    (hparent : m.storageParent ctx s.primary = some t) :
    attributesConsistent t (sealedPublic s.childFixed) = true := by
  obtain ⟨t', hnames, hfixed⟩ := h
  obtain rfl := hnames.storageParent hparent
  rw [hfixed]
  cases hb : t.objectAttributes.fixedTpm <;> simp [attributesConsistent, sealedPublic, hb]

theorem TpmSealer.create_exact (self : TpmSealer) (hP : P.Lawful) (hfollows : self.Follows)
    {t : Public} (hparent : m.storageParent self.context self.primary = some t)
    {plaintext : Bytes} :
    (self.context.executeWithNullauthSession fun ctx =>
      ctx.create self.primary (sealedPublic self.childFixed) plaintext :
        Fallible (Failure TpmError) (Private × Public)).run.wp (nodeDevice P noFault)
      (fun _ r _ => (plaintext = [] ∧ ∃ e, r = .error e) ∨
        plaintext ≠ [] ∧ ∃ x c, r = .ok x ∧
          envelopeEncode P.marshall Private.value x.2 x.1 = some c) m := by
  have hconsistent := hfollows.consistent hparent
  have hauth := hasAuth_inSession m self.context
  rw [← storageParent_inSession] at hparent
  have hrefuses : refuses (m.inSession self.context) (self.context.withSession m)
      (.create self.primary (sealedPublic self.childFixed) plaintext) = plaintext.isEmpty := by
    simp [refuses, hparent, hauth, hconsistent]
  refine wp_nullauth_noFault (Q := fun r _ => (plaintext = [] ∧ ∃ e, r = .error e) ∨
    plaintext ≠ [] ∧ ∃ (x : Private × Public) (c : Bytes), r = .ok x ∧
      envelopeEncode P.marshall Private.value x.2 x.1 = some c) ?_
  refine wp_tpmCall.mpr ⟨fun hf e => ⟨rfl, .inl ⟨?_, _, rfl⟩⟩, fun x m₁ hcreate => ?_⟩
  · simpa [Fails, noFault, hrefuses] using hf
  · obtain ⟨t', -, hpriv, hunique, hpub, -, rfl⟩ := performs_create hcreate
    have htemplate : sealedPublic self.childFixed ∈ templates := by
      cases self.childFixed <;> simp [templates]
    obtain ⟨c, hc, -⟩ := envelope_of_create hP htemplate rfl hpub hunique hpriv
    obtain ⟨rnd, hr, -⟩ := hcreate
    rw [hrefuses] at hr
    exact ⟨rfl, .inr ⟨by simpa using hr, x, c, rfl, hc⟩⟩

/-- `seal` comes back with a ciphertext exactly if the plaintext can be sealed. -/
theorem TpmSealer.seal_exact (self : TpmSealer) (hP : P.Lawful) (hfollows : self.Follows)
    {t : Public} (hparent : m.storageParent self.context self.primary = some t)
    (plaintext : Bytes) :
    (self.seal P plaintext).run.wp (nodeDevice P noFault)
      (fun _ r _ => (∃ c, r = .ok c) ↔ Sealable plaintext) m := by
  unfold TpmSealer.seal
  split
  · rename_i hlong
    exact iff_of_false error_ne_ok fun h => Nat.not_le_of_lt hlong h.2
  · rename_i hlen
    refine Prog.wp_run_bind.mpr (Prog.wp_mono ?_ (self.create_exact hP hfollows hparent))
    rintro tr r m₁ (⟨rfl, e, rfl⟩ | ⟨hne, ⟨priv, pub⟩, c, rfl, hc⟩)
    · exact iff_of_false error_ne_ok fun h => h.1 rfl
    · simp only [hc]
      exact ⟨fun _ => ⟨hne, Nat.le_of_not_lt hlen⟩, fun _ => ⟨c, rfl⟩⟩

theorem KmsService.encrypt_exact (self : KmsService) (hP : P.Lawful)
    (hlock : self.sealer.poisoned = false) (hfollows : self.sealer.value.Follows) {t : Public}
    (hparent : m.storageParent self.sealer.value.context self.sealer.value.primary = some t)
    (plaintext : Bytes) :
    (self.encrypt P plaintext).wp (nodeDevice P noFault) (fun _ x _ => x.2 = self ∧
      ((∃ c, x.1 = .ok { ciphertext := c, keyId := self.status.keyId }) ↔ Sealable plaintext)) m := by
  have hkeyId : self.status.keyId = self.sealer.value.keyId := by
    simp [KmsService.status, KmsService.keyId, hlock]
  unfold KmsService.encrypt
  refine Prog.wp_bind.mpr (Prog.wp_mono ?_ (Mutex.call_wp
    (Q := fun r _ => (∃ c, r = .ok c) ↔ Sealable plaintext) (fun hpoisoned => ?_) fun _ => ?_))
  · intro tr x m' hx
    obtain ⟨r, lock⟩ := x
    obtain ⟨rfl, hx⟩ := hx
    refine ⟨rfl, ?_⟩
    rw [hkeyId, ← hx]
    cases r with
    | error e => exact iff_of_false error_ne_ok error_ne_ok
    | ok c => exact ⟨fun _ => ⟨c, rfl⟩, fun _ => ⟨c, rfl⟩⟩
  · cases hlock.symm.trans hpoisoned
  · refine Prog.wp_mono ?_ (Prog.wp_and (self.sealer.value.seal_exact hP hfollows hparent plaintext)
      (TpmSealer.seal_wp hP (fun _ => rfl) self.sealer.value plaintext))
    rintro tr r m' ⟨hexact, hr⟩
    refine ⟨fun e he => ?_, fun c hc => ?_, fun hpanic => ?_⟩
    · subst he
      exact (iff_of_false error_ne_ok error_ne_ok).trans hexact
    · subst hc
      exact ⟨fun _ => hexact.mp ⟨c, rfl⟩, fun _ => ⟨c, rfl⟩⟩
    · subst hpanic
      rcases hr with ⟨-, e, he⟩ | ⟨t', pub, priv, c, -, hc⟩
      · cases he
      · cases hc

/-! ## There is an answer

`TPM2_Create` is the one command whose bytes have to fit: it is performed as long as some wrapped blob
of that size has not been used. -/

/-- Some private part that fits is not in the ledger. -/
def Ledger.Spare (P : Platform) (l : Ledger) : Prop :=
  ∃ b : Bytes, b.length ≤ P.privateMax ∧ ∀ o ∈ l.objects, o.priv.value ≠ b

/-- Around a body that ends, the session opens and closes. -/
theorem nullauth_ends {ε α : Type} [FromTss ε] {f : Context → Fallible ε α}
    (hbody : (f (context.withSession m)).run.Ends (nodeDevice P faults) (m.inSession context)) :
    (context.executeWithNullauthSession f).run.Ends (nodeDevice P faults) m := by
  have hopen : ((m.inSession context).openSession context ⟨m.tpm.next, .hmac⟩).isSome = true := by
    rw [openSession_inSession m context context rfl]
    rfl
  have hstart : Performs P faults m context (.startAuthSession .hmac) (some ⟨m.tpm.next, .hmac⟩)
      (m.inSession context) := performs_startAuthSession.mpr (.inr ⟨rfl, rfl⟩)
  have hattr : Performs P faults (m.inSession context) context
      (.trSessSetAttributes ⟨m.tpm.next, .hmac⟩ false) () (m.inSession context) :=
    performs_trSessSetAttributes.mpr ⟨hopen, rfl⟩
  obtain ⟨e₁, h₁⟩ := hstart.step
  obtain ⟨e₂, h₂⟩ := hattr.step
  unfold Context.executeWithNullauthSession
  rw [Prog.run_bind]
  refine Prog.Ends.call h₁ ?_
  show Prog.Ends _ (context.trSessSetAttributes ⟨m.tpm.next, .hmac⟩ false >>= _ : Fallible ε α).run _
  rw [Prog.run_bind]
  refine Prog.Ends.call h₂ ?_
  show Prog.Ends _ (liftM (f (context.withSession m)).run >>= _ : Fallible ε α).run _
  rw [Prog.run_bind, Prog.run_lift]
  refine Prog.Ends.bind (Prog.Ends.bind hbody fun _ _ => Prog.Ends.ret _ _) fun r m₂ => ?_
  -- what is left closes the session, whatever it came to
  refine Prog.Only.exec_total (X := Cmd.quiet TpmCmd.movesLedger)
    (fun _ m hc => nodeDevice_answers hc m) ?_ m₂
  cases r with
  | error e => trivial
  | ok res => exact Prog.Only.run_bind (only_tpmCall rfl) fun _ => trivial

theorem create_ends {ctx : Context} {parent : Handle} {template : Public} {plaintext : Bytes}
    (hspare : m.ledger.Spare P) :
    (ctx.create parent template plaintext : Fallible (Failure TpmError) (Private × Public)).run.Ends
      (nodeDevice P faults) m := by
  obtain ⟨b, hlen, hb⟩ := hspare
  cases hr : refuses m ctx (.create parent template plaintext) with
  | true =>
    have hfails : Fails faults m ctx (.create parent template plaintext) := .inr hr
    exact Prog.Ends.call (e := .fail (.rc 0)) (hfails.step (P := P) (.rc 0)) (Prog.Ends.ret _ _)
  | false =>
    have hfresh : ∀ t pub, m.ledger.findObject t pub ⟨b⟩ = none := by
      intro t pub
      refine List.find?_eq_none.mpr fun o ho hsame => hb o ho ?_
      simp only [decide_eq_true_eq] at hsame
      rw [hsame.2.2]
    have hsome : (perform P m ctx (.create parent template plaintext) { priv := b }).isSome = true := by
      cases hparent : m.storageParent ctx parent with
      | none => simp [refuses, hparent] at hr
      | some t => simp [perform, hparent, hlen, hfresh]
    obtain ⟨⟨a, m'⟩, hp⟩ := Option.isSome_iff_exists.mp hsome
    have hperforms : Performs P faults m ctx (.create parent template plaintext) a m' :=
      ⟨{ priv := b }, hr, nofun, hp⟩
    obtain ⟨e, he⟩ := hperforms.step
    exact Prog.Ends.call he (Prog.Ends.ret _ _)

theorem TpmSealer.seal_ends (self : TpmSealer) (plaintext : Bytes) (hspare : m.ledger.Spare P) :
    (self.seal P plaintext).run.Ends (nodeDevice P faults) m := by
  unfold TpmSealer.seal
  split
  · exact Prog.Ends.ret _ _
  · rw [Prog.run_bind]
    refine Prog.Ends.bind (nullauth_ends (create_ends hspare)) fun r m₁ => ?_
    cases r with
    | error e => exact Prog.Ends.ret _ _
    | ok created =>
      obtain ⟨priv, pub⟩ := created
      dsimp only
      split <;> exact Prog.Ends.ret _ _

theorem KmsService.encrypt_ends (self : KmsService) (plaintext : Bytes)
    (hspare : m.ledger.Spare P) : (self.encrypt P plaintext).Ends (nodeDevice P faults) m := by
  unfold KmsService.encrypt
  refine Prog.Ends.bind ?_ fun _ _ => Prog.Ends.ret _ _
  unfold Mutex.call
  split
  · exact Prog.Ends.ret _ _
  · refine Prog.Ends.bind (self.sealer.value.seal_ends plaintext hspare) fun r m₁ => ?_
    cases r with
    | ok c => exact Prog.Ends.ret _ _
    | error e => cases e <;> exact Prog.Ends.ret _ _

end Sealer

/-! ## The cluster -/

section Cluster

variable {ι : Type} [DecidableEq ι] {P : Platform} {G i : ι} {w w' : World ι} {m : Machine}
  {es : List Choice}

/-- A service has its key at hand, whichever it is. -/
theorem Instance.Runs.parent {inst : Instance} {filled : Option Nat}
    (h : inst.Runs P m.tpm filled) (hmade : ∀ k, m.tpm.slot = some k → k.Duplicable P) :
    inst.service.sealer.poisoned = false ∧ ∃ t, m.storageParent inst.service.sealer.value.context
      inst.service.sealer.value.primary = some t := by
  cases h with
  | own srk before => exact ⟨rfl, _, srk.storageParent rfl⟩
  | @fleet s legacy k started f primary keyId slot filling after srk =>
    refine ⟨rfl, k, storageParent_eq_some.mpr ⟨?_, (hmade k slot).storage⟩⟩
    show m.resolve s.context s.primary = _
    rw [primary]
    exact if_pos slot

namespace World

/-- Every service's sealer follows its key. -/
def Follows (w : World ι) : Prop :=
  ∀ i, ∀ inst ∈ (w.nodes i).serves, inst.service.sealer.value.Follows

theorem Follows.put (h : w.Follows) : (w.put i m).Follows :=
  forall_put (C := fun _ node => ∀ inst ∈ node.serves, inst.service.sealer.value.Follows) h id

/-- A change to a node that starts no service. -/
theorem Follows.modify (h : w.Follows) {f : Node → Node}
    (hf : ∀ node, ∀ inst ∈ (f node).serves, inst ∈ node.serves) : (w.modify i f).Follows :=
  forall_modify (C := fun _ node => ∀ inst ∈ node.serves, inst.service.sealer.value.Follows) h
    fun node hnode inst hinst => hnode inst (hf node inst hinst)

theorem Follows.effect (h : w.Follows) (hP : P.Lawful) (havailable : w.Available P G) {op : Op}
    (heffect : Effect P noFault w i es op w') : w'.Follows := by
  cases heffect with
  | genesis | status | duplicate => exact h.put
  | enroll | enrollStop | joinBegin | joinEnd | joinRejected =>
    exact h.put.modify fun _ _ hinst => hinst
  | @serve forceLegacy r m tr run =>
    refine forall_modify (C := fun _ node => ∀ inst ∈ node.serves,
      inst.service.sealer.value.Follows) h.put fun node hnode inst hinst => ?_
    rcases List.mem_append.mp hinst with hold | hnew
    · exact hnode inst hold
    · obtain ⟨service, hservice, rfl⟩ := Option.map_eq_some_iff.mp (Option.mem_toList.mp hnew)
      exact Prog.wp_sound runServe_follows run service (eq_ok_of_toOption hservice)
  | stop => exact h.put.modify fun _ _ hinst => List.mem_of_mem_eraseIdx hinst
  | @encrypt n plaintext inst service answer m tr running run =>
    obtain ⟨hservice, -⟩ := Prog.wp_sound (inst.service.encrypt_wp hP (fun _ => rfl) plaintext) run
    dsimp only at hservice
    subst hservice
    rw [put_setService running]
    cases answer <;> exact h.put
  | @decrypt n keyId ciphertext inst service answer m tr running run =>
    have hnamed := ((havailable.steady i).serves inst (List.mem_of_getElem? running)).1.named
    obtain ⟨rfl, -⟩ := Prog.wp_sound (hnamed.decrypt_wp keyId ciphertext) run
    rw [put_setService running]
    exact h.put

theorem Follows.run (hP : P.Lawful) {tpms : ι → Tpm} {acts : List (ClusterAct ι)}
    (hempty : ∀ i, (tpms i).slot = none)
    (hsrk : ∀ i, ((tpms i).ownerSeed srkPublic).isSome = true)
    (hg : Along (World.step P noFault) (Allowed G) (World.start tpms) acts)
    (hr : runs (World.step P noFault) (World.start tpms) acts = some w) : w.Follows := by
  have hboth : w.Available P G ∧ w.Follows := by
    refine runs_invariant (I := fun w => w.Available P G ∧ w.Follows) ?_
      ⟨Available.start hempty hsrk, fun _ _ hinst => absurd hinst List.not_mem_nil⟩ hg hr
    intro w act w' hI hallowed hstep
    exact ⟨hI.1.effect hP hallowed (step_effect hstep), hI.2.effect hP hI.1 (step_effect hstep)⟩
  exact hboth.2

end World

/-- **Every service can seal.** In any allowed run, whenever a service is asked to encrypt, it answers
exactly if the plaintext has between 1 and 128 bytes: it does not matter whether it has the SRK or the
fleet key, nor whether its node has got the fleet key since it was started. What it answers carries the
`key_id` that its `Status` has, and the service is left as it was. As long as the TPM has a wrapped blob
to return, the call does come to an end. -/
theorem encrypt_answers (hP : P.Lawful) {tpms : ι → Tpm} {acts : List (ClusterAct ι)}
    (hempty : ∀ i, (tpms i).slot = none)
    (hsrk : ∀ i, ((tpms i).ownerSeed srkPublic).isSome = true) (hfits : ∀ i, (tpms i).Fits P)
    (hg : Along (World.step P noFault) (World.Allowed G) (World.start tpms) acts)
    (hr : runs (World.step P noFault) (World.start tpms) acts = some w)
    {n : Nat} {inst : Instance} (hinst : (w.nodes i).serves[n]? = some inst) (plaintext : Bytes) :
    (w.ledger.Spare P →
      (inst.service.encrypt P plaintext).Ends (nodeDevice P noFault) (w.machine i)) ∧
    ∀ es r service m tr, (inst.service.encrypt P plaintext).exec (nodeDevice P noFault)
        (w.machine i) es = some ((r, service), m, tr) →
      service = inst.service ∧
        ((∃ c, r = .ok { ciphertext := c, keyId := inst.service.status.keyId }) ↔
          Sealable plaintext) := by
  refine ⟨fun hspare => inst.service.encrypt_ends plaintext hspare, ?_⟩
  intro es r service m tr run
  have hmem := List.mem_of_getElem? hinst
  obtain ⟨havailable, henrollable⟩ := (World.Enrollable.start hempty hfits).run hP
    (World.Available.start hempty hsrk) hg hr
  have hfollows := World.Follows.run hP hempty hsrk hg hr i inst hmem
  have hruns := ((havailable.steady i).serves inst hmem).1
  obtain ⟨hlock, t, hparent⟩ := Instance.Runs.parent (m := w.machine i) hruns (henrollable i).made
  exact Prog.wp_sound (inst.service.encrypt_exact hP hlock hfollows hparent plaintext) run

end Cluster

/-! Node `false` of two runs two services: one with its SRK, from before it joined, and one with the
fleet key. -/

theorem encrypt_answers_of_two :
    ∃ (w : World Bool) (before after : Instance),
      runs (World.step .plain noFault) (World.start seededTpm) (beforeJoin ++ joinAndServe) =
        some w ∧
      (w.nodes false).serves[0]? = some before ∧ (w.nodes false).serves[1]? = some after ∧
      before.service.sealer.value.childFixed = true ∧
      after.service.sealer.value.childFixed = false ∧
      ∀ inst ∈ [before, after],
        (inst.service.encrypt .plain [7]).Ends (nodeDevice .plain noFault) (w.machine false) ∧
        ∀ es r service m tr, (inst.service.encrypt .plain [7]).exec (nodeDevice .plain noFault)
            (w.machine false) es = some ((r, service), m, tr) →
          ∃ c, r = .ok { ciphertext := c, keyId := inst.service.status.keyId } := by
  have hg : Along (World.step .plain noFault) (World.Allowed true) (World.start seededTpm)
      (beforeJoin ++ joinAndServe) := by
    decide +kernel
  have hall : ((runs (World.step .plain noFault) (World.start seededTpm)
      (beforeJoin ++ joinAndServe)).bind fun w => (w.nodes false).serves[0]?.bind fun before =>
        (w.nodes false).serves[1]?.map fun after =>
          (before.service.sealer.value.childFixed, after.service.sealer.value.childFixed,
            decide (∀ o ∈ w.ledger.objects, o.priv.value ≠ [99]))) =
      some (true, false, true) := by
    decide +kernel
  obtain ⟨w, hrun, hall⟩ := Option.bind_eq_some_iff.mp hall
  obtain ⟨before, hbefore, hall⟩ := Option.bind_eq_some_iff.mp hall
  obtain ⟨after, hafter, hall⟩ := Option.map_eq_some_iff.mp hall
  simp only [Prod.mk.injEq, decide_eq_true_eq] at hall
  obtain ⟨hfixed, hfree, hspare⟩ := hall
  refine ⟨w, before, after, hrun, hbefore, hafter, hfixed, hfree, fun inst hinst => ?_⟩
  have hserves : ∃ n : Nat, (w.nodes false).serves[n]? = some inst := by
    rcases List.mem_pair.mp hinst with rfl | rfl
    · exact ⟨0, hbefore⟩
    · exact ⟨1, hafter⟩
  obtain ⟨n, hn⟩ := hserves
  obtain ⟨hends, hexact⟩ := encrypt_answers Platform.plain_lawful (fun _ => rfl)
    (fun _ => by simp [seededTpm]) seededTpm_fits hg hrun hn [7]
  refine ⟨hends ⟨[99], by decide, hspare⟩, fun es r service m tr run => ?_⟩
  exact (hexact es r service m tr run).2.mpr ⟨by decide, by decide⟩

end Sceau
