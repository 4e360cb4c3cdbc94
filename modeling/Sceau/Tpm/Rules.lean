import Sceau.Tpm.Device

/-!
# Reasoning about TPM commands

`Performs` and `Fails` name the two outcomes of a command, and each command gets the one lemma that
says what performing it does. Everything later is derived from those: the weakest precondition of a
call, of the null-auth session around a closure, and the frames — which commands leave the fleet
key's slot, the loaded objects or the ledger alone.
-/

set_option autoImplicit false

namespace Sceau

open Lib

variable {P : Platform} {faults : TpmCmd → Bool} {m m' : Machine} {ctx : Context}

/-! ## The two outcomes

A command that fails changes nothing, and its error is the environment's to choose; one that is
performed was not refused. Which commands may fail on their own is `faults`, so what is proved for all
`faults` holds of a TPM in any condition and what is proved for `noFault` of one that works. -/

/-- The command may fail here. -/
def Fails (faults : TpmCmd → Bool) (m : Machine) (ctx : Context) (c : TpmCmd) : Prop :=
  faults c = true ∨ refuses m ctx c = true

/-- The command may be performed here, with this answer and this state after it. -/
def Performs (P : Platform) (faults : TpmCmd → Bool) (m : Machine) (ctx : Context) (c : TpmCmd)
    (a : c.Res) (m' : Machine) : Prop :=
  ∃ rnd : Rnd, refuses m ctx c = false ∧ (rnd.noHandle = true → faults c = true) ∧
    perform P m ctx c rnd = some (a, m')

theorem tpmStep_cases {c : TpmCmd} {e : Choice} {r : Except TssError c.Res}
    (h : tpmStep P faults ctx c m e = some (r, m')) :
    (∃ err, Fails faults m ctx c ∧ r = .error err ∧ m' = m) ∨
      ∃ a, Performs P faults m ctx c a m' ∧ r = .ok a := by
  cases e with
  | fail err =>
    simp only [tpmStep] at h
    split at h
    · rename_i hf
      simp only [Option.some.injEq, Prod.mk.injEq] at h
      exact .inl ⟨err, by simpa [Fails] using hf, h.1.symm, h.2.symm⟩
    · cases h
  | ok rnd =>
    simp only [tpmStep] at h
    split at h
    · cases h
    · rename_i hf
      obtain ⟨⟨a, m₁⟩, hp, heq⟩ := Option.map_eq_some_iff.mp h
      simp only [Prod.mk.injEq] at heq
      obtain ⟨rfl, rfl⟩ := heq
      simp only [Bool.or_eq_true, Bool.and_eq_true, Bool.not_eq_true', not_or, not_and,
        Bool.not_eq_false, Bool.not_eq_true] at hf
      exact .inr ⟨a, ⟨rnd, hf.1, hf.2, hp⟩, rfl⟩
  | counter _ => cases h
  | io _ => cases h
  | file _ => cases h
  | reply _ => cases h

theorem Fails.step {c : TpmCmd} (h : Fails faults m ctx c) (err : TssError) :
    tpmStep P faults ctx c m (.fail err) = some (.error err, m) := by
  simp only [tpmStep]
  rw [if_pos (by simpa [Fails] using h)]

theorem Performs.step {c : TpmCmd} {a : c.Res} (h : Performs P faults m ctx c a m') :
    ∃ e, tpmStep P faults ctx c m e = some (.ok a, m') := by
  obtain ⟨rnd, hr, hn, hp⟩ := h
  refine ⟨.ok rnd, ?_⟩
  simp only [tpmStep]
  rw [if_neg, hp]
  · rfl
  · simp only [hr, Bool.false_or, Bool.and_eq_true, Bool.not_eq_true', not_and, Bool.not_eq_false]
    exact hn

@[simp] theorem nodeDevice_tpm {c : TpmCmd} {e : Choice} :
    nodeDevice P faults (.tpm ctx c) m e = tpmStep P faults ctx c m e := rfl

/-- Both outcomes of one call. -/
theorem wp_tpmCall {ε : Type} [FromTss ε] {c : TpmCmd}
    {Q : List (Event Cmd Cmd.Res) → Except ε c.Res → Machine → Prop} :
    (tpmCall (ε := ε) ctx c).run.wp (nodeDevice P faults) Q m ↔
      (Fails faults m ctx c → ∀ e, Q [⟨.tpm ctx c, .error e⟩] (.error (FromTss.fromTss e)) m) ∧
      ∀ a m', Performs P faults m ctx c a m' → Q [⟨.tpm ctx c, .ok a⟩] (.ok a) m' := by
  constructor
  · intro h
    refine ⟨fun hf e => h (.fail e) (.error e) m (hf.step (P := P) e), fun a m' hp => ?_⟩
    obtain ⟨e, he⟩ := hp.step
    exact h e (.ok a) m' he
  · rintro ⟨hf, hp⟩ e r m' hd
    rcases tpmStep_cases hd with ⟨err, hfail, rfl, rfl⟩ | ⟨a, hperf, rfl⟩
    · exact hf hfail err
    · exact hp a m' hperf

/-- The performed outcome alone. -/
theorem wpOk_tpmCall {ε : Type} [FromTss ε] {c : TpmCmd} {Q : c.Res → Machine → Prop}
    (h : ∀ a m', Performs P faults m ctx c a m' → Q a m') :
    Prog.wpOk (nodeDevice P faults) (tpmCall (ε := ε) ctx c) Q m :=
  wp_tpmCall.mpr ⟨by simp, fun a m' hp _ hb => Except.ok.inj hb ▸ h a m' hp⟩

/-! ## What each command does

One lemma per command, an equivalence wherever the answer and the next state are determined. It is
through these that the later modules execute a command. -/

section Commands

variable {c : TpmCmd}

attribute [local simp] refuses perform

theorem performs_startAuthSession {ty : SessionType} {a : Option AuthSession} :
    Performs P faults m ctx (.startAuthSession ty) a m' ↔
      (a = none ∧ faults (.startAuthSession ty) = true ∧ m' = m) ∨
      (a = some ⟨m.tpm.next, ty⟩ ∧ m' = { m with tpm := m.tpm.addSession ctx.id ty }) := by
  constructor
  · rintro ⟨rnd, -, hn, hp⟩
    simp only [perform] at hp
    split at hp <;> simp only [Option.some.injEq, Prod.mk.injEq] at hp
    · rename_i h
      exact .inl ⟨hp.1.symm, hn h, hp.2.symm⟩
    · exact .inr ⟨hp.1.symm, hp.2.symm⟩
  · rintro (⟨rfl, hf, rfl⟩ | ⟨rfl, rfl⟩)
    · exact ⟨{ noHandle := true }, rfl, fun _ => hf, rfl⟩
    · exact ⟨{}, rfl, by simp, rfl⟩

theorem performs_trSessSetAttributes {s : AuthSession} {cs : Bool} {a : Unit} :
    Performs P faults m ctx (.trSessSetAttributes s cs) a m' ↔
      (m.openSession ctx s).isSome = true ∧ m' = m := by
  constructor
  · rintro ⟨rnd, hr, -, hp⟩
    simp only [perform, Option.some.injEq, Prod.mk.injEq] at hp
    exact ⟨by simpa [Option.isSome_iff_ne_none] using hr, hp.2.symm⟩
  · rintro ⟨ho, rfl⟩
    exact ⟨{}, by simpa [Option.isSome_iff_ne_none] using ho, by simp, rfl⟩

theorem performs_policyCommandCode {s : AuthSession} {code : CommandCode} {a : Unit} :
    Performs P faults m ctx (.policyCommandCode s code) a m' ↔
      s.sessionType ≠ .hmac ∧ (m.openSession ctx s).isSome = true ∧
        m' = { m with tpm := m.tpm.setPolicy s.id (.policyCommandCode code) } := by
  constructor
  · rintro ⟨rnd, hr, -, hp⟩
    simp only [perform, Option.some.injEq, Prod.mk.injEq] at hp
    simp only [refuses, Bool.or_eq_false_iff, beq_eq_false_iff_ne, ne_eq,
      Option.isNone_eq_false_iff] at hr
    exact ⟨hr.1, hr.2, hp.2.symm⟩
  · rintro ⟨ht, ho, rfl⟩
    refine ⟨{}, ?_, by simp, rfl⟩
    simp only [refuses, Bool.or_eq_false_iff, beq_eq_false_iff_ne, ne_eq,
      Option.isNone_eq_false_iff]
    exact ⟨ht, ho⟩

theorem performs_policyGetDigest {s : AuthSession} {a : Digest} :
    Performs P faults m ctx (.policyGetDigest s) a m' ↔
      s.sessionType ≠ .hmac ∧ (∃ e, m.openSession ctx s = some e ∧ a = e.policy) ∧ m' = m := by
  constructor
  · rintro ⟨rnd, hr, -, hp⟩
    simp only [perform, Option.map_eq_some_iff, Prod.mk.injEq] at hp
    obtain ⟨e, he, rfl, rfl⟩ := hp
    simp only [refuses, Bool.or_eq_false_iff, beq_eq_false_iff_ne, ne_eq] at hr
    exact ⟨hr.1, ⟨e, he, rfl⟩, rfl⟩
  · rintro ⟨ht, ⟨e, he, rfl⟩, rfl⟩
    exact ⟨{}, by simp [ht, he], by simp, by simp [he]⟩

theorem performs_flushTransient {id : Nat} {obj : Obj} {a : Unit} :
    Performs P faults m ctx (.flushContext (.transient id obj)) a m' ↔
      ⟨ctx.id, id, obj⟩ ∈ m.tpm.objects ∧ m' = { m with tpm := m.tpm.dropObject id } := by
  constructor
  · rintro ⟨rnd, hr, -, hp⟩
    simp only [perform, Option.some.injEq, Prod.mk.injEq] at hp
    exact ⟨by simpa using hr, hp.2.symm⟩
  · rintro ⟨ho, rfl⟩
    exact ⟨{}, by simpa using ho, by simp, rfl⟩

theorem performs_flushSession {s : AuthSession} {a : Unit} :
    Performs P faults m ctx (.flushContext (.session s)) a m' ↔
      (m.openSession ctx s).isSome = true ∧ m' = { m with tpm := m.tpm.dropSession s.id } := by
  constructor
  · rintro ⟨rnd, hr, -, hp⟩
    simp only [perform, Option.some.injEq, Prod.mk.injEq] at hp
    exact ⟨by simpa [Option.isSome_iff_ne_none] using hr, hp.2.symm⟩
  · rintro ⟨ho, rfl⟩
    exact ⟨{}, by simpa [Option.isSome_iff_ne_none] using ho, by simp, rfl⟩

theorem performs_createPrimary {template : Public} {a : Handle} :
    Performs P faults m ctx (.createPrimary template) a m' ↔
      m.hasAuth ctx = true ∧ ∃ unique, unique.length ≤ P.uniqueMax ∧
        a = .transient m.tpm.next (.key (m.tpm.primary template unique)) ∧
        m' = { m with tpm := m.tpm.addObject ctx.id (.key (m.tpm.primary template unique)) } := by
  constructor
  · rintro ⟨rnd, hr, -, hp⟩
    simp only [perform] at hp
    split at hp
    · rename_i hlen
      simp only [Option.some.injEq, Prod.mk.injEq] at hp
      exact ⟨by simpa using hr, rnd.unique, hlen, hp.1.symm, hp.2.symm⟩
    · cases hp
  · rintro ⟨ha, unique, hlen, rfl, rfl⟩
    exact ⟨{ unique }, by simpa using ha, by simp, by simp [hlen]⟩

theorem performs_readPublic {h : Handle} {a : Public} :
    Performs P faults m ctx (.readPublic h) a m' ↔
      (∃ o, m.resolve ctx h = some o ∧ a = o.pub) ∧ m' = m := by
  constructor
  · rintro ⟨rnd, -, -, hp⟩
    simp only [perform, Option.map_eq_some_iff, Prod.mk.injEq] at hp
    obtain ⟨o, ho, rfl, rfl⟩ := hp
    exact ⟨⟨o, ho, rfl⟩, rfl⟩
  · rintro ⟨⟨o, ho, rfl⟩, rfl⟩
    exact ⟨{}, by simp [ho], by simp, by simp [ho]⟩

theorem performs_trFromTpmPublic {h : PersistentTpmHandle} {a : Handle} :
    Performs P faults m ctx (.trFromTpmPublic h) a m' ↔
      h.value = fleetKeyPersistentHandle ∧
        (∃ pub, m.tpm.slot = some pub ∧ a = .persistent pub) ∧ m' = m := by
  constructor
  · rintro ⟨rnd, hr, -, hp⟩
    simp only [perform, Option.map_eq_some_iff, Prod.mk.injEq] at hp
    obtain ⟨pub, hs, rfl, rfl⟩ := hp
    simp only [refuses, Bool.or_eq_false_iff, bne_eq_false_iff_eq] at hr
    exact ⟨hr.1, ⟨pub, hs, rfl⟩, rfl⟩
  · rintro ⟨hv, ⟨pub, hs, rfl⟩, rfl⟩
    exact ⟨{}, by simp [hv, hs], by simp, by simp [hs]⟩

theorem performs_loadExternalPublic {pub : Public} {a : Handle} :
    Performs P faults m ctx (.loadExternalPublic pub) a m' ↔
      a = .transient m.tpm.next (.external pub) ∧
        m' = { m with tpm := m.tpm.addObject ctx.id (.external pub) } := by
  constructor
  · rintro ⟨rnd, -, -, hp⟩
    simp only [perform, Option.some.injEq, Prod.mk.injEq] at hp
    exact ⟨hp.1.symm, hp.2.symm⟩
  · rintro ⟨rfl, rfl⟩
    exact ⟨{}, rfl, by simp, rfl⟩

theorem performs_duplicate {object newParent : Handle} {alg : SymmetricDefinitionObject}
    {a : Data × Private × EncryptedSecret}
    (h : Performs P faults m ctx (.duplicate object newParent alg) a m') :
    ∃ pub t, m.resolve ctx object = some (.key pub) ∧ m.resolve ctx newParent = some t ∧
      m.ledger.findDup (some a.1) a.2.1 a.2.2 = none ∧
      m' = { m with ledger := { m.ledger with
        dups := ⟨pub, t.pub, a.1, a.2.1, a.2.2⟩ :: m.ledger.dups } } := by
  obtain ⟨rnd, hr, -, hp⟩ := h
  simp only [refuses] at hr
  split at hr
  · rename_i pub t ho ht
    simp only [perform, ho, ht] at hp
    split at hp
    · cases hp
    · rename_i hfresh
      simp only [Option.some.injEq, Prod.mk.injEq] at hp
      obtain ⟨rfl, rfl⟩ := hp
      exact ⟨pub, t, ho, ht, by simpa using hfresh, rfl⟩
  · cases hr

theorem performs_import {parent : Handle} {ek : Option Data} {pub : Public} {dup : Private}
    {secret : EncryptedSecret} {alg : SymmetricDefinitionObject} {a : Private}
    (h : Performs P faults m ctx (.import parent ek pub dup secret alg) a m') :
    ∃ t, m.storageParent ctx parent = some t ∧
      (∀ d, m.ledger.findDup ek dup secret = some d → d.target = t ∧ d.key = pub) ∧
      m.ledger.findObject t pub a = none ∧
      m' = { m with ledger := { m.ledger with
        objects := ⟨t, pub, a, .key⟩ :: m.ledger.objects } } := by
  obtain ⟨rnd, hr, -, hp⟩ := h
  simp only [refuses] at hr
  split at hr
  · rename_i t ht
    simp only [perform, ht] at hp
    split at hp
    · cases hp
    · rename_i hfresh
      simp only [Option.some.injEq, Prod.mk.injEq] at hp
      obtain ⟨rfl, rfl⟩ := hp
      refine ⟨t, ht, ?_, by simpa using hfresh, rfl⟩
      intro d hd
      simpa [hd] using (Bool.or_eq_false_iff.mp hr).2
  · cases hr

theorem Ledger.findObject_eq {l : Ledger} {parent pub : Public} {priv : Private}
    {o : CreatedObject} (h : l.findObject parent pub priv = some o) :
    o ∈ l.objects ∧ o.parent = parent ∧ o.pub = pub ∧ o.priv = priv := by
  unfold findObject at h
  exact ⟨List.mem_of_find?_eq_some h, by simpa using List.find?_some h⟩

theorem Ledger.findDup_eq {l : Ledger} {ek : Option Data} {priv : Private}
    {secret : EncryptedSecret} {d : Duplicated} (h : l.findDup ek priv secret = some d) :
    d ∈ l.dups ∧ some d.encryptionKey = ek ∧ d.priv = priv ∧ d.secret = secret := by
  unfold findDup at h
  exact ⟨List.mem_of_find?_eq_some h, by simpa using List.find?_some h⟩

theorem performs_load {parent : Handle} {priv : Private} {pub : Public} {a : Handle} :
    Performs P faults m ctx (.load parent priv pub) a m' ↔
      m.hasAuth ctx = true ∧ ∃ t o, m.storageParent ctx parent = some t ∧
        m.ledger.findObject t pub priv = some o ∧ a = .transient m.tpm.next o.load ∧
        m' = { m with tpm := m.tpm.addObject ctx.id o.load } := by
  constructor
  · rintro ⟨rnd, hr, -, hp⟩
    simp only [refuses] at hr
    split at hr
    · rename_i t ht
      simp only [Bool.or_eq_false_iff, Bool.not_eq_false'] at hr
      simp only [perform, ht, Option.map_eq_some_iff, Prod.mk.injEq] at hp
      obtain ⟨o, ho, rfl, rfl⟩ := hp
      exact ⟨hr.1, t, o, ht, ho, rfl, rfl⟩
    · cases hr
  · rintro ⟨ha, t, o, ht, ho, rfl, rfl⟩
    exact ⟨{}, by simp [ht, ha, ho], by simp, by simp [ht, ho]⟩

/-- `TPM2_EvictControl` of a persistent object deletes it. -/
theorem performs_evict_persistent {pub : Public} {h : PersistentTpmHandle} {a : Handle} :
    Performs P faults m ctx (.evictControl (.persistent pub) h) a m' ↔
      m.hasAuth ctx = true ∧ h.value = fleetKeyPersistentHandle ∧ m.tpm.slot = some pub ∧
        a = .persistent pub ∧ m' = { m with tpm := { m.tpm with slot := none } } := by
  constructor
  · rintro ⟨rnd, hr, -, hp⟩
    simp only [perform, Option.some.injEq, Prod.mk.injEq] at hp
    simp only [refuses, Bool.or_eq_false_iff, Bool.not_eq_false', bne_eq_false_iff_eq] at hr
    exact ⟨hr.1.1, hr.1.2, hr.2, hp.1.symm, hp.2.symm⟩
  · rintro ⟨ha, hv, hs, rfl, rfl⟩
    exact ⟨{}, by simp [ha, hv, hs], by simp, rfl⟩

/-- `TPM2_EvictControl` of a transient key fills an empty slot. -/
theorem performs_evict_transient {id : Nat} {obj : Obj} {h : PersistentTpmHandle} {a : Handle} :
    Performs P faults m ctx (.evictControl (.transient id obj) h) a m' ↔
      m.hasAuth ctx = true ∧ h.value = fleetKeyPersistentHandle ∧
        (∃ pub, obj = .key pub) ∧ ⟨ctx.id, id, obj⟩ ∈ m.tpm.objects ∧ m.tpm.slot = none ∧
        a = .persistent obj.pub ∧ m' = { m with tpm := { m.tpm with slot := some obj.pub } } := by
  constructor
  · rintro ⟨rnd, hr, -, hp⟩
    simp only [perform, Option.some.injEq, Prod.mk.injEq] at hp
    simp only [refuses, Bool.or_eq_false_iff, Bool.not_eq_false', bne_eq_false_iff_eq] at hr
    obtain ⟨⟨ha, hv⟩, hr⟩ := hr
    cases obj with
    | key pub =>
      simp only [Bool.or_eq_false_iff, Bool.not_eq_false', decide_eq_true_eq] at hr
      exact ⟨ha, hv, ⟨pub, rfl⟩, hr.1, by simpa using hr.2, hp.1.symm, hp.2.symm⟩
    | external pub => cases hr
    | sealedData pub d => cases hr
  · rintro ⟨ha, hv, ⟨pub, rfl⟩, hm, hs, rfl, rfl⟩
    exact ⟨{}, by simp [ha, hv, hs, hm], by simp, rfl⟩

theorem performs_create {parent : Handle} {template : Public} {sensitive : Bytes}
    {a : Private × Public} (h : Performs P faults m ctx (.create parent template sensitive) a m') :
    ∃ t, m.storageParent ctx parent = some t ∧ a.1.value.length ≤ P.privateMax ∧
      a.2.unique.length ≤ P.uniqueMax ∧ a.2 = { template with unique := a.2.unique } ∧
      m.ledger.findObject t a.2 a.1 = none ∧
      m' = { m with ledger := { m.ledger with
        objects := ⟨t, a.2, a.1, .data sensitive⟩ :: m.ledger.objects } } := by
  obtain ⟨rnd, hr, -, hp⟩ := h
  simp only [refuses] at hr
  split at hr
  · rename_i t ht
    simp only [perform, ht] at hp
    split at hp
    · rename_i hok
      simp only [Option.some.injEq, Prod.mk.injEq] at hp
      obtain ⟨rfl, rfl⟩ := hp
      exact ⟨t, ht, hok.2.1, hok.1, rfl, hok.2.2, rfl⟩
    · cases hp
  · cases hr

theorem performs_unseal {h : Handle} {a : Bytes} :
    Performs P faults m ctx (.unseal h) a m' ↔
      m.hasAuth ctx = true ∧ (∃ pub, m.resolve ctx h = some (.sealedData pub a)) ∧ m' = m := by
  constructor
  · rintro ⟨rnd, hr, -, hp⟩
    simp only [perform] at hp
    split at hp
    · rename_i pub d ho
      simp only [Option.some.injEq, Prod.mk.injEq] at hp
      obtain ⟨rfl, rfl⟩ := hp
      exact ⟨by simpa [ho] using hr, ⟨pub, ho⟩, rfl⟩
    · cases hp
  · rintro ⟨ha, ⟨pub, ho⟩, rfl⟩
    exact ⟨{}, by simp [ho, ha], by simp, by simp [ho]⟩

end Commands

/-! ## Frames

What a command leaves alone can be told from its kind. Three parts of the state matter later, and each
has its own small set of commands that move it. -/

section Frames

/-- Only `TPM2_EvictControl` moves the fleet key's slot. -/
def TpmCmd.movesSlot : TpmCmd → Bool
  | .evictControl _ _ => true
  | _ => false

/-- The commands that load or flush a transient object. -/
def TpmCmd.movesObjects : TpmCmd → Bool
  | .createPrimary _ => true
  | .loadExternalPublic _ => true
  | .load _ _ _ => true
  | .flushContext (.transient _ _) => true
  | _ => false

/-- The commands that wrap something, and so add to the ledger. -/
def TpmCmd.movesLedger : TpmCmd → Bool
  | .create _ _ _ => true
  | .duplicate _ _ _ => true
  | .import _ _ _ _ _ _ => true
  | _ => false

/-- Not a TPM command that moves the part of the state in question. -/
def Cmd.quiet (moves : TpmCmd → Bool) : Cmd → Prop
  | .tpm _ c => moves c = false
  | _ => True

/-- What a command leaves alone. -/
structure Frame (c : Cmd) (m m' : Machine) : Prop where
  slot : c.quiet TpmCmd.movesSlot → m'.tpm.slot = m.tpm.slot
  objects : c.quiet TpmCmd.movesObjects → m'.tpm.objects = m.tpm.objects
  ledger : c.quiet TpmCmd.movesLedger → m'.ledger = m.ledger
  ownerSeed : m'.tpm.ownerSeed = m.tpm.ownerSeed
  next : m.tpm.next ≤ m'.tpm.next

theorem Frame.refl (c : Cmd) (m : Machine) : Frame c m m :=
  ⟨fun _ => rfl, fun _ => rfl, fun _ => rfl, rfl, Nat.le_refl _⟩

theorem Performs.frame {c : TpmCmd} {a : c.Res} (h : Performs P faults m ctx c a m') :
    Frame (.tpm ctx c) m m' := by
  cases c with
  | startAuthSession ty =>
    rcases performs_startAuthSession.mp h with ⟨-, -, rfl⟩ | ⟨-, rfl⟩
    · exact Frame.refl _ _
    · exact ⟨fun _ => rfl, fun _ => rfl, fun _ => rfl, rfl, Nat.le_succ _⟩
  | trSessSetAttributes s cs =>
    obtain ⟨-, rfl⟩ := performs_trSessSetAttributes.mp h
    exact Frame.refl _ _
  | policyCommandCode s code =>
    obtain ⟨-, -, rfl⟩ := performs_policyCommandCode.mp h
    exact ⟨fun _ => rfl, fun _ => rfl, fun _ => rfl, rfl, Nat.le_refl _⟩
  | policyGetDigest s =>
    obtain ⟨-, -, rfl⟩ := performs_policyGetDigest.mp h
    exact Frame.refl _ _
  | flushContext hd =>
    cases hd with
    | transient id obj =>
      obtain ⟨-, rfl⟩ := performs_flushTransient.mp h
      exact ⟨fun _ => rfl, fun hc => Bool.noConfusion hc, fun _ => rfl, rfl, Nat.le_refl _⟩
    | persistent pub =>
      obtain ⟨rnd, hr, -, -⟩ := h
      cases hr
    | session s =>
      obtain ⟨-, rfl⟩ := performs_flushSession.mp h
      exact ⟨fun _ => rfl, fun _ => rfl, fun _ => rfl, rfl, Nat.le_refl _⟩
  | createPrimary template =>
    obtain ⟨-, unique, -, -, rfl⟩ := performs_createPrimary.mp h
    exact ⟨fun _ => rfl, fun hc => Bool.noConfusion hc, fun _ => rfl, rfl, Nat.le_succ _⟩
  | readPublic hd =>
    obtain ⟨-, rfl⟩ := performs_readPublic.mp h
    exact Frame.refl _ _
  | trFromTpmPublic hd =>
    obtain ⟨-, -, rfl⟩ := performs_trFromTpmPublic.mp h
    exact Frame.refl _ _
  | loadExternalPublic pub =>
    obtain ⟨-, rfl⟩ := performs_loadExternalPublic.mp h
    exact ⟨fun _ => rfl, fun hc => Bool.noConfusion hc, fun _ => rfl, rfl, Nat.le_succ _⟩
  | duplicate object newParent alg =>
    obtain ⟨-, -, -, -, -, rfl⟩ := performs_duplicate h
    exact ⟨fun _ => rfl, fun _ => rfl, fun hc => Bool.noConfusion hc, rfl, Nat.le_refl _⟩
  | «import» parent ek pub dup secret alg =>
    obtain ⟨-, -, -, -, rfl⟩ := performs_import h
    exact ⟨fun _ => rfl, fun _ => rfl, fun hc => Bool.noConfusion hc, rfl, Nat.le_refl _⟩
  | load parent priv pub =>
    obtain ⟨-, -, -, -, -, -, rfl⟩ := performs_load.mp h
    exact ⟨fun _ => rfl, fun hc => Bool.noConfusion hc, fun _ => rfl, rfl, Nat.le_succ _⟩
  | evictControl object persistent =>
    obtain ⟨rnd, -, -, hp⟩ := h
    cases object <;> simp only [perform, Option.some.injEq, Prod.mk.injEq] at hp <;>
      obtain ⟨-, rfl⟩ := hp <;>
      exact ⟨fun hc => Bool.noConfusion hc, fun _ => rfl, fun _ => rfl, rfl, Nat.le_refl _⟩
  | create parent template sensitive =>
    obtain ⟨-, -, -, -, -, -, rfl⟩ := performs_create h
    exact ⟨fun _ => rfl, fun _ => rfl, fun hc => Bool.noConfusion hc, rfl, Nat.le_refl _⟩
  | «unseal» hd =>
    obtain ⟨-, -, rfl⟩ := performs_unseal.mp h
    exact Frame.refl _ _

theorem tpmStep_frame {c : TpmCmd} {e : Choice} {r : Except TssError c.Res}
    (h : tpmStep P faults ctx c m e = some (r, m')) : Frame (.tpm ctx c) m m' := by
  rcases tpmStep_cases h with ⟨-, -, -, rfl⟩ | ⟨a, hp, -⟩
  · exact Frame.refl _ _
  · exact hp.frame

theorem nodeDevice_frame {c : Cmd} {e : Choice} {r : c.Res}
    (h : nodeDevice P faults c m e = some (r, m')) : Frame c m m' := by
  cases c with
  | tpm ctx c => exact tpmStep_frame h
  | openContext =>
    cases e <;> simp only [nodeDevice, Option.some.injEq, Prod.mk.injEq, reduceCtorEq] at h
    · obtain ⟨-, rfl⟩ := h
      exact Frame.refl _ _
    · obtain ⟨-, rfl⟩ := h
      exact ⟨fun _ => rfl, fun _ => rfl, fun _ => rfl, rfl, Nat.le_succ _⟩
  | _ =>
    cases e <;> simp only [nodeDevice, Option.some.injEq, Prod.mk.injEq, reduceCtorEq] at h
    obtain ⟨-, rfl⟩ := h
    exact Frame.refl _ _

end Frames

/-! ## The newest session and the newest object

What was opened last is there to be used and flushed, and flushing it leaves the rest: numbers are
given out in order. -/

namespace Tpm

variable {t : Tpm} {ctx n : Nat}

/-- Flushing the newest session leaves the others. -/
theorem dropSession_newest {s : OpenSession} {rest : List OpenSession}
    (hs : t.sessions = s :: rest) (hlt : ∀ x ∈ rest, x.session.id < s.session.id) :
    (t.dropSession s.session.id).sessions = rest := by
  show t.sessions.filter _ = rest
  rw [hs, List.filter_cons_of_neg (by simp), List.filter_eq_self]
  intro x hx
  have := hlt x hx
  simp
  omega

/-- Flushing the newest object leaves the others. -/
theorem dropObject_newest {o : LoadedObject} {rest : List LoadedObject}
    (ho : t.objects = o :: rest) (hlt : ∀ x ∈ rest, x.id < o.id) :
    (t.dropObject o.id).objects = rest := by
  show t.objects.filter _ = rest
  rw [ho, List.filter_cons_of_neg (by simp), List.filter_eq_self]
  intro x hx
  have := hlt x hx
  simp
  omega

/-- The policy of the newest session is its own affair. -/
theorem setPolicy_newest (ty : SessionType) (policy : Digest) :
    ((t.addSession ctx ty).setPolicy t.next policy).sessions =
      { ctx, session := ⟨t.next, ty⟩, policy } :: t.sessions := by
  have hold : ∀ s ∈ t.sessions,
      (if s.session.id = t.next then { s with policy } else s) = id s := by
    intro s hs
    rw [if_neg (Nat.ne_of_lt (t.sessions_lt s hs))]
    rfl
  simp only [Tpm.setPolicy, Tpm.addSession, List.map_cons, if_true]
  rw [List.map_congr_left hold, List.map_id]

end Tpm

theorem openSession_newest {s : OpenSession} {rest : List OpenSession}
    (hs : m.tpm.sessions = s :: rest) (hctx : s.ctx = ctx.id) :
    m.openSession ctx s.session = some s := by
  unfold Machine.openSession
  rw [hs, List.find?_cons_of_pos]
  simp [hctx]

/-! ## The null-auth session

`execute_with_nullauth_session` opens a session, runs its closure and flushes the session, whatever
the closure returned. Any of the three can fail; the rules below come in the strength a proof needs:
both outcomes with the trace, success alone, and the case in which nothing fails on its own. -/

section Nullauth

/-- The machine inside a null-auth session, and the context its closure is handed. -/
def Machine.inSession (m : Machine) (ctx : Context) : Machine :=
  { m with tpm := m.tpm.addSession ctx.id .hmac }

def Context.withSession (ctx : Context) (m : Machine) : Context :=
  { ctx with session := some ⟨m.tpm.next, .hmac⟩ }

@[simp] theorem withSession_id (ctx : Context) (m : Machine) : (ctx.withSession m).id = ctx.id := rfl

@[simp] theorem inSession_slot (m : Machine) (ctx : Context) :
    (m.inSession ctx).tpm.slot = m.tpm.slot := rfl

@[simp] theorem inSession_objects (m : Machine) (ctx : Context) :
    (m.inSession ctx).tpm.objects = m.tpm.objects := rfl

@[simp] theorem inSession_ledger (m : Machine) (ctx : Context) :
    (m.inSession ctx).ledger = m.ledger := rfl

/-- The session is open, whatever ambient session the asking context carries. -/
theorem openSession_inSession (m : Machine) (ctx ctx' : Context) (h : ctx'.id = ctx.id) :
    (m.inSession ctx).openSession ctx' ⟨m.tpm.next, .hmac⟩ =
      some { ctx := ctx.id, session := ⟨m.tpm.next, .hmac⟩ } :=
  openSession_newest (s := { ctx := ctx.id, session := ⟨m.tpm.next, .hmac⟩ }) rfl h.symm

theorem hasAuth_inSession (m : Machine) (ctx : Context) :
    (m.inSession ctx).hasAuth (ctx.withSession m) = true := by
  have hopen := openSession_inSession m ctx (ctx.withSession m) rfl
  simp only [Machine.hasAuth, Context.withSession] at hopen ⊢
  rw [hopen]
  rfl

variable {ε α : Type} [FromTss ε] {f : Context → Fallible ε α}
  {Q : List (Event Cmd Cmd.Res) → Except ε α → Machine → Prop}

/-- The events before and after the closure. -/
def nullauthOpen (ctx : Context) (s : AuthSession) : List (Event Cmd Cmd.Res) :=
  [⟨.tpm ctx (.startAuthSession .hmac), .ok (some s)⟩,
    ⟨.tpm ctx (.trSessSetAttributes s false), .ok ()⟩]

def flushed (ctx : Context) (h : Handle) (r : Except TssError Unit) : List (Event Cmd Cmd.Res) :=
  [⟨.tpm ctx (.flushContext h), r⟩]

/-- **The null-auth session**, around a closure: it may fail to open, and then the closure does not
run; it may fail to close, and then its error replaces the closure's result. -/
theorem wp_nullauth
    (hstart : faults (.startAuthSession .hmac) = true → ∀ e,
      Q [⟨.tpm ctx (.startAuthSession .hmac), .error e⟩] (.error (FromTss.fromTss e)) m)
    (hnone : faults (.startAuthSession .hmac) = true →
      Q [⟨.tpm ctx (.startAuthSession .hmac), .ok none⟩]
        (.error (FromTss.fromTss .wrongValueFromTpm)) m)
    (hattr : faults (.trSessSetAttributes ⟨m.tpm.next, .hmac⟩ false) = true → ∀ e,
      Q [⟨.tpm ctx (.startAuthSession .hmac), .ok (some ⟨m.tpm.next, .hmac⟩)⟩,
          ⟨.tpm ctx (.trSessSetAttributes ⟨m.tpm.next, .hmac⟩ false), .error e⟩]
        (.error (FromTss.fromTss e)) (m.inSession ctx))
    (hbody : (f (ctx.withSession m)).run.wp (nodeDevice P faults) (fun tr r m₂ =>
      (Fails faults m₂ ctx (.flushContext (.session ⟨m.tpm.next, .hmac⟩)) → ∀ e,
        Q (nullauthOpen ctx ⟨m.tpm.next, .hmac⟩ ++ tr ++
            flushed ctx (.session ⟨m.tpm.next, .hmac⟩) (.error e))
          (.error (FromTss.fromTss e)) m₂) ∧
      ((m₂.openSession ctx ⟨m.tpm.next, .hmac⟩).isSome = true →
        Q (nullauthOpen ctx ⟨m.tpm.next, .hmac⟩ ++ tr ++
            flushed ctx (.session ⟨m.tpm.next, .hmac⟩) (.ok ())) r
          { m₂ with tpm := m₂.tpm.dropSession m.tpm.next })) (m.inSession ctx)) :
    (ctx.executeWithNullauthSession f).run.wp (nodeDevice P faults) Q m := by
  unfold Context.executeWithNullauthSession
  rw [Prog.wp_run_bind]
  refine wp_tpmCall.mpr ⟨?_, ?_⟩
  · intro hf e
    exact hstart (by simpa [Fails, refuses] using hf) e
  intro a m₁ hp
  rcases performs_startAuthSession.mp hp with ⟨rfl, hf, rfl⟩ | ⟨rfl, rfl⟩
  · exact hnone hf
  simp only
  rw [Prog.wp_run_bind]
  refine wp_tpmCall.mpr ⟨?_, ?_⟩
  · intro hf e
    have hopen := openSession_inSession m ctx ctx rfl
    unfold Machine.inSession at hopen
    exact hattr (by simpa [Fails, refuses, hopen] using hf) e
  intro a m₁ hp
  obtain ⟨-, rfl⟩ := performs_trSessSetAttributes.mp hp
  simp only [Prog.wp_run_bind, Prog.run_lift, Prog.wp_bind]
  refine Prog.wp_mono ?_ hbody
  intro tr r m₂ h
  simp only [Prog.wp]
  refine wp_tpmCall.mpr ⟨?_, ?_⟩
  · intro hf e
    simpa [nullauthOpen, flushed] using h.1 hf e
  · intro a m₃ hp
    obtain ⟨hopen, rfl⟩ := performs_flushSession.mp hp
    simpa [nullauthOpen, flushed, Prog.wp] using h.2 hopen

/-- The commands of a null-auth session are the closure's and those of the session itself. -/
theorem only_nullauth {X : Cmd → Prop} (hstart : X (.tpm ctx (.startAuthSession .hmac)))
    (hattr : ∀ s, X (.tpm ctx (.trSessSetAttributes s false)))
    (hflush : ∀ s, X (.tpm ctx (.flushContext (.session s))))
    (hbody : ∀ ctx', (f ctx').run.Only X) : (ctx.executeWithNullauthSession f).run.Only X := by
  unfold Context.executeWithNullauthSession
  refine Prog.Only.run_bind ⟨hstart, fun _ => trivial⟩ ?_
  intro s
  cases s with
  | none => trivial
  | some s =>
    refine Prog.Only.run_bind ⟨hattr s, fun _ => trivial⟩ fun _ => ?_
    refine Prog.Only.run_bind ?_ fun res => ?_
    · exact Prog.Only.bind (hbody _) fun _ => trivial
    · exact Prog.Only.run_bind ⟨hflush s, fun _ => trivial⟩ fun _ => trivial

/-- What a null-auth session returns, when it returns, is what its closure returned; the session
itself is gone. -/
theorem wp_nullauth_ok {Q : α → Machine → Prop}
    (hdrop : ∀ a m₂ id, Q a m₂ → Q a { m₂ with tpm := m₂.tpm.dropSession id })
    (hbody : Prog.wpOk (nodeDevice P faults) (f (ctx.withSession m)) Q (m.inSession ctx)) :
    Prog.wpOk (nodeDevice P faults) (ctx.executeWithNullauthSession f) Q m := by
  refine wp_nullauth (by simp) (by simp) (by simp) (Prog.wp_mono ?_ hbody)
  intro tr r m₂ h
  exact ⟨by simp, fun _ a ha => hdrop a m₂ _ (h a ha)⟩

/-- A closure that leaves the sessions alone leaves its session open, and so closable. -/
theorem not_fails_closing {m₂ : Machine}
    (hflush : faults (.flushContext (.session ⟨m.tpm.next, .hmac⟩)) = false)
    (hsessions : m₂.tpm.sessions = (m.inSession ctx).tpm.sessions) :
    ¬ Fails faults m₂ ctx (.flushContext (.session ⟨m.tpm.next, .hmac⟩)) := by
  have hopen : (m₂.openSession ctx ⟨m.tpm.next, .hmac⟩).isSome = true := by
    unfold Machine.openSession
    rw [hsessions]
    exact Option.isSome_of_eq_some (openSession_inSession m ctx ctx rfl)
  intro hf
  simp only [Fails, hflush, refuses, Bool.false_eq_true, false_or, Option.isNone_iff_eq_none] at hf
  rw [hf] at hopen
  cases hopen

/-- Where nothing fails on its own, a session around a closure that leaves the sessions alone opens
and closes, and the closure's result stands. -/
theorem wp_nullauth_noFault {Q : Except ε α → Machine → Prop}
    (hbody : (f (ctx.withSession m)).run.wp (nodeDevice P noFault)
      (fun _ r m₂ => m₂.tpm.sessions = (m.inSession ctx).tpm.sessions ∧
        Q r { m₂ with tpm := m₂.tpm.dropSession m.tpm.next }) (m.inSession ctx)) :
    (ctx.executeWithNullauthSession f).run.wp (nodeDevice P noFault) (fun _ r m' => Q r m') m := by
  refine wp_nullauth (by simp [noFault]) (by simp [noFault]) (by simp [noFault])
    (Prog.wp_mono ?_ hbody)
  intro tr r m₂ h
  exact ⟨fun hf => absurd hf (not_fails_closing rfl h.1), fun _ => h.2⟩

end Nullauth

/-! ## Contexts

A session does not change what a handle stands for, and a new context only takes a number. -/

theorem storageParent_inSession (m : Machine) (ctx : Context) (h : Handle) :
    (m.inSession ctx).storageParent (ctx.withSession m) h = m.storageParent ctx h := by
  cases h <;> rfl

/-- `Context::new` only takes a number. -/
theorem wp_contextNew {ε : Type} [FromTss ε]
    {Q : List (Event Cmd Cmd.Res) → Except ε Context → Machine → Prop}
    (herr : ∀ e, Q [⟨.openContext, .error e⟩] (.error (FromTss.fromTss e)) m)
    (hok : Q [⟨.openContext, .ok { id := m.tpm.next }⟩] (.ok { id := m.tpm.next })
      { m with tpm := m.tpm.takeId }) :
    (Context.new (ε := ε)).run.wp (nodeDevice P faults) Q m := by
  intro e r m' hd
  cases e with
  | fail err =>
    simp only [nodeDevice, Option.some.injEq, Prod.mk.injEq] at hd
    obtain ⟨rfl, rfl⟩ := hd
    exact herr err
  | ok rnd =>
    simp only [nodeDevice, Option.some.injEq, Prod.mk.injEq] at hd
    obtain ⟨rfl, rfl⟩ := hd
    exact hok
  | _ => cases hd

theorem wpOk_contextNew {ε : Type} [FromTss ε] {Q : Context → Machine → Prop}
    (h : Q { id := m.tpm.next } { m with tpm := m.tpm.takeId }) :
    Prog.wpOk (nodeDevice P faults) (Context.new (ε := ε)) Q m :=
  wp_contextNew (by simp) fun _ hc => Except.ok.inj hc ▸ h

end Sceau
