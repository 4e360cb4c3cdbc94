import Sceau.Lib.Linear
import Sceau.Serve.Concurrent

/-!
# What a sealer sees

Two requests at once, one on each sealer, share a TPM: their commands come in between each other, and
their sessions and objects are numbered from one counter. Neither can tell. What a sealer's commands
see of the TPM is its own sessions and objects, its primary key, and the objects created under that
key. On two machines that agree on these, sealing and unsealing give the same answers to the same
choices of the TPM, whatever is done to the rest of the first machine in between.
-/

set_option autoImplicit false

namespace Sceau

open Lib

variable {P : Platform} {faults : TpmCmd → Bool} {m m' m'' u u' : Machine}

/-! ## Alike

`Untouched` is what the other sealer does to the machine while this one works, seen from this one;
`Alike` relates two machines on which this one gets the same answers. The first is closed under steps
of the others and the second is kept by them. -/

/-- As far as a context and the objects under a key are concerned, nothing has happened. -/
structure Untouched (n : Nat) (key : Public) (m m' : Machine) : Prop where
  slot : m'.tpm.slot = m.tpm.slot
  objects : ∀ o : LoadedObject, o.ctx = n → (o ∈ m'.tpm.objects ↔ o ∈ m.tpm.objects)
  sessions : ∀ e : OpenSession, e.ctx = n → (e ∈ m'.tpm.sessions ↔ e ∈ m.tpm.sessions)
  found : ∀ pub priv, m'.ledger.findObject key pub priv = m.ledger.findObject key pub priv
  next : m.tpm.next ≤ m'.tpm.next

theorem Untouched.refl (n : Nat) (key : Public) (m : Machine) : Untouched n key m m :=
  ⟨rfl, fun _ _ => Iff.rfl, fun _ _ => Iff.rfl, fun _ _ => rfl, Nat.le_refl _⟩

theorem Untouched.trans {n : Nat} {key : Public} (h : Untouched n key m m')
    (h' : Untouched n key m' m'') : Untouched n key m m'' :=
  ⟨h'.slot.trans h.slot, fun o ho => (h'.objects o ho).trans (h.objects o ho),
    fun e he => (h'.sessions e he).trans (h.sessions e he),
    fun pub priv => (h'.found pub priv).trans (h.found pub priv), Nat.le_trans h.next h'.next⟩

namespace TpmSealer

variable {s : TpmSealer} {key : Public}

/-- The others leave the sealer's context and key alone. -/
def Rely (s : TpmSealer) (m m' : Machine) : Prop :=
  ∀ key, s.primary.Names key → Untouched s.context.id key m m'

/-- Two machines on which the sealer's primary stands for the same key, with the same objects under
it. -/
structure Alike (s : TpmSealer) (m u : Machine) : Prop where
  parent : u.storageParent s.context s.primary = m.storageParent s.context s.primary
  found : ∀ key, s.primary.Names key → ∀ pub priv,
    u.ledger.findObject key pub priv = m.ledger.findObject key pub priv
  given : ∀ id obj, s.primary = .transient id obj → id < m.tpm.next ∧ id < u.tpm.next

/-- What the primary stands for is decided by the slot and the context's objects. -/
theorem storageParent_congr {ctx : Context} {h : Handle} (hslot : m'.tpm.slot = m.tpm.slot)
    (hobj : ∀ id obj, h = .transient id obj →
      (⟨ctx.id, id, obj⟩ ∈ m'.tpm.objects ↔ ⟨ctx.id, id, obj⟩ ∈ m.tpm.objects)) :
    m'.storageParent ctx h = m.storageParent ctx h := by
  have hres : m'.resolve ctx h = m.resolve ctx h := by
    cases h with
    | transient id obj => simp only [Machine.resolve, hobj id obj rfl]
    | persistent pub => simp only [Machine.resolve, hslot]
    | session e => rfl
  unfold Machine.storageParent
  rw [hres]

theorem Alike.left (h : s.Alike m u) (hr : s.Rely m m') (hn : ∃ key, s.primary.Names key) :
    s.Alike m' u := by
  obtain ⟨key, hkey⟩ := hn
  have ht := hr key hkey
  refine ⟨?_, fun key hkey pub priv => ?_, fun id obj hp => ?_⟩
  · rw [h.parent, storageParent_congr ht.slot fun id obj _ => ht.objects _ rfl]
  · rw [h.found key hkey, (hr key hkey).found]
  · exact ⟨Nat.lt_of_lt_of_le (h.given id obj hp).1 ht.next, (h.given id obj hp).2⟩

theorem Alike.right (h : s.Alike m u) (hr : s.Rely u u') (hn : ∃ key, s.primary.Names key) :
    s.Alike m u' := by
  obtain ⟨key, hkey⟩ := hn
  have ht := hr key hkey
  refine ⟨?_, fun key hkey pub priv => ?_, fun id obj hp => ?_⟩
  · rw [← h.parent, storageParent_congr ht.slot fun id obj _ => ht.objects _ rfl]
  · rw [← h.found key hkey, (hr key hkey).found]
  · exact ⟨(h.given id obj hp).1, Nat.lt_of_lt_of_le (h.given id obj hp).2 ht.next⟩

/-- Sessions are no part of it. -/
theorem Alike.sessions (h : s.Alike m u) (hslot : m'.tpm.slot = m.tpm.slot)
    (hobj : m'.tpm.objects = m.tpm.objects) (hledger : m'.ledger = m.ledger)
    (hnext : m.tpm.next ≤ m'.tpm.next) (hslot' : u'.tpm.slot = u.tpm.slot)
    (hobj' : u'.tpm.objects = u.tpm.objects) (hledger' : u'.ledger = u.ledger)
    (hnext' : u.tpm.next ≤ u'.tpm.next) : s.Alike m' u' := by
  refine ⟨?_, fun key hkey pub priv => ?_, fun id obj hp => ?_⟩
  · rw [storageParent_congr hslot' fun _ _ _ => by rw [hobj'],
      storageParent_congr hslot fun _ _ _ => by rw [hobj], h.parent]
  · rw [hledger, hledger', h.found key hkey]
  · exact ⟨Nat.lt_of_lt_of_le (h.given id obj hp).1 hnext,
      Nat.lt_of_lt_of_le (h.given id obj hp).2 hnext'⟩

/-- An object loaded on either side is not the primary. -/
theorem Alike.addObject (h : s.Alike m u) (n : Nat) (obj : Obj) :
    s.Alike { m with tpm := m.tpm.addObject n obj } { u with tpm := u.tpm.addObject n obj } := by
  have hparent : ∀ v : Machine, (∀ id obj, s.primary = .transient id obj → id < v.tpm.next) →
      Machine.storageParent { v with tpm := v.tpm.addObject n obj } s.context s.primary =
        v.storageParent s.context s.primary := by
    intro v hv
    refine storageParent_congr rfl fun id obj' hp => ?_
    have hlt := hv id obj' hp
    refine ⟨fun hmem => ?_, List.mem_cons_of_mem _⟩
    rcases List.mem_cons.mp hmem with heq | hmem
    · have : id = v.tpm.next := congrArg LoadedObject.id heq
      omega
    · exact hmem
  refine ⟨?_, h.found, fun id obj hp => ?_⟩
  · rw [hparent m fun id obj hp => (h.given id obj hp).1,
      hparent u fun id obj hp => (h.given id obj hp).2, h.parent]
  · exact ⟨Nat.lt_succ_of_lt (h.given id obj hp).1, Nat.lt_succ_of_lt (h.given id obj hp).2⟩

/-- Flushing something else on either side. -/
theorem Alike.dropObject (h : s.Alike m u) {x x' : Nat}
    (hx : ∀ id obj, s.primary = .transient id obj → id ≠ x ∧ id ≠ x') :
    s.Alike { m with tpm := m.tpm.dropObject x } { u with tpm := u.tpm.dropObject x' } := by
  have hparent : ∀ (v : Machine) (y : Nat), (∀ id obj, s.primary = .transient id obj → id ≠ y) →
      Machine.storageParent { v with tpm := v.tpm.dropObject y } s.context s.primary =
        v.storageParent s.context s.primary := by
    intro v y hy
    refine storageParent_congr rfl fun id obj hp => ?_
    show _ ∈ v.tpm.objects.filter _ ↔ _
    rw [List.mem_filter]
    simp [hy id obj hp]
  refine ⟨?_, h.found, h.given⟩
  rw [hparent m x fun id obj hp => (hx id obj hp).1, hparent u x' fun id obj hp => (hx id obj hp).2,
    h.parent]

/-- The same object created on either side. -/
theorem Alike.create (h : s.Alike m u) (o : CreatedObject) :
    s.Alike { m with ledger := { m.ledger with objects := o :: m.ledger.objects } }
      { u with ledger := { u.ledger with objects := o :: u.ledger.objects } } := by
  refine ⟨h.parent, fun key hkey pub priv => ?_, h.given⟩
  have hfound := h.found key hkey pub priv
  unfold Ledger.findObject at hfound ⊢
  simp only [List.find?_cons, hfound]

end TpmSealer

/-! ## The same call on both machines

The machine on the left is shared, the one on the right is not. A session has another number on each
side, so what a call is compared with is the same call with the other number, and a TPM that may fail
must not look at the number when it does. -/

/-- A command may fail or not by its kind; the numbers in it make no difference. -/
def Uniform (faults : TpmCmd → Bool) : Prop :=
  ∀ c c' : TpmCmd, c.ctorIdx = c'.ctorIdx → faults c = faults c'

section Calls

variable {ε α : Type} [FromTss ε] {rely : Machine → Machine → Prop}

/-- One command each: where the TPM refuses both or neither, both fail, or both are performed with
the same random numbers. -/
theorem tracks_tpmCall {ctx ctx' : Context} {c c' : TpmCmd}
    {Q : Except ε c.Res → Machine → Except ε c'.Res → Machine → Prop}
    (hfaults : faults c' = faults c)
    (hrefuse : ∀ m₁, rely m m₁ → refuses u ctx' c' = refuses m₁ ctx c)
    (hfail : ∀ m₁ e, rely m m₁ →
      Q (.error (FromTss.fromTss e)) m₁ (.error (FromTss.fromTss e)) u)
    (hok : ∀ m₁ rnd a m₂, rely m m₁ → refuses m₁ ctx c = false →
      perform P m₁ ctx c rnd = some (a, m₂) →
      ∃ a' u', perform P u ctx' c' rnd = some (a', u') ∧ Q (.ok a) m₂ (.ok a') u') :
    Prog.Tracks (nodeDevice P faults) (nodeDevice P faults) rely (tpmCall (ε := ε) ctx c).run
      (tpmCall (ε := ε) ctx' c').run Q m u := by
  intro m₁ hm e r m₂ hd
  have hsame := hrefuse m₁ hm
  cases e with
  | fail err =>
    simp only [nodeDevice_tpm, tpmStep] at hd
    split at hd
    · rename_i hf
      simp only [Option.some.injEq, Prod.mk.injEq] at hd
      obtain ⟨rfl, rfl⟩ := hd
      refine ⟨.error err, u, ?_, hfail m₁ err hm⟩
      simp only [nodeDevice_tpm, tpmStep, hfaults, hsame]
      rw [if_pos hf]
    · cases hd
  | ok rnd =>
    simp only [nodeDevice_tpm, tpmStep] at hd
    split at hd
    · cases hd
    · rename_i hf
      obtain ⟨⟨a, m₃⟩, hp, heq⟩ := Option.map_eq_some_iff.mp hd
      simp only [Prod.mk.injEq] at heq
      obtain ⟨rfl, rfl⟩ := heq
      have hallowed : refuses m₁ ctx c = false := by
        cases hr : refuses m₁ ctx c with
        | false => rfl
        | true => simp [hr] at hf
      obtain ⟨a', u', hp', hQ⟩ := hok m₁ rnd a m₃ hm hallowed hp
      refine ⟨.ok a', u', ?_, hQ⟩
      simp only [nodeDevice_tpm, tpmStep, hfaults, hsame]
      rw [if_neg hf, hp']
      rfl
  | _ => cases hd

end Calls

namespace TpmSealer

variable {s : TpmSealer}

/-- Two machines alike, in the middle of a null-auth session of the sealer on each. -/
structure InSession (s : TpmSealer) (a a' : AuthSession) (m u : Machine) : Prop where
  alike : s.Alike m u
  kind : a.sessionType = .hmac
  kind' : a'.sessionType = .hmac
  opened : (m.openSession s.context a).isSome = true
  opened' : (u.openSession s.context a').isSome = true

theorem openSession_isSome {ctx : Context} {a : AuthSession} :
    (m.openSession ctx a).isSome = true ↔ ∃ e ∈ m.tpm.sessions, e.ctx = ctx.id ∧ e.session = a := by
  simp [Machine.openSession, List.find?_isSome]

theorem Rely.openSession (hr : s.Rely m m') (hn : ∃ key, s.primary.Names key) {a : AuthSession}
    (h : (m.openSession s.context a).isSome = true) :
    (m'.openSession s.context a).isSome = true := by
  obtain ⟨key, hkey⟩ := hn
  obtain ⟨e, he, hctx, ha⟩ := openSession_isSome.mp h
  exact openSession_isSome.mpr ⟨e, ((hr key hkey).sessions e hctx).mpr he, hctx, ha⟩

theorem InSession.left {a a' : AuthSession} (h : s.InSession a a' m u) (hr : s.Rely m m')
    (hn : ∃ key, s.primary.Names key) : s.InSession a a' m' u :=
  ⟨h.alike.left hr hn, h.kind, h.kind', hr.openSession hn h.opened, h.opened'⟩

theorem hasAuth_of_open {a : AuthSession} (hkind : a.sessionType = .hmac)
    (h : (m.openSession s.context a).isSome = true) :
    m.hasAuth { s.context with session := some a } = true := by
  simp only [Machine.hasAuth, hkind, beq_self_eq_true, Bool.true_and]
  exact h

section Nullauth

variable {ε α : Type} [FromTss ε] {f : Context → Fallible ε α} {G : Except ε α → Prop}

/-- The commands of a null-auth session around a closure, the session numbered anew on each side. -/
theorem nullauth_tracks (hf : Uniform faults) (hn : ∃ key, s.primary.Names key)
    (halike : s.Alike m u) (hgood : ∀ e, G (.error (FromTss.fromTss e)))
    (hbody : ∀ m₁ u₁ a a', s.InSession a a' m₁ u₁ →
      Prog.Tracks (nodeDevice P faults) (nodeDevice P faults) s.Rely
        (f { s.context with session := some a }).run (f { s.context with session := some a' }).run
        (fun r m₂ r' u₂ => r' = r ∧ G r ∧ s.InSession a a' m₂ u₂) m₁ u₁) :
    Prog.Tracks (nodeDevice P faults) (nodeDevice P faults) s.Rely
      (s.context.executeWithNullauthSession f).run (s.context.executeWithNullauthSession f).run
      (fun r m' r' u' => r' = r ∧ G r ∧ s.Alike m' u') m u := by
  unfold Context.executeWithNullauthSession
  refine Prog.Tracks.run_bind (tracks_tpmCall rfl (fun _ _ => rfl) ?_ ?_)
  · intro m₁ e hr
    exact ⟨rfl, hgood e, halike.left hr hn⟩
  intro m₁ rnd a m₂ hr _ hp
  have halike₁ := halike.left hr hn
  by_cases hnone : rnd.noHandle = true
  · simp only [perform, if_pos hnone, Option.some.injEq, Prod.mk.injEq] at hp
    obtain ⟨rfl, rfl⟩ := hp
    exact ⟨none, u, by simp only [perform, if_pos hnone], rfl, hgood _, halike₁⟩
  simp only [perform, if_neg hnone, Option.some.injEq, Prod.mk.injEq] at hp
  obtain ⟨rfl, rfl⟩ := hp
  refine ⟨some ⟨u.tpm.next, .hmac⟩, u.inSession s.context, ?_, ?_⟩
  · simp only [perform, if_neg hnone]
    rfl
  have hin : s.InSession ⟨m₁.tpm.next, .hmac⟩ ⟨u.tpm.next, .hmac⟩ (m₁.inSession s.context)
      (u.inSession s.context) :=
    { alike := halike₁.sessions rfl rfl rfl (Nat.le_succ _) rfl rfl rfl (Nat.le_succ _)
      kind := rfl
      kind' := rfl
      opened := Option.isSome_of_eq_some (openSession_inSession m₁ s.context s.context rfl)
      opened' := Option.isSome_of_eq_some (openSession_inSession u s.context s.context rfl) }
  have hopen : ∀ (v : Machine) (a : AuthSession), (v.openSession s.context a).isSome = true →
      ∀ cs, refuses v s.context (.trSessSetAttributes a cs) = false := by
    intro v a ha cs
    simpa [refuses, Option.isSome_iff_ne_none] using ha
  refine Prog.Tracks.run_bind (tracks_tpmCall (hf _ _ rfl) ?_ ?_ ?_)
  · intro m₂ hr₂
    rw [hopen _ _ hin.opened', hopen _ _ (hin.left hr₂ hn).opened]
  · intro m₂ e hr₂
    exact ⟨rfl, hgood e, (hin.left hr₂ hn).alike⟩
  intro m₂ rnd₂ _ m₃ hr₂ _ hp
  simp only [perform, Option.some.injEq, Prod.mk.injEq] at hp
  obtain ⟨-, rfl⟩ := hp
  refine ⟨(), _, rfl, ?_⟩
  refine Prog.Tracks.run_bind (Prog.Tracks.run_lift
    (Prog.Tracks.mono ?_ (hbody _ _ _ _ (hin.left hr₂ hn))))
  rintro r m₄ _ u₄ ⟨rfl, hr₄, hin₄⟩
  have hflush : ∀ (v : Machine) (a : AuthSession), (v.openSession s.context a).isSome = true →
      refuses v s.context (.flushContext (.session a)) = false := by
    intro v a ha
    simpa [refuses, Option.isSome_iff_ne_none] using ha
  refine Prog.Tracks.run_bind (tracks_tpmCall (hf _ _ rfl) ?_ ?_ ?_)
  · intro m₅ hr₅
    rw [hflush _ _ hin₄.opened', hflush _ _ (hin₄.left hr₅ hn).opened]
  · intro m₅ e hr₅
    exact ⟨rfl, hgood e, (hin₄.left hr₅ hn).alike⟩
  intro m₅ rnd₅ _ m₆ hr₅ _ hp
  simp only [perform, Option.some.injEq, Prod.mk.injEq] at hp
  obtain ⟨-, rfl⟩ := hp
  refine ⟨(), _, rfl, ?_⟩
  exact ⟨rfl, hr₄, (hin₄.left hr₅ hn).alike.sessions rfl rfl rfl (Nat.le_refl _) rfl rfl rfl
    (Nat.le_refl _)⟩

end Nullauth

/-! ### Sealing and unsealing

Within the session: what is created on the left is created on the right, and what is found on one side
is found on the other. -/

theorem InSession.parent {a a' : AuthSession} (h : s.InSession a a' m u) :
    u.storageParent { s.context with session := some a' } s.primary =
      m.storageParent { s.context with session := some a } s.primary :=
  h.alike.parent

theorem InSession.hasAuth {a a' : AuthSession} (h : s.InSession a a' m u) :
    m.hasAuth { s.context with session := some a } = true ∧
      u.hasAuth { s.context with session := some a' } = true :=
  ⟨hasAuth_of_open h.kind h.opened, hasAuth_of_open h.kind' h.opened'⟩

theorem names_parent (hn : ∃ key, s.primary.Names key) {ctx : Context} {t : Public}
    (hparent : m.storageParent ctx s.primary = some t) : s.primary.Names t := by
  obtain ⟨key, hkey⟩ := hn
  exact hkey.storageParent hparent ▸ hkey

/-- The envelope of what was created can be written. -/
def Writable (P : Platform) : Except (Failure TpmError) (Private × Public) → Prop
  | .ok (priv, pub) => (envelopeEncode P.marshall Private.value pub priv).isSome = true
  | .error e => e ≠ .panic

theorem seal_tracks (hP : P.Lawful) (hf : Uniform faults) (hn : ∃ key, s.primary.Names key)
    (halike : s.Alike m u) (plaintext : Bytes) :
    Prog.Tracks (nodeDevice P faults) (nodeDevice P faults) s.Rely (s.seal P plaintext).run
      (s.seal P plaintext).run
      (fun r m' r' u' => r' = r ∧ r ≠ .error .panic ∧ s.Alike m' u') m u := by
  unfold TpmSealer.seal
  split
  · exact ⟨rfl, nofun, halike⟩
  refine Prog.Tracks.run_bind (Prog.Tracks.mono ?_
    (nullauth_tracks (G := Writable P) hf hn halike (fun e => nofun) ?_))
  · intro r m' r' u' h
    obtain ⟨rfl, hgood, halike'⟩ := h
    match r', hgood with
    | .error e, hgood => exact ⟨rfl, fun h => hgood (Except.error.inj h), halike'⟩
    | .ok (priv, pub), hgood =>
      obtain ⟨c, hc⟩ := Option.isSome_iff_exists.mp hgood
      simp only [hc]
      exact ⟨rfl, nofun, halike'⟩
  · intro m₁ u₁ a a' hin
    refine tracks_tpmCall (hf _ _ rfl) ?_ ?_ ?_
    · intro m₂ hr
      have hin₂ := hin.left hr hn
      simp only [refuses, hin₂.parent, hin₂.hasAuth.1, hin₂.hasAuth.2]
    · intro m₂ e hr
      exact ⟨rfl, nofun, hin.left hr hn⟩
    · intro m₂ rnd created m₃ hr _ hp
      have hin₂ := hin.left hr hn
      simp only [perform] at hp ⊢
      rw [hin₂.parent]
      cases hparent : m₂.storageParent { s.context with session := some a } s.primary with
      | none =>
        rw [hparent] at hp
        cases hp
      | some t =>
        rw [hparent] at hp
        have hfound := hin₂.alike.found t (names_parent hn hparent)
        dsimp only at hp ⊢
        rw [hfound]
        split at hp
        · rename_i hfits
          rw [if_pos hfits]
          simp only [Option.some.injEq, Prod.mk.injEq] at hp
          obtain ⟨rfl, rfl⟩ := hp
          refine ⟨_, _, rfl, rfl, ?_, ?_⟩
          · have htemplate : sealedPublic s.childFixed ∈ templates := by
              cases s.childFixed <;> simp [templates]
            obtain ⟨c, hc, -⟩ := @envelope_of_create P hP _
              { sealedPublic s.childFixed with unique := rnd.unique } ⟨rnd.priv⟩ htemplate rfl rfl
              hfits.1 hfits.2.1
            exact Option.isSome_of_eq_some hc
          · exact ⟨hin₂.alike.create _, hin₂.kind, hin₂.kind', hin₂.opened, hin₂.opened'⟩
        · cases hp

/-- The object that `unseal` has loaded on each side. -/
structure Loaded (s : TpmSealer) (a a' : AuthSession) (x x' : Nat) (obj : Obj) (m u : Machine) :
    Prop where
  inSession : s.InSession a a' m u
  there : ⟨s.context.id, x, obj⟩ ∈ m.tpm.objects
  there' : ⟨s.context.id, x', obj⟩ ∈ u.tpm.objects
  other : ∀ id o, s.primary = .transient id o → id ≠ x ∧ id ≠ x'

theorem Loaded.left {a a' : AuthSession} {x x' : Nat} {obj : Obj}
    (h : s.Loaded a a' x x' obj m u) (hr : s.Rely m m') (hn : ∃ key, s.primary.Names key) :
    s.Loaded a a' x x' obj m' u := by
  refine ⟨h.inSession.left hr hn, ?_, h.there', h.other⟩
  obtain ⟨key, hkey⟩ := hn
  exact ((hr key hkey).objects _ rfl).mpr h.there

theorem Loaded.resolve {a a' : AuthSession} {x x' : Nat} {obj : Obj}
    (h : s.Loaded a a' x x' obj m u) :
    m.resolve { s.context with session := some a } (.transient x obj) = some obj ∧
      u.resolve { s.context with session := some a' } (.transient x' obj) = some obj :=
  ⟨if_pos h.there, if_pos h.there'⟩

/-- `TPM2_Load` gives the same object on both sides, under two numbers. -/
theorem load_tracks {ε : Type} [FromTss ε] (hf : Uniform faults) (hn : ∃ key, s.primary.Names key)
    {a a' : AuthSession} (hin : s.InSession a a' m u) (priv : Private) (pub : Public) :
    Prog.Tracks (nodeDevice P faults) (nodeDevice P faults) s.Rely
      (tpmCall (ε := ε) { s.context with session := some a } (.load s.primary priv pub)).run
      (tpmCall (ε := ε) { s.context with session := some a' } (.load s.primary priv pub)).run
      (fun r m' r' u' =>
        (∃ e, r = .error (FromTss.fromTss e) ∧ r' = r ∧ s.InSession a a' m' u') ∨
        ∃ x x' obj, r = .ok (.transient x obj) ∧ r' = .ok (.transient x' obj) ∧
          s.Loaded a a' x x' obj m' u') m u := by
  refine tracks_tpmCall (hf _ _ rfl) ?_ ?_ ?_
  · intro m₁ hr
    have hin₁ := hin.left hr hn
    simp only [refuses, hin₁.parent, hin₁.hasAuth.1, hin₁.hasAuth.2]
    cases hparent : m₁.storageParent { s.context with session := some a } s.primary with
    | none => rfl
    | some t =>
      dsimp only
      rw [hin₁.alike.found t (names_parent hn hparent)]
  · intro m₁ e hr
    exact .inl ⟨e, rfl, rfl, hin.left hr hn⟩
  · intro m₁ rnd handle m₂ hr _ hp
    have hin₁ := hin.left hr hn
    simp only [perform] at hp ⊢
    rw [hin₁.parent]
    cases hparent : m₁.storageParent { s.context with session := some a } s.primary with
    | none =>
      rw [hparent] at hp
      cases hp
    | some t =>
      rw [hparent] at hp
      obtain ⟨o, ho, heq⟩ := Option.map_eq_some_iff.mp hp
      simp only [Prod.mk.injEq] at heq
      obtain ⟨rfl, rfl⟩ := heq
      dsimp only
      rw [hin₁.alike.found t (names_parent hn hparent), ho]
      refine ⟨_, _, rfl, .inr ⟨m₁.tpm.next, u.tpm.next, o.load, rfl, rfl, ?_⟩⟩
      refine ⟨⟨hin₁.alike.addObject _ _, hin₁.kind, hin₁.kind', hin₁.opened, hin₁.opened'⟩,
        List.mem_cons_self, List.mem_cons_self, fun id o hp => ?_⟩
      have hgiven := hin₁.alike.given id o hp
      exact ⟨Nat.ne_of_lt hgiven.1, Nat.ne_of_lt hgiven.2⟩

theorem unseal_tracks (hf : Uniform faults) (hn : ∃ key, s.primary.Names key)
    (halike : s.Alike m u) (ciphertext : Bytes) :
    Prog.Tracks (nodeDevice P faults) (nodeDevice P faults) s.Rely (s.unseal P ciphertext).run
      (s.unseal P ciphertext).run
      (fun r m' r' u' => r' = r ∧ r ≠ .error .panic ∧ s.Alike m' u') m u := by
  unfold TpmSealer.unseal
  split
  · rename_i hnone
    exact absurd hnone (envelopeDecode_ne_none _)
  · exact ⟨rfl, nofun, halike⟩
  rename_i pub priv _
  refine nullauth_tracks (G := (· ≠ .error Failure.panic)) hf hn halike (fun e => nofun) ?_
  intro m₁ u₁ a a' hin
  refine Prog.Tracks.run_bind (Prog.Tracks.mono ?_ (load_tracks hf hn hin priv pub))
  intro r m₂ r' u₂ h
  rcases h with ⟨e, rfl, rfl, hin₂⟩ | ⟨x, x', obj, rfl, rfl, hloaded⟩
  · exact ⟨rfl, nofun, hin₂⟩
  refine Prog.Tracks.run_bind (tracks_tpmCall (hf _ _ rfl) ?_ ?_ ?_)
  · intro m₃ hr
    have h := hloaded.left hr hn
    simp only [refuses, h.resolve.1, h.resolve.2, h.inSession.hasAuth.1, h.inSession.hasAuth.2]
  · intro m₃ e hr
    exact ⟨rfl, nofun, (hloaded.left hr hn).inSession⟩
  intro m₃ rnd data m₄ hr _ hp
  have h := hloaded.left hr hn
  cases obj with
  | sealedData pub' d =>
    simp only [perform, h.resolve.1, h.resolve.2, Option.some.injEq, Prod.mk.injEq] at hp ⊢
    obtain ⟨rfl, rfl⟩ := hp
    refine ⟨_, _, ⟨rfl, rfl⟩, ?_⟩
    refine Prog.Tracks.run_bind (tracks_tpmCall (hf _ _ rfl) ?_ ?_ ?_)
    · intro m₅ hr₅
      have h₅ := h.left hr₅ hn
      simp only [refuses, h₅.there, h₅.there', decide_true]
    · intro m₅ e hr₅
      exact ⟨rfl, nofun, (h.left hr₅ hn).inSession⟩
    · intro m₅ rnd₅ _ m₆ hr₅ _ hp
      have h₅ := h.left hr₅ hn
      simp only [perform, Option.some.injEq, Prod.mk.injEq] at hp ⊢
      obtain ⟨-, rfl⟩ := hp
      refine ⟨(), _, ⟨trivial, rfl⟩, rfl, nofun, ?_⟩
      have hin₅ := h₅.inSession
      exact ⟨hin₅.alike.dropObject h₅.other, hin₅.kind, hin₅.kind', hin₅.opened, hin₅.opened'⟩
  | _ =>
    simp only [perform, h.resolve.1] at hp
    cases hp

end TpmSealer

end Sceau
