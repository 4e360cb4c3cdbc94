import Sceau.Fleet.Cleanup
import Sceau.Fleet.Commands
import Sceau.Lib.Mirror

/-!
# What earlier calls leave behind does not matter to `duplicate_for_joiner`

A call that fails may leave sessions and external objects in the TPM, uses up handle numbers, and may
have wrapped the fleet key for nothing. `Littered` says that this is all the difference between two
machines, as far as the next call is concerned: calls only ever litter, and a call that succeeds on
the littered machine succeeds on the clean one, under the same choices of the TPM and with the same
answer. The numbers of the handles differ between the two, so the two runs are compared command by
command with `Mirrors`.
-/

set_option autoImplicit false

namespace Sceau

open Lib

/-! ## Litter

What the commands of `duplicate_for_joiner` can leave in the TPM. None of them touches the slot, none
loads a key, and a flush takes away what was loaded; so the key behind the fleet handle is at most
lost, and what has been wrapped stays wrapped. Being littered is a preorder, which is why any number
of calls, failed at any command, are no more than one. -/

/-- The clean machine `m` has the fleet key wherever the littered one, `m'`, has it, and has wrapped
nothing the other has not. -/
structure Littered (ctx : Context) (h : Handle) (m m' : Machine) : Prop where
  key : ∀ key, m'.resolve ctx h = some (.key key) → m.resolve ctx h = some (.key key)
  dups : ∀ d ∈ m.ledger.dups, d ∈ m'.ledger.dups

/-- The commands of `duplicate_for_joiner`. -/
def TpmCmd.wraps : TpmCmd → Bool
  | .startAuthSession _ => true
  | .trSessSetAttributes _ _ => true
  | .policyCommandCode _ _ => true
  | .flushContext _ => true
  | .readPublic _ => true
  | .loadExternalPublic _ => true
  | .duplicate _ _ _ => true
  | _ => false

def Cmd.wraps : Cmd → Prop
  | .tpm _ c => c.wraps = true
  | _ => False

section Litter

variable {P : Platform} {faults : TpmCmd → Bool} {ctx : Context} {h : Handle} {m m₁ m₂ : Machine}

theorem Littered.refl (ctx : Context) (h : Handle) (m : Machine) : Littered ctx h m m :=
  ⟨fun _ hk => hk, fun _ hd => hd⟩

theorem Littered.trans (h₁ : Littered ctx h m m₁) (h₂ : Littered ctx h m₁ m₂) :
    Littered ctx h m m₂ :=
  ⟨fun key hk => h₁.key key (h₂.key key hk), fun d hd => h₂.dups d (h₁.dups d hd)⟩

/-- Of the machine, a handle looks at the slot and at the objects. -/
theorem resolve_eq_key_iff {key : Public} :
    m.resolve ctx h = some (.key key) ↔
      (∃ id, h = .transient id (.key key) ∧ ⟨ctx.id, id, .key key⟩ ∈ m.tpm.objects) ∨
        (h = .persistent key ∧ m.tpm.slot = some key) := by
  cases h with
  | transient id obj =>
    simp only [Machine.resolve]
    constructor
    · intro hr
      split at hr
      · rename_i hmem
        cases Option.some.inj hr
        exact .inl ⟨id, rfl, hmem⟩
      · cases hr
    · rintro (⟨id', heq, hmem⟩ | ⟨heq, -⟩)
      · cases heq
        exact if_pos hmem
      · cases heq
  | persistent pub =>
    simp only [Machine.resolve]
    constructor
    · intro hr
      split at hr
      · rename_i hslot
        cases Option.some.inj hr
        exact .inr ⟨rfl, hslot⟩
      · cases hr
    · rintro (⟨id', heq, -⟩ | ⟨heq, hslot⟩)
      · cases heq
      · cases heq
        exact if_pos hslot
  | session s => simp [Machine.resolve]

/-- A key stays behind its handle as long as the slot and its own object stay. -/
theorem resolve_key_mono {key : Public} (hslot : m₁.tpm.slot = m.tpm.slot)
    (hobj : ∀ id, h = .transient id (.key key) → ⟨ctx.id, id, .key key⟩ ∈ m.tpm.objects →
      ⟨ctx.id, id, .key key⟩ ∈ m₁.tpm.objects)
    (hk : m.resolve ctx h = some (.key key)) : m₁.resolve ctx h = some (.key key) := by
  apply resolve_eq_key_iff.mpr
  rcases resolve_eq_key_iff.mp hk with ⟨id, hid, hmem⟩ | ⟨hper, hs⟩
  · exact .inl ⟨id, hid, hobj id hid hmem⟩
  · exact .inr ⟨hper, hslot ▸ hs⟩

/-- It is litter if the only new objects are external ones, which no handle of a key stands for. -/
theorem Littered.of_objects (hslot : m₁.tpm.slot = m.tpm.slot)
    (hobj : ∀ o ∈ m₁.tpm.objects, o ∈ m.tpm.objects ∨ ∃ pub, o.obj = .external pub)
    (hdups : ∀ d ∈ m.ledger.dups, d ∈ m₁.ledger.dups) : Littered ctx h m m₁ := by
  refine ⟨fun key => resolve_key_mono hslot.symm fun id _ hmem => ?_, hdups⟩
  rcases hobj _ hmem with hmem | ⟨pub, hext⟩
  · exact hmem
  · cases hext

/-- The commands of `duplicate_for_joiner` only litter. -/
theorem tpmStep_wraps {ctx' : Context} {c : TpmCmd} {e : Choice} {r : Except TssError c.Res}
    (hc : c.wraps = true) (hstep : tpmStep P faults ctx' c m e = some (r, m₁)) :
    Littered ctx h m m₁ := by
  have hframe := tpmStep_frame hstep
  rcases tpmStep_cases hstep with ⟨-, -, -, rfl⟩ | ⟨a, hp, -⟩
  · exact .refl ctx h _
  have hslot : m₁.tpm.slot = m.tpm.slot := by
    refine hframe.slot ?_
    cases c with
    | evictControl object persistent => cases hc
    | _ => rfl
  have hquiet (ho : c.movesObjects = false) (hl : c.movesLedger = false) : Littered ctx h m m₁ :=
    .of_objects hslot (fun o hmem => .inl (hframe.objects ho ▸ hmem))
      fun _ hd => hframe.ledger hl ▸ hd
  cases c with
  | loadExternalPublic pub =>
    obtain ⟨-, rfl⟩ := performs_loadExternalPublic.mp hp
    refine .of_objects hslot ?_ fun _ hd => hd
    intro o ho
    rcases List.mem_cons.mp ho with rfl | ho
    · exact .inr ⟨pub, rfl⟩
    · exact .inl ho
  | flushContext target =>
    cases target with
    | transient id obj =>
      obtain ⟨-, rfl⟩ := performs_flushTransient.mp hp
      exact .of_objects hslot (fun o ho => .inl (List.mem_of_mem_filter ho)) fun _ hd => hd
    | persistent pub =>
      obtain ⟨rnd, hr, -, -⟩ := hp
      cases hr
    | session s =>
      obtain ⟨-, rfl⟩ := performs_flushSession.mp hp
      exact .of_objects hslot (fun o ho => .inl ho) fun _ hd => hd
  | duplicate object newParent alg =>
    obtain ⟨pub, target, -, -, -, rfl⟩ := performs_duplicate hp
    exact .of_objects hslot (fun o ho => .inl ho) fun _ hd => List.mem_cons_of_mem _ hd
  | startAuthSession ty => exact hquiet rfl rfl
  | trSessSetAttributes s cs => exact hquiet rfl rfl
  | policyCommandCode s code => exact hquiet rfl rfl
  | readPublic target => exact hquiet rfl rfl
  | _ => cases hc

theorem nodeDevice_wraps {c : Cmd} {e : Choice} {r : c.Res} (hc : c.wraps)
    (hd : nodeDevice P faults c m e = some (r, m₁)) : Littered ctx h m m₁ := by
  cases c with
  | tpm ctx' c => exact tpmStep_wraps hc hd
  | _ => exact hc.elim

/-- A program that issues nothing else litters. -/
theorem littered_of_only (ctx : Context) (h : Handle) {α : Type} {p : Code α}
    (hp : p.Only Cmd.wraps) :
    p.Moves (nodeDevice P faults) (Littered ctx h) := by
  refine Prog.Only.moves _ (.refl ctx h) (fun _ _ _ => .trans) ?_ hp
  intro c m e r m₁ hc hd
  exact nodeDevice_wraps hc hd

end Litter

namespace Fleet

variable {P : Platform} {faults : TpmCmd → Bool} {m : Machine} (context : Context)

/-! The code, part by part, issues no other commands than these. -/

theorem readPublic_wraps (h : Handle) :
    (context.executeWithNullauthSession fun ctx =>
      (ctx.readPublic h : Fallible FleetError Public)).run.Only Cmd.wraps :=
  only_nullauth rfl (fun _ => rfl) (fun _ => rfl) fun _ => only_tpmCall rfl

theorem duplicationAuthPolicySession_wraps :
    (duplicationAuthPolicySession context).run.Only Cmd.wraps := by
  unfold duplicationAuthPolicySession startSession
  refine Prog.Only.run_bind (Prog.Only.run_bind (only_tpmCall rfl) fun s => ?_) fun session => ?_
  · cases s with
    | none => trivial
    | some s => exact Prog.Only.run_bind (only_tpmCall rfl) fun _ => trivial
  · refine Prog.Only.run_bind (policySessionTryFrom_only session) fun policy => ?_
    exact Prog.Only.run_bind (only_tpmCall rfl) fun _ => trivial

theorem duplicateForJoiner_wraps (fleetKeyHandle : Handle) (joinerTransportPublic : Public) :
    (duplicateForJoiner context fleetKeyHandle joinerTransportPublic).run.Only Cmd.wraps := by
  unfold duplicateForJoiner
  refine Prog.Only.run_bind (readPublic_wraps context fleetKeyHandle) fun pub => ?_
  refine Prog.Only.run_bind (only_tpmCall rfl) fun external => ?_
  refine Prog.Only.run_bind (duplicationAuthPolicySession_wraps context) fun session => ?_
  refine Prog.Only.run_bind (Prog.Only.bind (only_tpmCall rfl) fun _ => trivial) fun result => ?_
  refine Prog.Only.run_bind (only_tpmCall rfl) fun _ => ?_
  refine Prog.Only.run_bind (Prog.Only.bind (only_tpmCall rfl) fun _ => trivial) fun _ => ?_
  exact Prog.Only.run_bind trivial fun _ => trivial

/-- Whoever gets a duplicate gets it of a key the TPM had from the start. -/
theorem duplicateForJoiner_key (fleetKeyHandle : Handle) (joinerTransportPublic : Public) :
    Prog.wpOk (nodeDevice P faults) (duplicateForJoiner context fleetKeyHandle joinerTransportPublic)
      (fun _ _ => ∃ key, m.resolve context fleetKeyHandle = some (.key key)) m := by
  unfold duplicateForJoiner
  have hlitter := @littered_of_only P faults context fleetKeyHandle
  refine Prog.wpOk_bind (Prog.wp_mono ?_ (hlitter (readPublic_wraps context fleetKeyHandle) m))
  intro _ _ m₁ h₁ _ _
  refine Prog.wpOk_bind (Prog.wp_mono ?_
    (hlitter (only_tpmCall (c := .loadExternalPublic joinerTransportPublic) rfl) m₁))
  intro _ _ m₂ h₂ external _
  refine Prog.wpOk_bind (Prog.wp_mono ?_ (hlitter (duplicationAuthPolicySession_wraps context) m₂))
  intro _ _ m₃ h₃ policySession _
  refine Prog.wpOk_bind (Prog.wp_run_lift.mpr (wp_tpmCall.mpr ⟨fun _ e => ?_, fun _ m₄ hdup => ?_⟩))
  · -- the error of `TPM2_Duplicate` is what the call ends with, after the flushes
    rintro _ heq
    cases heq
    refine Prog.wpOk_bind (Prog.wp_always _ fun _ _ _ _ _ => ?_)
    refine Prog.wpOk_bind (Prog.wp_always _ fun _ _ _ _ _ => ?_)
    intro blob hblob
    cases hblob
  · obtain ⟨key, -, hkey, -⟩ := performs_duplicate hdup
    intro _ _
    exact Prog.wp_always _ fun _ _ _ _ _ => ⟨key, ((h₁.trans h₂).trans h₃).key key hkey⟩

end Fleet

/-! ## The same call on the clean and on the littered machine

Two runs of one function, the left one on the littered machine and the right one on the clean one.
They are not equal: the sessions and the external object get other numbers, and every later command
names them by those. So the relation between the runs carries, beside `Keyed`, which handle on the
left is which on the right, and each lemma below is about one stretch of the code between two
commands that give out a number. The choices of the TPM on the right are those on the left. -/

/-- Both machines have the key behind the handle, and the second has wrapped no more than the
first. -/
structure Keyed (ctx : Context) (h : Handle) (key : Public) (m m' : Machine) : Prop where
  left : m.resolve ctx h = some (.key key)
  right : m'.resolve ctx h = some (.key key)
  dups : ∀ d ∈ m'.ledger.dups, d ∈ m.ledger.dups

section Mirror

variable {P : Platform} {ctx : Context} {h : Handle} {key : Public} {m m' m₁ m₁' : Machine}

theorem Keyed.littered (hk : Keyed ctx h key m m') : Littered ctx h m' m := by
  refine ⟨fun k hl => ?_, hk.dups⟩
  rw [hk.left] at hl
  exact hl ▸ hk.right

/-- More objects and other sessions make no difference. -/
theorem Keyed.grow (hk : Keyed ctx h key m m') (hslot : m₁.tpm.slot = m.tpm.slot)
    (hslot' : m₁'.tpm.slot = m'.tpm.slot) (hobj : ∀ o ∈ m.tpm.objects, o ∈ m₁.tpm.objects)
    (hobj' : ∀ o ∈ m'.tpm.objects, o ∈ m₁'.tpm.objects) (hdups : m₁.ledger = m.ledger)
    (hdups' : m₁'.ledger = m'.ledger) : Keyed ctx h key m₁ m₁' := by
  refine ⟨resolve_key_mono hslot (fun _ _ => hobj _) hk.left,
    resolve_key_mono hslot' (fun _ _ => hobj' _) hk.right, ?_⟩
  rw [hdups, hdups']
  exact hk.dups

/-- Both wrap the same. -/
theorem Keyed.wrap (hk : Keyed ctx h key m m') (d : Duplicated) :
    Keyed ctx h key { m with ledger := { m.ledger with dups := d :: m.ledger.dups } }
      { m' with ledger := { m'.ledger with dups := d :: m'.ledger.dups } } := by
  refine ⟨hk.left, hk.right, fun d' hd' => ?_⟩
  rcases List.mem_cons.mp hd' with rfl | hd'
  · exact List.mem_cons_self
  · exact List.mem_cons_of_mem _ (hk.dups d' hd')

/-- The number of a key that is loaded is not the next one, on either side. -/
theorem Keyed.ne_next (hk : Keyed ctx h key m m') {id : Nat} {obj : Obj}
    (hh : h = .transient id obj) : id ≠ m.tpm.next ∧ id ≠ m'.tpm.next := by
  have hlt : ∀ {m : Machine}, m.resolve ctx h = some (.key key) → id < m.tpm.next := by
    intro m hres
    rcases resolve_eq_key_iff.mp hres with ⟨id', heq, hmem⟩ | ⟨heq, -⟩
    · rw [hh] at heq
      cases heq
      exact m.tpm.objects_lt _ hmem
    · rw [hh] at heq
      cases heq
  exact ⟨Nat.ne_of_lt (hlt hk.left), Nat.ne_of_lt (hlt hk.right)⟩

/-- Sessions come and go. -/
theorem Keyed.sessions (hk : Keyed ctx h key m m') {t t' : Tpm} (hslot : t.slot = m.tpm.slot)
    (hslot' : t'.slot = m'.tpm.slot) (hobj : t.objects = m.tpm.objects)
    (hobj' : t'.objects = m'.tpm.objects) :
    Keyed ctx h key { m with tpm := t } { m' with tpm := t' } :=
  hk.grow hslot hslot' (fun _ ho => hobj ▸ ho) (fun _ ho => hobj' ▸ ho) rfl rfl

/-- Which object a handle stands for does not depend on the ambient session. -/
theorem resolve_session (s : Option AuthSession) :
    m.resolve { ctx with session := s } h = m.resolve ctx h := by
  cases h <;> rfl

/-- The session is open and carries the policy of `TPM2_Duplicate`. -/
def Machine.Permits (m : Machine) (ctx : Context) (s : AuthSession) : Prop :=
  m.ambientPolicy { ctx with session := some s } = some (.policyCommandCode .duplicate)

/-- The session `duplication_auth_policy_session` returns, as the newest of its TPM. -/
theorem permits_newest {s : OpenSession} {rest : List OpenSession}
    (hs : m.tpm.sessions = s :: rest) (hctx : s.ctx = ctx.id)
    (hty : s.session.sessionType = .policy)
    (hpolicy : s.policy = .policyCommandCode .duplicate) : m.Permits ctx s.session := by
  have hopen : m.openSession { ctx with session := some s.session } s.session = some s :=
    openSession_newest hs hctx
  simp only [Machine.Permits, Machine.ambientPolicy, hty, if_true, hopen, Option.map_some, hpolicy]

/-- A session that permits anything is open. -/
theorem Machine.Permits.open {s : AuthSession} (hs : m.Permits ctx s) :
    (m.openSession ctx s).isSome = true := by
  simp only [Machine.Permits, Machine.ambientPolicy] at hs
  split at hs
  · obtain ⟨e, he, -⟩ := Option.map_eq_some_iff.mp hs
    exact Option.isSome_of_eq_some he
  · cases hs

/-! One command on either side. That the left one is performed is given; that the right one is not
refused, and what it answers, has to be shown for each command from what `Keyed` says. -/

section Calls

variable {ε : Type} [FromTss ε]

/-- One command each: both fail, or both are performed with the same random numbers. -/
theorem mirrors_tpmCall {ctx ctx' : Context} {c c' : TpmCmd}
    {Q : Except ε c.Res → Machine → Except ε c'.Res → Machine → Prop}
    (hfail : ∀ e, Q (.error (FromTss.fromTss e)) m (.error (FromTss.fromTss e)) m')
    (hok : ∀ rnd a m₁, refuses m ctx c = false → perform P m ctx c rnd = some (a, m₁) →
      ∃ a' m₁', refuses m' ctx' c' = false ∧ perform P m' ctx' c' rnd = some (a', m₁') ∧
        Q (.ok a) m₁ (.ok a') m₁') :
    Prog.Mirrors (nodeDevice P anyFault) (nodeDevice P anyFault) (tpmCall (ε := ε) ctx c).run
      (tpmCall (ε := ε) ctx' c').run Q m m' := by
  intro e r m₁ hd
  cases e with
  | fail err =>
    simp only [nodeDevice_tpm, tpmStep, anyFault, Bool.true_or, if_true, Option.some.injEq,
      Prod.mk.injEq] at hd
    obtain ⟨rfl, rfl⟩ := hd
    exact ⟨.error err, m', by simp [tpmStep, anyFault], hfail err⟩
  | ok rnd =>
    simp only [nodeDevice_tpm, tpmStep, anyFault, Bool.not_true, Bool.and_false,
      Bool.or_false] at hd
    split at hd
    · cases hd
    · rename_i hr
      obtain ⟨⟨a, m₂⟩, hp, heq⟩ := Option.map_eq_some_iff.mp hd
      simp only [Prod.mk.injEq] at heq
      obtain ⟨rfl, rfl⟩ := heq
      obtain ⟨a', m₁', hr', hp', hQ⟩ := hok rnd a m₂ (by simpa using hr) hp
      exact ⟨.ok a', m₁', by simp [tpmStep, anyFault, hr', hp'], hQ⟩
  | _ => cases hd

/-- A session opened on either side, each under the number that is next there. -/
theorem mirrors_startAuthSession {ty : SessionType}
    {Q : Except ε (Option AuthSession) → Machine → Except ε (Option AuthSession) → Machine → Prop}
    (hfail : ∀ e, Q (.error (FromTss.fromTss e)) m (.error (FromTss.fromTss e)) m')
    (hnone : Q (.ok none) m (.ok none) m')
    (hsome : Q (.ok (some ⟨m.tpm.next, ty⟩)) { m with tpm := m.tpm.addSession ctx.id ty }
      (.ok (some ⟨m'.tpm.next, ty⟩)) { m' with tpm := m'.tpm.addSession ctx.id ty }) :
    Prog.Mirrors (nodeDevice P anyFault) (nodeDevice P anyFault)
      (ctx.startAuthSession (ε := ε) ty).run (ctx.startAuthSession (ε := ε) ty).run Q m m' := by
  refine mirrors_tpmCall hfail ?_
  intro rnd a m₁ _ hp
  by_cases hn : rnd.noHandle = true
  · simp only [perform, if_pos hn, Option.some.injEq, Prod.mk.injEq] at hp ⊢
    obtain ⟨rfl, rfl⟩ := hp
    exact ⟨none, m', rfl, ⟨rfl, rfl⟩, hnone⟩
  · simp only [perform, if_neg hn, Option.some.injEq, Prod.mk.injEq] at hp ⊢
    obtain ⟨rfl, rfl⟩ := hp
    exact ⟨_, _, rfl, ⟨rfl, rfl⟩, hsome⟩

/-- Setting attributes needs the session to be open, on the right too. -/
theorem mirrors_trSessSetAttributes {s s' : AuthSession} {cs : Bool}
    {Q : Except ε Unit → Machine → Except ε Unit → Machine → Prop}
    (hopen : (m'.openSession ctx s').isSome = true)
    (hfail : ∀ e, Q (.error (FromTss.fromTss e)) m (.error (FromTss.fromTss e)) m')
    (hok : Q (.ok ()) m (.ok ()) m') :
    Prog.Mirrors (nodeDevice P anyFault) (nodeDevice P anyFault)
      (ctx.trSessSetAttributes (ε := ε) s cs).run (ctx.trSessSetAttributes (ε := ε) s' cs).run
      Q m m' := by
  refine mirrors_tpmCall hfail ?_
  intro rnd a m₁ _ hp
  simp only [perform, Option.some.injEq, Prod.mk.injEq] at hp
  obtain ⟨-, rfl⟩ := hp
  exact ⟨(), m', by simpa [refuses, Option.isSome_iff_ne_none] using hopen, rfl, hok⟩

theorem mirrors_flushSession {s s' : AuthSession}
    {Q : Except ε Unit → Machine → Except ε Unit → Machine → Prop}
    (hopen : (m'.openSession ctx s').isSome = true)
    (hfail : ∀ e, Q (.error (FromTss.fromTss e)) m (.error (FromTss.fromTss e)) m')
    (hok : Q (.ok ()) { m with tpm := m.tpm.dropSession s.id } (.ok ())
      { m' with tpm := m'.tpm.dropSession s'.id }) :
    Prog.Mirrors (nodeDevice P anyFault) (nodeDevice P anyFault)
      (ctx.flushContext (ε := ε) (.session s)).run (ctx.flushContext (ε := ε) (.session s')).run
      Q m m' := by
  refine mirrors_tpmCall hfail ?_
  intro rnd a m₁ _ hp
  simp only [perform, Option.some.injEq, Prod.mk.injEq] at hp
  obtain ⟨-, rfl⟩ := hp
  exact ⟨(), _, by simpa [refuses, Option.isSome_iff_ne_none] using hopen, rfl, hok⟩

end Calls

/-! The stretches of `duplicate_for_joiner`, in the order of the code. -/

/-- Reading the key's public area in a session of its own. -/
theorem readPublic_mirrors (hk : Keyed ctx h key m m') :
    Prog.Mirrors (nodeDevice P anyFault) (nodeDevice P anyFault)
      (ctx.executeWithNullauthSession fun ctx =>
        (ctx.readPublic h : Fallible FleetError Public)).run
      (ctx.executeWithNullauthSession fun ctx =>
        (ctx.readPublic h : Fallible FleetError Public)).run
      (fun r m₁ r' m₁' => r' = r ∧ Keyed ctx h key m₁ m₁') m m' := by
  have hin : Keyed ctx h key { m with tpm := m.tpm.addSession ctx.id .hmac }
      { m' with tpm := m'.tpm.addSession ctx.id .hmac } := hk.sessions rfl rfl rfl rfl
  have hopen := openSession_inSession m' ctx ctx rfl
  unfold Context.executeWithNullauthSession
  refine Prog.Mirrors.run_bind (mirrors_startAuthSession (fun _ => ⟨rfl, hk⟩) ⟨rfl, hk⟩ ?_)
  refine Prog.Mirrors.run_bind (mirrors_trSessSetAttributes (Option.isSome_of_eq_some hopen)
    (fun _ => ⟨rfl, hin⟩) ?_)
  -- whatever the closure returned, its session is flushed
  have hflush : ∀ r : Except FleetError Public, Prog.Mirrors (nodeDevice P anyFault)
      (nodeDevice P anyFault)
      (ctx.flushContext (.session ⟨m.tpm.next, .hmac⟩) >>= fun _ => ExceptT.mk (.ret r) :
        Fallible FleetError Public).run
      (ctx.flushContext (.session ⟨m'.tpm.next, .hmac⟩) >>= fun _ => ExceptT.mk (.ret r) :
        Fallible FleetError Public).run
      (fun r m₁ r' m₁' => r' = r ∧ Keyed ctx h key m₁ m₁')
      { m with tpm := m.tpm.addSession ctx.id .hmac }
      { m' with tpm := m'.tpm.addSession ctx.id .hmac } := by
    intro r
    refine Prog.Mirrors.run_bind (mirrors_flushSession (Option.isSome_of_eq_some hopen)
      (fun _ => ⟨rfl, hin⟩) ?_)
    exact ⟨rfl, hin.sessions rfl rfl rfl rfl⟩
  refine Prog.Mirrors.run_bind (Prog.Mirrors.run_lift (mirrors_tpmCall (fun e => hflush _) ?_))
  intro rnd a m₁ _ hp
  simp only [perform, resolve_session, hin.left, Option.map_some, Option.some.injEq,
    Prod.mk.injEq] at hp
  obtain ⟨rfl, rfl⟩ := hp
  refine ⟨key, _, ?_, ?_, hflush _⟩
  · simp only [refuses, resolve_session, hin.right]
    rfl
  · simp only [perform, resolve_session, hin.right]
    rfl

/-- The policy digest of `TPM2_Duplicate` in a session of either side, each with its own number. -/
theorem duplicationAuthPolicySession_mirrors (hk : Keyed ctx h key m m') :
    Prog.Mirrors (nodeDevice P anyFault) (nodeDevice P anyFault)
      (Fleet.duplicationAuthPolicySession ctx).run (Fleet.duplicationAuthPolicySession ctx).run
      (fun r m₁ r' m₁' =>
        match r, r' with
        | .ok s, .ok s' => Keyed ctx h key m₁ m₁' ∧ m₁.tpm.objects = m.tpm.objects ∧
          m₁'.tpm.objects = m'.tpm.objects ∧ m₁.Permits ctx s ∧ m₁'.Permits ctx s'
        | .error e, .error e' => e' = e ∧ Keyed ctx h key m₁ m₁'
        | _, _ => False) m m' := by
  have hin : Keyed ctx h key { m with tpm := m.tpm.addSession ctx.id .policy }
      { m' with tpm := m'.tpm.addSession ctx.id .policy } := hk.sessions rfl rfl rfl rfl
  have hopen : Machine.openSession { m' with tpm := m'.tpm.addSession ctx.id .policy } ctx
      ⟨m'.tpm.next, .policy⟩ = some { ctx := ctx.id, session := ⟨m'.tpm.next, .policy⟩ } :=
    openSession_newest (s := { ctx := ctx.id, session := ⟨m'.tpm.next, .policy⟩ }) rfl rfl
  unfold Fleet.duplicationAuthPolicySession Fleet.startSession
  refine Prog.Mirrors.run_bind (Prog.Mirrors.run_bind
    (mirrors_startAuthSession (fun _ => ⟨rfl, hk⟩) ⟨rfl, hk⟩ ?_))
  refine Prog.Mirrors.run_bind (mirrors_trSessSetAttributes (Option.isSome_of_eq_some hopen)
    (fun _ => ⟨rfl, hin⟩) ?_)
  show Prog.Mirrors _ _ (Fleet.policySessionTryFrom ⟨m.tpm.next, .policy⟩ >>= _ :
    Fallible FleetError _).run (Fleet.policySessionTryFrom ⟨m'.tpm.next, .policy⟩ >>= _ :
    Fallible FleetError _).run _ _ _
  refine Prog.Mirrors.run_bind ?_
  show Prog.Mirrors _ _ (ctx.policyCommandCode ⟨m.tpm.next, .policy⟩ .duplicate >>= _ :
    Fallible FleetError _).run (ctx.policyCommandCode ⟨m'.tpm.next, .policy⟩ .duplicate >>= _ :
    Fallible FleetError _).run _ _ _
  refine Prog.Mirrors.run_bind (mirrors_tpmCall (fun _ => ⟨rfl, hin⟩) ?_)
  intro rnd a m₁ _ hp
  simp only [perform, Option.some.injEq, Prod.mk.injEq] at hp
  obtain ⟨-, rfl⟩ := hp
  refine ⟨(), _, ?_, rfl, hin.sessions rfl rfl rfl rfl, rfl, rfl, ?_, ?_⟩
  · simp [refuses, hopen]
  · exact permits_newest (s := ⟨ctx.id, ⟨m.tpm.next, .policy⟩, .policyCommandCode .duplicate⟩)
      (Tpm.setPolicy_newest .policy _) rfl rfl rfl
  · exact permits_newest (s := ⟨ctx.id, ⟨m'.tpm.next, .policy⟩, .policyCommandCode .duplicate⟩)
      (Tpm.setPolicy_newest .policy _) rfl rfl rfl

/-- Flushing an object with another number. -/
theorem Keyed.dropObject (hk : Keyed ctx h key m m') {x x' : Nat}
    (hne : ∀ id obj, h = .transient id obj → id ≠ x ∧ id ≠ x') :
    Keyed ctx h key { m with tpm := m.tpm.dropObject x }
      { m' with tpm := m'.tpm.dropObject x' } := by
  have hkept : ∀ {objs : List LoadedObject} {id : Nat} {n : Nat}, id ≠ n →
      ⟨ctx.id, id, .key key⟩ ∈ objs → ⟨ctx.id, id, .key key⟩ ∈ objs.filter (·.id ≠ n) := by
    intro objs id n hn hmem
    exact List.mem_filter.mpr ⟨hmem, by simpa using hn⟩
  exact ⟨resolve_key_mono (m := m) rfl (fun id hid => hkept (hne id _ hid).1) hk.left,
    resolve_key_mono (m := m') rfl (fun id hid => hkept (hne id _ hid).2) hk.right, hk.dups⟩

/-- The two flushes at the end, and then the same answer. -/
theorem release_mirrors {α : Type} {s s' : AuthSession} {x x' : Nat} {obj : Obj}
    {k : Fallible FleetError α} {v : Except FleetError α} (hk : Keyed ctx h key m m')
    (hs : (m'.openSession ctx s').isSome = true) (hx : ⟨ctx.id, x', obj⟩ ∈ m'.tpm.objects)
    (hne : ∀ id obj, h = .transient id obj → id ≠ x ∧ id ≠ x') (hv : k.run = .ret v) :
    Prog.Mirrors (nodeDevice P anyFault) (nodeDevice P anyFault)
      (do
        ctx.flushContext (.session s)
        let _ ← liftM (ctx.executeWithoutSession fun ctx =>
          ctx.flushContext (.transient x obj) : Fallible TssError Unit).run
        k : Fallible FleetError α).run
      (do
        ctx.flushContext (.session s')
        let _ ← liftM (ctx.executeWithoutSession fun ctx =>
          ctx.flushContext (.transient x' obj) : Fallible TssError Unit).run
        k : Fallible FleetError α).run
      (fun r m₁ r' m₁' => r' = r ∧ Keyed ctx h key m₁ m₁') m m' := by
  have hflushed : Keyed ctx h key { m with tpm := m.tpm.dropSession s.id }
      { m' with tpm := m'.tpm.dropSession s'.id } := hk.sessions rfl rfl rfl rfl
  have hend : ∀ m₁ m₁', Keyed ctx h key m₁ m₁' →
      Prog.Mirrors (nodeDevice P anyFault) (nodeDevice P anyFault) k.run k.run
        (fun r m₁ r' m₁' => r' = r ∧ Keyed ctx h key m₁ m₁') m₁ m₁' := by
    intro m₁ m₁' hk₁
    rw [hv]
    exact ⟨rfl, hk₁⟩
  refine Prog.Mirrors.run_bind (mirrors_flushSession hs (fun _ => ⟨rfl, hk⟩) ?_)
  refine Prog.Mirrors.run_bind (Prog.Mirrors.run_lift (mirrors_tpmCall
    (fun _ => hend _ _ hflushed) ?_))
  intro rnd a m₁ _ hp
  simp only [perform, Option.some.injEq, Prod.mk.injEq] at hp
  obtain ⟨-, rfl⟩ := hp
  refine ⟨(), _, ?_, rfl, hend _ _ (hflushed.dropObject hne)⟩
  simpa [refuses, Tpm.dropSession] using hx

/-- What a `TPM2_Duplicate` needs, once everything it names is there. -/
theorem refuses_duplicate {target : Handle} {o : Obj} {s : AuthSession}
    {alg : SymmetricDefinitionObject} (hkey : m.resolve ctx h = some (.key key))
    (ho : m.resolve ctx target = some o) (hs : m.Permits ctx s) :
    refuses m { ctx with session := some s } (.duplicate h target alg) =
      (key.objectAttributes.fixedTpm || key.objectAttributes.fixedParent ||
        key.authPolicy != .policyCommandCode .duplicate ||
        some (.policyCommandCode .duplicate) != some key.authPolicy) := by
  simp only [refuses, resolve_session, hkey, ho]
  rw [hs]

/-- What it answers: the random bytes, which are new to the ledger. -/
theorem perform_duplicate {target : Handle} {o : Obj} {s : Option AuthSession} {rnd : Rnd}
    {alg : SymmetricDefinitionObject} (hkey : m.resolve ctx h = some (.key key))
    (ho : m.resolve ctx target = some o)
    (hfresh : m.ledger.findDup (some ⟨rnd.data⟩) ⟨rnd.priv⟩ ⟨rnd.secret⟩ = none) :
    perform P m { ctx with session := s } (.duplicate h target alg) rnd =
      some ((⟨rnd.data⟩, ⟨rnd.priv⟩, ⟨rnd.secret⟩),
        { m with ledger := { m.ledger with
          dups := ⟨key, o.pub, ⟨rnd.data⟩, ⟨rnd.priv⟩, ⟨rnd.secret⟩⟩ :: m.ledger.dups } }) := by
  simp only [perform, resolve_session, hkey, ho, hfresh]
  rfl

/-- A blob that is new to the littered ledger is new to the clean one. -/
theorem findDup_none {l l' : Ledger} (hsub : ∀ d ∈ l'.dups, d ∈ l.dups) {ek : Option Data}
    {priv : Private} {secret : EncryptedSecret} (hnone : l.findDup ek priv secret = none) :
    l'.findDup ek priv secret = none := by
  simp only [Ledger.findDup, List.find?_eq_none] at hnone ⊢
  exact fun d hd => hnone d (hsub d hd)

/-- `TPM2_Duplicate` to the joiner's public area, in a session that permits it, and the flushes. -/
theorem wrapped_mirrors {s s' : AuthSession} {x x' : Nat} {fleetKeyPublic target : Public}
    (hk : Keyed ctx h key m m') (hext : ⟨ctx.id, x, .external target⟩ ∈ m.tpm.objects)
    (hext' : ⟨ctx.id, x', .external target⟩ ∈ m'.tpm.objects) (hs : m.Permits ctx s)
    (hs' : m'.Permits ctx s') (hne : ∀ id obj, h = .transient id obj → id ≠ x ∧ id ≠ x') :
    Prog.Mirrors (nodeDevice P anyFault) (nodeDevice P anyFault)
      (do
        let result ← liftM (ctx.executeWithSession (some s) fun ctx =>
          ctx.duplicate h (.transient x (.external target)) duplicationSymmetricAlg :
            Fallible FleetError (Data × Private × EncryptedSecret)).run
        ctx.flushContext (.session s)
        let _ ← liftM (ctx.executeWithoutSession fun ctx =>
          ctx.flushContext (.transient x (.external target)) : Fallible TssError Unit).run
        let (encryptionKey, duplicatePrivate, encryptedSecret) ← ExceptT.mk (.ret result)
        return { fleetKeyPublic, duplicatePrivate, encryptedSecret,
                 encryptionKey := some encryptionKey } : Fallible FleetError DuplicationBlob).run
      (do
        let result ← liftM (ctx.executeWithSession (some s') fun ctx =>
          ctx.duplicate h (.transient x' (.external target)) duplicationSymmetricAlg :
            Fallible FleetError (Data × Private × EncryptedSecret)).run
        ctx.flushContext (.session s')
        let _ ← liftM (ctx.executeWithoutSession fun ctx =>
          ctx.flushContext (.transient x' (.external target)) : Fallible TssError Unit).run
        let (encryptionKey, duplicatePrivate, encryptedSecret) ← ExceptT.mk (.ret result)
        return { fleetKeyPublic, duplicatePrivate, encryptedSecret,
                 encryptionKey := some encryptionKey } : Fallible FleetError DuplicationBlob).run
      (fun r m₁ r' m₁' => r' = r ∧ Keyed ctx h key m₁ m₁') m m' := by
  have hres : m.resolve ctx (.transient x (.external target)) = some (.external target) :=
    if_pos hext
  have hres' : m'.resolve ctx (.transient x' (.external target)) = some (.external target) :=
    if_pos hext'
  refine Prog.Mirrors.run_bind (Prog.Mirrors.run_lift (mirrors_tpmCall (fun e => ?_) ?_))
  · exact release_mirrors hk hs'.open hext' hne rfl
  intro rnd a m₁ hrefuse hp
  rw [refuses_duplicate hk.left hres hs] at hrefuse
  simp only [perform, resolve_session, hk.left, hres] at hp
  split at hp
  · cases hp
  rename_i hfresh
  simp only [Option.some.injEq, Prod.mk.injEq] at hp
  obtain ⟨rfl, rfl⟩ := hp
  have hfresh' := findDup_none hk.dups (by simpa using hfresh)
  refine ⟨_, _, (refuses_duplicate hk.right hres' hs').trans hrefuse,
    perform_duplicate hk.right hres' hfresh', ?_⟩
  exact release_mirrors (hk.wrap _) hs'.open hext' hne rfl

/-- **The same call on both machines**: the same answer, and one is still the other littered. -/
theorem duplicateForJoiner_mirrors (hk : Keyed ctx h key m m') (joinerTransportPublic : Public) :
    Prog.Mirrors (nodeDevice P anyFault) (nodeDevice P anyFault)
      (Fleet.duplicateForJoiner ctx h joinerTransportPublic).run
      (Fleet.duplicateForJoiner ctx h joinerTransportPublic).run
      (fun r m₁ r' m₁' => r' = r ∧ Keyed ctx h key m₁ m₁') m m' := by
  unfold Fleet.duplicateForJoiner
  refine Prog.Mirrors.run_bind ((readPublic_mirrors hk).mono ?_)
  rintro r m₁ r' m₁' ⟨rfl, hk₁⟩
  cases r' with
  | error e => exact ⟨rfl, hk₁⟩
  | ok fleetKeyPublic =>
    refine Prog.Mirrors.run_bind (mirrors_tpmCall (fun _ => ⟨rfl, hk₁⟩) ?_)
    intro rnd external m₂ _ hp
    simp only [perform, Option.some.injEq, Prod.mk.injEq] at hp
    obtain ⟨rfl, rfl⟩ := hp
    refine ⟨_, _, rfl, rfl, ?_⟩
    -- the new object's number is above that of every key
    have hne : ∀ id obj, h = .transient id obj → id ≠ m₁.tpm.next ∧ id ≠ m₁'.tpm.next :=
      fun id obj hh => hk₁.ne_next hh
    have hk₂ : Keyed ctx h key
        { m₁ with tpm := m₁.tpm.addObject ctx.id (.external joinerTransportPublic) }
        { m₁' with tpm := m₁'.tpm.addObject ctx.id (.external joinerTransportPublic) } :=
      hk₁.grow rfl rfl (fun _ ho => List.mem_cons_of_mem _ ho)
        (fun _ ho => List.mem_cons_of_mem _ ho) rfl rfl
    refine Prog.Mirrors.run_bind ((duplicationAuthPolicySession_mirrors hk₂).mono ?_)
    intro r m₃ r' m₃' hr
    cases r with
    | error e =>
      cases r' with
      | ok s' => exact hr.elim
      | error e' =>
        obtain ⟨rfl, hk₃⟩ := hr
        exact ⟨rfl, hk₃⟩
    | ok s =>
      cases r' with
      | error e' => exact hr.elim
      | ok s' =>
        obtain ⟨hk₃, hobj, hobj', hs, hs'⟩ := hr
        have hext : ⟨ctx.id, m₁.tpm.next, .external joinerTransportPublic⟩ ∈ m₃.tpm.objects := by
          rw [hobj]
          exact List.mem_cons_self
        have hext' : ⟨ctx.id, m₁'.tpm.next, .external joinerTransportPublic⟩ ∈ m₃'.tpm.objects := by
          rw [hobj']
          exact List.mem_cons_self
        exact wrapped_mirrors hk₃ hext hext' hs hs' hne

end Mirror

end Sceau
