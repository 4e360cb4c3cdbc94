import Sceau.Sealer.Objects

/-!
# What `duplicate_for_joiner` leaves behind

Wrapping the fleet key for a joiner takes three things that have to be given back: the null-auth
session `read_public` runs in, the joiner's public area as an external object, and the policy session
of `TPM2_Duplicate`. The comments of the source promise the last two back whatever `duplicate()`
returns, and so it is; but between taking them and reaching the flushes stand the question marks of
`duplication_auth_policy_session` and of the null-auth helper. `strands` names the failures that
leave through one of those, and a sequence of calls leaves the context as it was exactly when none of
them occurred.
-/

set_option autoImplicit false

namespace Sceau

open Lib

/-- The sessions open in one ESAPI context. -/
def Machine.opened (m : Machine) (ctx : Context) : List OpenSession :=
  m.tpm.sessions.filter (·.ctx = ctx.id)

/-- The same objects loaded and the same sessions open in the context. -/
def SameIn (ctx : Context) (m m' : Machine) : Prop :=
  (∀ o, o ∈ m'.loaded ctx ↔ o ∈ m.loaded ctx) ∧ ∀ s, s ∈ m'.opened ctx ↔ s ∈ m.opened ctx

/-- A failure between taking something and reaching its flush: of the attributes of a session just
started, of starting the policy session (or its coming back without a handle), and of its
`TPM2_PolicyCommandCode`. -/
def strands : Event Cmd Cmd.Res → Bool
  | ⟨.tpm _ (.trSessSetAttributes _ _), .error _⟩ => true
  | ⟨.tpm _ (.startAuthSession .policy), .error _⟩ => true
  | ⟨.tpm _ (.startAuthSession .policy), .ok none⟩ => true
  | ⟨.tpm _ (.policyCommandCode _ _), .error _⟩ => true
  | _ => false

/-! ## Counting what is left -/

/-- What has been added in the context since, and stayed. -/
structure Leftover (ctx : Context) (objs : List LoadedObject) (sess : List OpenSession)
    (m m' : Machine) : Prop where
  objects : m'.tpm.objects = objs ++ m.tpm.objects
  sessions : m'.tpm.sessions = sess ++ m.tpm.sessions
  newObjects : ∀ o ∈ objs, o.ctx = ctx.id ∧ m.tpm.next ≤ o.id
  newSessions : ∀ s ∈ sess, s.ctx = ctx.id ∧ m.tpm.next ≤ s.session.id
  next : m.tpm.next ≤ m'.tpm.next

namespace Leftover

variable {ctx : Context} {objs objs' : List LoadedObject} {sess sess' : List OpenSession}
  {m m₁ m₂ : Machine}

theorem nothing (ho : m₁.tpm.objects = m.tpm.objects) (hs : m₁.tpm.sessions = m.tpm.sessions)
    (hn : m.tpm.next ≤ m₁.tpm.next) : Leftover ctx [] [] m m₁ :=
  ⟨by simpa using ho, by simpa using hs, by simp, by simp, hn⟩

theorem trans (h₁ : Leftover ctx objs sess m m₁) (h₂ : Leftover ctx objs' sess' m₁ m₂) :
    Leftover ctx (objs' ++ objs) (sess' ++ sess) m m₂ := by
  refine ⟨?_, ?_, ?_, ?_, Nat.le_trans h₁.next h₂.next⟩
  · rw [h₂.objects, h₁.objects, List.append_assoc]
  · rw [h₂.sessions, h₁.sessions, List.append_assoc]
  · exact new_append h₁.next h₁.newObjects h₂.newObjects
  · exact new_append h₁.next h₁.newSessions h₂.newSessions

/-- The ledger is not the context's. -/
theorem ledger (h : Leftover ctx objs sess m m₁) (l : Ledger) :
    Leftover ctx objs sess m { m₁ with ledger := l } :=
  ⟨h.objects, h.sessions, h.newObjects, h.newSessions, h.next⟩

/-- What stayed is new, so the context is as it was exactly when nothing stayed. -/
theorem sameIn_iff (h : Leftover ctx objs sess m m₁) : SameIn ctx m m₁ ↔ objs = [] ∧ sess = [] := by
  rw [SameIn, Machine.loaded, Machine.loaded, h.objects, Machine.opened, Machine.opened, h.sessions,
    same_entries_iff m.tpm.objects_lt h.newObjects,
    same_entries_iff m.tpm.sessions_lt h.newSessions]

end Leftover

/-- The commands of the trace account for what is left: nothing, or something stranded. -/
def Accounts (ctx : Context) (m : Machine) (tr : List (Event Cmd Cmd.Res)) (m' : Machine) : Prop :=
  ∃ objs sess, Leftover ctx objs sess m m' ∧
    ((objs = [] ∧ sess = []) ↔ ∀ ev ∈ tr, strands ev = false)

namespace Accounts

variable {ctx : Context} {m m₁ m₂ : Machine} {tr tr' : List (Event Cmd Cmd.Res)}

theorem trans (h₁ : Accounts ctx m tr m₁) (h₂ : Accounts ctx m₁ tr' m₂) :
    Accounts ctx m (tr ++ tr') m₂ := by
  obtain ⟨objs, sess, hl₁, ht₁⟩ := h₁
  obtain ⟨objs', sess', hl₂, ht₂⟩ := h₂
  refine ⟨_, _, hl₁.trans hl₂, ?_⟩
  rw [List.append_eq_nil_iff, List.append_eq_nil_iff, List.forall_mem_append, ← ht₁, ← ht₂]
  tauto

theorem clean (hl : Leftover ctx [] [] m m₁) (ht : ∀ ev ∈ tr, strands ev = false) :
    Accounts ctx m tr m₁ :=
  ⟨[], [], hl, by simpa using ht⟩

/-- Something stayed, and the trace says why. -/
theorem stranded {objs : List LoadedObject} {sess : List OpenSession}
    (hl : Leftover ctx objs sess m m₁) (hne : objs ≠ [] ∨ sess ≠ [])
    (ht : ∃ ev ∈ tr, strands ev = true) : Accounts ctx m tr m₁ := by
  refine ⟨objs, sess, hl, ?_⟩
  obtain ⟨ev, hev, hst⟩ := ht
  constructor
  · rintro ⟨rfl, rfl⟩
    simp at hne
  · intro hall
    rw [hall ev hev] at hst
    cases hst

end Accounts

/-! ## Each call -/

section Calls

variable {P : Platform} {m : Machine} {context : Context}

/-- A session around a closure that takes nothing: what it may leave is the session itself, when its
attributes cannot be set. -/
theorem nullauth_accounts {ε α : Type} [FromTss ε] {f : Context → Fallible ε α}
    (hbody : (f (context.withSession m)).run.wp (nodeDevice P noFlushFault)
      (fun tr _ m₂ => m₂.tpm.objects = m.tpm.objects ∧
        m₂.tpm.sessions = (m.inSession context).tpm.sessions ∧ m.tpm.next ≤ m₂.tpm.next ∧
        ∀ ev ∈ tr, strands ev = false) (m.inSession context)) :
    (context.executeWithNullauthSession f).run.wp (nodeDevice P noFlushFault)
      (fun tr _ m' => Accounts context m tr m') m := by
  have hrefl : Leftover context [] [] m m := .nothing rfl rfl (Nat.le_refl _)
  refine wp_nullauth ?_ ?_ ?_ (Prog.wp_mono ?_ hbody)
  · intro _ e
    exact .clean hrefl (by simp [strands])
  · intro _
    exact .clean hrefl (by simp [strands])
  · intro _ e
    have hleft : Leftover context [] [{ ctx := context.id, session := ⟨m.tpm.next, .hmac⟩ }] m
        (m.inSession context) := ⟨rfl, rfl, by simp, by simp, Nat.le_succ _⟩
    exact .stranded hleft (.inr (by simp)) ⟨_, List.mem_cons_of_mem _ List.mem_cons_self, rfl⟩
  · rintro tr r m₂ ⟨ho, hs, hn, htr⟩
    refine ⟨fun hf => absurd hf (not_fails_closing rfl hs), fun _ => ?_⟩
    have hdrop : (m₂.tpm.dropSession m.tpm.next).sessions = m.tpm.sessions :=
      Tpm.dropSession_newest hs m.tpm.sessions_lt
    refine .clean (.nothing ho hdrop hn) ?_
    simp only [nullauthOpen, flushed, List.mem_append, List.mem_cons, List.not_mem_nil, or_false]
    rintro ev (((rfl | rfl) | hev) | rfl)
    · rfl
    · rfl
    · exact htr ev hev
    · rfl

/-- `duplication_auth_policy_session`: the one session it opens, if it returns it; what it fails in
strands whatever its caller holds. -/
theorem policySession_wp :
    (Fleet.duplicationAuthPolicySession context).run.wp (nodeDevice P noFlushFault)
      (fun tr r m' =>
        match r with
        | .ok s => s = ⟨m.tpm.next, .policy⟩ ∧
          (∃ policy, Leftover context [] [{ ctx := context.id, session := s, policy }] m m') ∧
          ∀ ev ∈ tr, strands ev = false
        | .error _ => (∃ sess, Leftover context [] sess m m') ∧ ∃ ev ∈ tr, strands ev = true) m := by
  have hrefl : Leftover context [] [] m m := .nothing rfl rfl (Nat.le_refl _)
  unfold Fleet.duplicationAuthPolicySession Fleet.startSession
  rw [Prog.wp_run_bind, Prog.wp_run_bind]
  refine wp_tpmCall.mpr ⟨?_, ?_⟩
  · intro _ e
    exact ⟨⟨[], hrefl⟩, _, List.mem_cons_self, rfl⟩
  intro s m₁ hstart
  rcases performs_startAuthSession.mp hstart with ⟨rfl, -, rfl⟩ | ⟨rfl, rfl⟩
  · exact ⟨⟨[], hrefl⟩, _, List.mem_cons_self, rfl⟩
  have hopen : Leftover context [] [{ ctx := context.id, session := ⟨m.tpm.next, .policy⟩ }] m
      { m with tpm := m.tpm.addSession context.id .policy } :=
    ⟨rfl, rfl, by simp, by simp, Nat.le_succ _⟩
  simp only
  rw [Prog.wp_run_bind]
  refine wp_tpmCall.mpr ⟨?_, ?_⟩
  · intro _ e
    exact ⟨⟨_, hopen⟩, _, List.mem_cons_of_mem _ List.mem_cons_self, rfl⟩
  intro _ m₂ hattr
  obtain ⟨-, rfl⟩ := performs_trSessSetAttributes.mp hattr
  have htry : Fleet.policySessionTryFrom ⟨m.tpm.next, .policy⟩ = pure ⟨m.tpm.next, .policy⟩ :=
    if_neg (by simp)
  show (Fleet.policySessionTryFrom ⟨m.tpm.next, .policy⟩ >>= _ : Fallible FleetError _).run.wp _ _ _
  rw [htry]
  show (context.policyCommandCode ⟨m.tpm.next, .policy⟩ .duplicate >>= _ :
    Fallible FleetError _).run.wp _ _ _
  rw [Prog.wp_run_bind]
  refine wp_tpmCall.mpr ⟨?_, ?_⟩
  · intro _ e
    exact ⟨⟨_, hopen⟩, _, List.mem_append_right _ List.mem_cons_self, rfl⟩
  intro _ m₃ hcode
  obtain ⟨-, -, rfl⟩ := performs_policyCommandCode.mp hcode
  refine ⟨rfl, ⟨.policyCommandCode .duplicate, ?_⟩, ?_⟩
  · exact ⟨rfl, Tpm.setPolicy_newest .policy _, by simp, by simp, Nat.le_succ _⟩
  · simp [strands]

/-- The two flushes: the session and the object that were taken last are there to be flushed. -/
theorem release_wp {m₀ : Machine} {α : Type} {s : OpenSession} {o : LoadedObject}
    {Q : List (Event Cmd Cmd.Res) → Except FleetError α → Machine → Prop}
    {k : Fallible FleetError α} (hm : Leftover context [o] [s] m₀ m)
    (hk : ∀ tr m', Leftover context [] [] m₀ m' → (∀ ev ∈ tr, strands ev = false) →
      k.run.wp (nodeDevice P noFlushFault) (fun tr' => Q (tr ++ tr')) m') :
    (do
      context.flushContext (.session s.session)
      let _ ← liftM (context.executeWithoutSession fun ctx =>
        ctx.flushContext (.transient o.id o.obj) : Fallible TssError Unit).run
      k : Fallible FleetError α).run.wp (nodeDevice P noFlushFault) Q m := by
  obtain ⟨hsctx, hsid⟩ := hm.newSessions s List.mem_cons_self
  obtain ⟨hoctx, hoid⟩ := hm.newObjects o List.mem_cons_self
  have hopen : m.openSession context s.session = some s := openSession_newest hm.sessions hsctx
  rw [Prog.wp_run_bind]
  refine wp_tpmCall.mpr ⟨?_, ?_⟩
  · intro hf
    simp [Fails, noFlushFault, refuses, hopen] at hf
  intro _ m₁ hflush
  obtain ⟨-, rfl⟩ := performs_flushSession.mp hflush
  have hin : (⟨context.id, o.id, o.obj⟩ : LoadedObject) ∈ m.tpm.objects := by
    rw [hm.objects, ← hoctx]
    exact List.mem_cons_self
  simp only
  rw [Prog.wp_run_bind, Prog.wp_run_lift]
  refine wp_tpmCall.mpr ⟨?_, ?_⟩
  · intro hf
    simp [Fails, noFlushFault, refuses, Tpm.dropSession, hin] at hf
  intro _ m₂ hdrop
  obtain ⟨-, rfl⟩ := performs_flushTransient.mp hdrop
  have hsess : (m.tpm.dropSession s.session.id).sessions = m₀.tpm.sessions :=
    Tpm.dropSession_newest hm.sessions fun x hx =>
      Nat.lt_of_lt_of_le (m₀.tpm.sessions_lt x hx) hsid
  have hobj : ((m.tpm.dropSession s.session.id).dropObject o.id).objects = m₀.tpm.objects :=
    Tpm.dropObject_newest hm.objects fun x hx =>
      Nat.lt_of_lt_of_le (m₀.tpm.objects_lt x hx) hoid
  simp only [← List.append_assoc]
  exact hk _ _ (.nothing hobj hsess hm.next) (by simp [strands])

/-- The call once the fleet key's public area has been read: what it takes from here on it gives
back, unless the policy session fails it. -/
theorem wrap_accounts (fleetKeyHandle : Handle) (fleetKeyPublic joinerTransportPublic : Public) :
    (do
      let external ← context.executeWithoutSession fun ctx =>
        ctx.loadExternalPublic joinerTransportPublic
      let policySession ← Fleet.duplicationAuthPolicySession context
      let result ← liftM (context.executeWithSession (some policySession) fun ctx =>
        ctx.duplicate fleetKeyHandle external duplicationSymmetricAlg :
          Fallible FleetError (Data × Private × EncryptedSecret)).run
      context.flushContext (.session policySession)
      let _ ← liftM (context.executeWithoutSession fun ctx => ctx.flushContext external :
        Fallible TssError Unit).run
      let (encryptionKey, duplicatePrivate, encryptedSecret) ← ExceptT.mk (.ret result)
      return { fleetKeyPublic, duplicatePrivate, encryptedSecret,
               encryptionKey := some encryptionKey } :
      Fallible FleetError DuplicationBlob).run.wp (nodeDevice P noFlushFault)
      (fun tr _ m' => Accounts context m tr m') m := by
  have hrefl : Leftover context [] [] m m := .nothing rfl rfl (Nat.le_refl _)
  rw [Prog.wp_run_bind]
  refine wp_tpmCall.mpr ⟨fun _ e => .clean hrefl (by simp [strands]), ?_⟩
  intro external m₁ hload
  obtain ⟨rfl, rfl⟩ := performs_loadExternalPublic.mp hload
  have hext : Leftover context [⟨context.id, m.tpm.next, .external joinerTransportPublic⟩] [] m
      { m with tpm := m.tpm.addObject context.id (.external joinerTransportPublic) } :=
    ⟨rfl, rfl, by simp, by simp, Nat.le_succ _⟩
  simp only
  rw [Prog.wp_run_bind]
  refine Prog.wp_mono ?_ policySession_wp
  intro tr r m₂ hr
  cases r with
  | error e =>
    -- the question mark: the external object is still loaded, and perhaps the session too
    obtain ⟨⟨sess, hleft⟩, ev, hev, hst⟩ := hr
    refine .stranded (hext.trans hleft) (.inl (by simp)) ⟨ev, ?_, hst⟩
    exact List.mem_append_right _ hev
  | ok s =>
    obtain ⟨rfl, ⟨policy, hleft⟩, htr⟩ := hr
    have hheld := hext.trans hleft
    simp only
    rw [Prog.wp_run_bind, Prog.wp_run_lift]
    -- whatever `duplicate()` answers, it moves neither objects nor sessions
    refine wp_tpmCall.mpr ⟨fun _ e => ?_, fun result m₃ hdup => ?_⟩
    · refine release_wp hheld ?_
      intro tr' m₄ hleft₄ htr'
      refine .clean hleft₄ ?_
      simp only [List.forall_mem_append, List.forall_mem_singleton]
      exact ⟨rfl, htr, rfl, htr', by simp⟩
    · obtain ⟨-, -, -, -, -, rfl⟩ := performs_duplicate hdup
      refine release_wp (hheld.ledger _) ?_
      intro tr' m₄ hleft₄ htr'
      refine .clean hleft₄ ?_
      simp only [List.forall_mem_append, List.forall_mem_singleton]
      exact ⟨rfl, htr, rfl, htr', by simp⟩

theorem duplicateForJoiner_accounts (fleetKeyHandle : Handle) (joinerTransportPublic : Public) :
    (Fleet.duplicateForJoiner context fleetKeyHandle joinerTransportPublic).run.wp
      (nodeDevice P noFlushFault) (fun tr _ m' => Accounts context m tr m') m := by
  have hread : (context.executeWithNullauthSession fun ctx =>
      (ctx.readPublic fleetKeyHandle : Fallible FleetError Public)).run.wp (nodeDevice P noFlushFault)
      (fun tr _ m' => Accounts context m tr m') m := by
    refine nullauth_accounts (wp_tpmCall.mpr ⟨fun _ e => ?_, fun pub m₂ hp => ?_⟩)
    · exact ⟨rfl, rfl, Nat.le_succ _, by simp [strands]⟩
    · obtain ⟨-, rfl⟩ := performs_readPublic.mp hp
      exact ⟨rfl, rfl, Nat.le_succ _, by simp [strands]⟩
  unfold Fleet.duplicateForJoiner
  rw [Prog.wp_run_bind]
  refine Prog.wp_mono ?_ hread
  intro tr r m₁ hacc
  cases r with
  | error e => exact hacc
  | ok fleetKeyPublic =>
    refine Prog.wp_mono ?_ (wrap_accounts fleetKeyHandle fleetKeyPublic joinerTransportPublic)
    intro tr' _ m₂ h₂
    exact hacc.trans h₂

end Calls

/-! ## Sequences of calls -/

/-- The calls one enroll process makes for these joiners, one after the other, whatever each of them
returns. -/
def Fleet.duplicateAll (context : Context) (fleetKeyHandle : Handle) : List Public → Code Unit
  | [] => .ret ()
  | pub :: pubs =>
    (duplicateForJoiner context fleetKeyHandle pub).run.bind fun _ =>
      duplicateAll context fleetKeyHandle pubs

theorem duplicateAll_accounts {P : Platform} {m : Machine} (context : Context)
    (fleetKeyHandle : Handle) (pubs : List Public) :
    (Fleet.duplicateAll context fleetKeyHandle pubs).wp (nodeDevice P noFlushFault)
      (fun tr _ m' => Accounts context m tr m') m := by
  induction pubs generalizing m with
  | nil => exact .clean (.nothing rfl rfl (Nat.le_refl _)) (by simp)
  | cons pub pubs ih =>
    refine Prog.wp_bind.mpr (Prog.wp_mono ?_ (duplicateForJoiner_accounts fleetKeyHandle pub))
    intro tr _ m₁ h₁
    refine Prog.wp_mono ?_ ih
    intro tr' _ m₂ h₂
    exact h₁.trans h₂

/-- **When duplication cleans up.** After any sequence of calls, of any length and for any joiners,
the context holds the objects and sessions it held before, exactly when no command failed between
taking one and reaching its flush. -/
theorem duplicates_clean_iff (P : Platform) (context : Context) (fleetKeyHandle : Handle)
    (pubs : List Public) (m m' : Machine) (es : List Choice) (tr : List (Event Cmd Cmd.Res))
    (hrun : (Fleet.duplicateAll context fleetKeyHandle pubs).exec (nodeDevice P noFlushFault) m es =
      some ((), m', tr)) :
    SameIn context m m' ↔ ∀ ev ∈ tr, strands ev = false := by
  obtain ⟨objs, sess, hleft, hiff⟩ :=
    Prog.wp_sound (duplicateAll_accounts context fleetKeyHandle pubs) hrun
  rw [hleft.sameIn_iff, hiff]

/-- A joiner's transport key. -/
def someTransportKey : Public := { someFleetKey with unique := [6] }

/-- Two joiners served, and nothing left. -/
theorem duplicates_clean_served :
    ∃ m' tr, (Fleet.duplicateAll { id := 0 } (.persistent someFleetKey)
        [someTransportKey, someTransportKey]).exec (nodeDevice .plain noFlushFault) keyedMachine
          (List.replicate 11 (performed 1) ++ List.replicate 11 (performed 2)) = some ((), m', tr) ∧
      SameIn { id := 0 } keyedMachine m' := by
  have hrun : ∃ m' tr, (Fleet.duplicateAll { id := 0 } (.persistent someFleetKey)
        [someTransportKey, someTransportKey]).exec (nodeDevice .plain noFlushFault) keyedMachine
          (List.replicate 11 (performed 1) ++ List.replicate 11 (performed 2)) = some ((), m', tr) ∧
      ∀ ev ∈ tr, strands ev = false := ⟨_, _, rfl, by decide⟩
  obtain ⟨m', tr, hrun, hok⟩ := hrun
  exact ⟨m', tr, hrun, (duplicates_clean_iff .plain _ _ _ _ m' _ tr hrun).mpr hok⟩

/-- The policy session does not start: the joiner's public area stays loaded. -/
theorem failed_policy_session_leaves_object :
    ∃ m' tr, (Fleet.duplicateAll { id := 0 } (.persistent someFleetKey) [someTransportKey]).exec
        (nodeDevice .plain noFlushFault) keyedMachine
          (List.replicate 5 (performed 1) ++ [.fail (.rc 0x903)]) = some ((), m', tr) ∧
      ¬ SameIn { id := 0 } keyedMachine m' := by
  refine ⟨_, _, rfl, ?_⟩
  intro h
  have hmem := (h.1 ⟨0, 1, .external someTransportKey⟩).mp (by decide)
  revert hmem
  decide

end Sceau
