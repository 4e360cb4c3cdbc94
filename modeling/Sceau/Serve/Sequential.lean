import Mathlib.Data.List.Nodup
import Sceau.Serve.View

/-!
# Requests one after the other

Requests on the two sealers of a service, at once. The parts of the TPM the two see do not meet: the
contexts are two, numbers are given out once, and what one sealer creates is under its own key. So
whatever the interleaving, the requests are answered as they would be one after the other, by the
handlers of `Node/Code.lean`, in the order in which they are answered.
-/

set_option autoImplicit false

namespace Sceau

open Lib

variable {P : Platform} {faults : TpmCmd → Bool} {m m' : Machine}

/-! ## Numbers are given out once

Handles are numbered from a counter that only grows, so no two objects and no two sessions of one TPM
ever share a number. Nothing else keeps the sealers apart when one of them flushes: a flush is by
number alone, and would take the other's object with it if the numbers met. The invariant is proved
for every program, so it holds of whatever `serve` has done before the first request. -/

/-- No two objects and no two sessions have one number. -/
structure Machine.Distinct (m : Machine) : Prop where
  objects : (m.tpm.objects.map LoadedObject.id).Nodup
  sessions : (m.tpm.sessions.map fun e => e.session.id).Nodup

namespace Machine.Distinct

theorem object_eq (h : m.Distinct) {o o' : LoadedObject} (ho : o ∈ m.tpm.objects)
    (ho' : o' ∈ m.tpm.objects) (hid : o.id = o'.id) : o = o' :=
  List.inj_on_of_nodup_map h.objects ho ho' hid

theorem session_eq (h : m.Distinct) {e e' : OpenSession} (he : e ∈ m.tpm.sessions)
    (he' : e' ∈ m.tpm.sessions) (hid : e.session.id = e'.session.id) : e = e' :=
  List.inj_on_of_nodup_map h.sessions he he' hid

theorem addObject (h : m.Distinct) (n : Nat) (obj : Obj) :
    Machine.Distinct { m with tpm := m.tpm.addObject n obj } := by
  refine ⟨List.nodup_cons.mpr ⟨fun hmem => ?_, h.objects⟩, h.sessions⟩
  obtain ⟨o, ho, hid⟩ := List.mem_map.mp hmem
  exact Nat.ne_of_lt (m.tpm.objects_lt o ho) hid

theorem addSession (h : m.Distinct) (n : Nat) (ty : SessionType) :
    Machine.Distinct { m with tpm := m.tpm.addSession n ty } := by
  refine ⟨h.objects, List.nodup_cons.mpr ⟨fun hmem => ?_, h.sessions⟩⟩
  obtain ⟨e, he, hid⟩ := List.mem_map.mp hmem
  exact Nat.ne_of_lt (m.tpm.sessions_lt e he) hid

theorem dropObject (h : m.Distinct) (id : Nat) :
    Machine.Distinct { m with tpm := m.tpm.dropObject id } :=
  ⟨h.objects.sublist (List.filter_sublist.map _), h.sessions⟩

theorem dropSession (h : m.Distinct) (id : Nat) :
    Machine.Distinct { m with tpm := m.tpm.dropSession id } :=
  ⟨h.objects, h.sessions.sublist (List.filter_sublist.map _)⟩

theorem setPolicy (h : m.Distinct) (id : Nat) (policy : Digest) :
    Machine.Distinct { m with tpm := m.tpm.setPolicy id policy } := by
  refine ⟨h.objects, ?_⟩
  have hids : (m.tpm.setPolicy id policy).sessions.map (fun e => e.session.id) =
      m.tpm.sessions.map fun e => e.session.id := by
    show (m.tpm.sessions.map _).map _ = _
    rw [List.map_map]
    refine List.map_congr_left fun e _ => ?_
    show (if e.session.id = id then _ else e).session.id = e.session.id
    split <;> rfl
  exact hids ▸ h.sessions

end Machine.Distinct

/-- A number is given out with a new object or a new session, and it is the next one. -/
theorem Performs.distinct {ctx : Context} {c : TpmCmd} {a : c.Res}
    (hp : Performs P faults m ctx c a m') (h : m.Distinct) : m'.Distinct := by
  cases c with
  | startAuthSession ty =>
    rcases performs_startAuthSession.mp hp with ⟨-, -, rfl⟩ | ⟨-, rfl⟩
    · exact h
    · exact h.addSession _ _
  | trSessSetAttributes s cs => exact (performs_trSessSetAttributes.mp hp).2 ▸ h
  | policyCommandCode s code =>
    obtain ⟨-, -, rfl⟩ := performs_policyCommandCode.mp hp
    exact h.setPolicy _ _
  | policyGetDigest s =>
    obtain ⟨-, -, rfl⟩ := performs_policyGetDigest.mp hp
    exact h
  | flushContext handle =>
    cases handle with
    | transient id obj =>
      obtain ⟨-, rfl⟩ := performs_flushTransient.mp hp
      exact h.dropObject _
    | session s =>
      obtain ⟨-, rfl⟩ := performs_flushSession.mp hp
      exact h.dropSession _
    | persistent pub =>
      obtain ⟨rnd, hr, -, -⟩ := hp
      cases hr
  | createPrimary template =>
    obtain ⟨-, unique, -, -, rfl⟩ := performs_createPrimary.mp hp
    exact h.addObject _ _
  | readPublic handle =>
    obtain ⟨-, rfl⟩ := performs_readPublic.mp hp
    exact h
  | trFromTpmPublic ph =>
    obtain ⟨-, -, rfl⟩ := performs_trFromTpmPublic.mp hp
    exact h
  | loadExternalPublic pub =>
    obtain ⟨-, rfl⟩ := performs_loadExternalPublic.mp hp
    exact h.addObject _ _
  | duplicate object newParent alg =>
    obtain ⟨-, -, -, -, -, rfl⟩ := performs_duplicate hp
    exact ⟨h.objects, h.sessions⟩
  | «import» parent ek pub dup secret alg =>
    obtain ⟨-, -, -, -, rfl⟩ := performs_import hp
    exact ⟨h.objects, h.sessions⟩
  | load parent priv pub =>
    obtain ⟨-, t, o, -, -, -, rfl⟩ := performs_load.mp hp
    exact h.addObject _ _
  | evictControl handle ph =>
    cases handle with
    | transient id obj =>
      obtain ⟨-, -, -, -, -, -, rfl⟩ := performs_evict_transient.mp hp
      exact ⟨h.objects, h.sessions⟩
    | persistent pub =>
      obtain ⟨-, -, -, -, rfl⟩ := performs_evict_persistent.mp hp
      exact ⟨h.objects, h.sessions⟩
    | session s =>
      obtain ⟨rnd, hr, -, -⟩ := hp
      simp [refuses] at hr
  | create parent template sensitive =>
    obtain ⟨-, -, -, -, -, -, rfl⟩ := performs_create hp
    exact ⟨h.objects, h.sessions⟩
  | «unseal» handle =>
    obtain ⟨-, -, rfl⟩ := performs_unseal.mp hp
    exact h

theorem nodeDevice_distinct {c : Cmd} {e : Choice} {r : c.Res}
    (hd : nodeDevice P faults c m e = some (r, m')) (h : m.Distinct) : m'.Distinct := by
  cases c with
  | tpm ctx c =>
    rcases tpmStep_cases hd with ⟨-, -, -, rfl⟩ | ⟨a, hp, -⟩
    · exact h
    · exact hp.distinct h
  | openContext =>
    cases e <;> simp only [nodeDevice, Option.some.injEq, Prod.mk.injEq, reduceCtorEq] at hd
    · exact hd.2 ▸ h
    · obtain ⟨-, rfl⟩ := hd
      exact ⟨h.objects, h.sessions⟩
  | _ =>
    cases e <;> simp only [nodeDevice, Option.some.injEq, Prod.mk.injEq, reduceCtorEq] at hd
    exact hd.2 ▸ h

/-- Whatever runs, the numbers stay distinct. -/
theorem distinct_wp {α : Type} (p : Code α) (h : m.Distinct) :
    p.wp (nodeDevice P faults) (fun _ _ m' => m'.Distinct) m := by
  induction p generalizing m with
  | ret a => exact h
  | call c k ih => exact fun e r m₁ hd => ih r (nodeDevice_distinct hd h)

/-! ## The parts

What a lock guards. A sealer looks at its own context's objects and sessions, at the slot if its key
is there, and at the blobs created under its key; that is its part, and two things show that the
other sealer leaves it alone. The contexts differ, so objects and sessions do not meet; the keys
differ, because two sealers are asked only if their `key_id`s do, so the blobs do not meet either. -/

/-- A handle names one key. -/
theorem Handle.Names.unique {h : Handle} {t t' : Public} (hn : h.Names t) (hn' : h.Names t') :
    t = t' := by
  rcases hn with rfl | ⟨id, rfl⟩
  · rcases hn' with heq | ⟨id, heq⟩
    · exact Handle.persistent.inj heq
    · cases heq
  · rcases hn' with heq | ⟨id', heq⟩
    · cases heq
    · exact Obj.key.inj (Handle.transient.inj heq).2

namespace TpmSealer

variable {s : TpmSealer} {n : Nat} {key : Public}

/-- What a sealer does leaves another context and another key alone. -/
theorem Issues.untouched {c : Cmd} (hc : s.Issues c) (hdistinct : m.Distinct)
    (hctx : n ≠ s.context.id) (hkey : ¬ s.primary.Names key) (hn : ∃ key, s.primary.Names key)
    {e : Choice} {r : c.Res} (hd : nodeDevice P faults c m e = some (r, m')) :
    Untouched n key m m' := by
  cases c with
  | tpm ctx c =>
    obtain ⟨hid, hc⟩ := hc
    rcases tpmStep_cases hd with ⟨-, -, -, rfl⟩ | ⟨a, hp, -⟩
    · exact Untouched.refl _ _ _
    cases c with
    | startAuthSession ty =>
      rcases performs_startAuthSession.mp hp with ⟨-, -, rfl⟩ | ⟨-, rfl⟩
      · exact Untouched.refl _ _ _
      refine ⟨rfl, fun _ _ => Iff.rfl, fun e he => ?_, fun _ _ => rfl, Nat.le_succ _⟩
      refine ⟨fun hmem => ?_, List.mem_cons_of_mem _⟩
      rcases List.mem_cons.mp hmem with rfl | hmem
      · exact absurd (he.symm.trans hid) hctx
      · exact hmem
    | trSessSetAttributes a cs =>
      exact (performs_trSessSetAttributes.mp hp).2 ▸ Untouched.refl _ _ _
    | create parent template sensitive =>
      obtain rfl := hc
      obtain ⟨t, ht, -, -, -, -, rfl⟩ := performs_create hp
      refine ⟨rfl, fun _ _ => Iff.rfl, fun _ _ => Iff.rfl, fun pub priv => ?_, Nat.le_refl _⟩
      have hother : t ≠ key := fun heq => hkey (heq ▸ names_parent hn ht)
      show List.find? _ (_ :: _) = _
      rw [List.find?_cons_of_neg (by simp [hother])]
      rfl
    | load parent priv pub =>
      obtain ⟨-, t, o, -, -, -, rfl⟩ := performs_load.mp hp
      refine ⟨rfl, fun x hx => ?_, fun _ _ => Iff.rfl, fun _ _ => rfl, Nat.le_succ _⟩
      refine ⟨fun hmem => ?_, List.mem_cons_of_mem _⟩
      rcases List.mem_cons.mp hmem with rfl | hmem
      · exact absurd (hx.symm.trans hid) hctx
      · exact hmem
    | «unseal» handle =>
      obtain ⟨-, -, rfl⟩ := performs_unseal.mp hp
      exact Untouched.refl _ _ _
    | flushContext handle =>
      cases handle with
      | transient id obj =>
        obtain ⟨hmem, rfl⟩ := performs_flushTransient.mp hp
        refine ⟨rfl, fun x hx => ⟨List.mem_of_mem_filter, fun hx' => ?_⟩, fun _ _ => Iff.rfl,
          fun _ _ => rfl, Nat.le_refl _⟩
        refine List.mem_filter.mpr ⟨hx', ?_⟩
        -- of that number there is only the one flushed, and that is of the sealer's context
        have hne : x.id ≠ id := by
          intro heq
          have := hdistinct.object_eq hx' hmem heq
          subst this
          exact hctx (hx.symm.trans hid)
        simpa using hne
      | session a =>
        obtain ⟨hopen, rfl⟩ := performs_flushSession.mp hp
        obtain ⟨e₀, he₀, hctx₀, rfl⟩ := openSession_isSome.mp hopen
        refine ⟨rfl, fun _ _ => Iff.rfl, fun x hx => ⟨List.mem_of_mem_filter, fun hx' => ?_⟩,
          fun _ _ => rfl, Nat.le_refl _⟩
        refine List.mem_filter.mpr ⟨hx', ?_⟩
        have hne : x.session.id ≠ e₀.session.id := by
          intro heq
          have := hdistinct.session_eq hx' he₀ heq
          subst this
          exact hctx (hx.symm.trans (hctx₀.trans hid))
        simpa using hne
      | persistent pub =>
        obtain ⟨rnd, hr, -, -⟩ := hp
        cases hr
    | _ => exact hc.elim
  | _ => exact hc.elim

end TpmSealer

namespace Sealers

variable {sealers : Sealers}

/-- The two sealers are on contexts of their own, and each has the `key_id` of its key. -/
structure Sound (P : Platform) (sealers : Sealers) : Prop where
  apart : sealers.Apart
  named : ∀ l s, sealers.behind l = some s → s.Named P

theorem Sound.names (h : sealers.Sound P) {l : SealerLock} {s : TpmSealer}
    (hs : sealers.asked l = some s) : ∃ key, s.primary.Names key := by
  obtain ⟨key, hkey, -⟩ := h.named l s (behind_of_asked hs)
  exact ⟨key, hkey⟩

/-- Two sealers that are asked go by two `key_id`s. -/
theorem asked_keyId_ne {l l' : SealerLock} {s s' : TpmSealer} (hs : sealers.asked l = some s)
    (hs' : sealers.asked l' = some s') (hne : l' ≠ l) : s'.keyId ≠ s.keyId := by
  have hlegacy : ∀ {x y}, sealers.asked .sealer = some x → sealers.asked .legacySealer = some y →
      y.keyId ≠ x.keyId := by
    intro x y hx hy
    obtain rfl := Option.some.inj hx
    simpa using (Option.filter_eq_some_iff.mp hy).2
  cases l with
  | sealer =>
    cases l' with
    | sealer => exact absurd rfl hne
    | legacySealer => exact hlegacy hs hs'
  | legacySealer =>
    cases l' with
    | sealer => exact (hlegacy hs' hs).symm
    | legacySealer => exact absurd rfl hne

/-- So their keys are two. -/
theorem Sound.key_ne (h : sealers.Sound P) {l l' : SealerLock} {s s' : TpmSealer} {key : Public}
    (hs : sealers.asked l = some s) (hs' : sealers.asked l' = some s') (hne : l' ≠ l)
    (hkey : s'.primary.Names key) : ¬ s.primary.Names key := by
  intro hkey'
  obtain ⟨t, ht, hid⟩ := h.named l s (behind_of_asked hs)
  obtain ⟨t', ht', hid'⟩ := h.named l' s' (behind_of_asked hs')
  refine asked_keyId_ne hs hs' hne ?_
  rw [hid, hid', ht.unique hkey', ht'.unique hkey]

/-- What each lock guards of the TPM. -/
def Sound.parts (h : sealers.Sound P) (faults : TpmCmd → Bool) :
    Parts (nodeDevice P faults) sealers.Guards where
  inv := Machine.Distinct
  rely l m m' := ∀ s, sealers.asked l = some s → s.Rely m m'
  sim l m u := ∀ s, sealers.asked l = some s → s.Alike m u
  rely_refl := fun _ _ _ _ _ _ => Untouched.refl _ _ _
  rely_trans := fun _ _ _ _ h₁ h₂ s hs key hk => (h₁ s hs key hk).trans (h₂ s hs key hk)
  sim_left := fun _ _ _ _ hsim hr s hs => (hsim s hs).left (hr s hs) (h.names hs)
  sim_right := fun _ _ _ _ hsim hr s hs => (hsim s hs).right (hr s hs) (h.names hs)
  inv_step := fun _ _ _ _ _ _ _ hinv hd => nodeDevice_distinct hd hinv
  frame := by
    intro l l' c m e r m' hc hne hinv hd s' hs' key hkey
    obtain ⟨s, hs, hissues⟩ := hc
    refine hissues.untouched hinv ?_ (h.key_ne hs hs' hne hkey) (h.names hs) hd
    intro hctx
    exact hne (h.apart.lock_eq (behind_of_asked hs') (behind_of_asked hs) hctx)

/-! ## The requests

Each handler, as the code has it with its locks, against the same handler of `Node/Code.lean` that
owns its sealers. Under the lock it answers with, a handler does there what it does alone, command by
command; before that it has at most taken and released the other lock. `decrypt` is the one that may
do so: it asks the preferred sealer for its `key_id` first. -/

section Requests

variable (h : sealers.Sound P) {service : KmsService}

/-- A call on a sealer, under its lock here and of the mutex there. -/
theorem call_follows {α : Type} {l : SealerLock} {s : TpmSealer} (hs : sealers.asked l = some s)
    {f : TpmSealer → Fallible (Failure TpmError) α} (hf : (f s).run.Only s.Issues)
    {g : Except (Failure KmsStatus) α → KmsOutcome}
    {g' : Except (Failure KmsStatus) α × Mutex TpmSealer → KmsOutcome × KmsService}
    (hg : ∀ x, g' (x, { value := s }) = (g x, service)) {u : Machine}
    (ht : Prog.Tracks (nodeDevice P faults) (nodeDevice P faults) s.Rely (f s).run (f s).run
      (fun r m' r' u' => r' = r ∧ r ≠ .error .panic ∧ s.Alike m' u') m u) :
    Prog.Follows (nodeDevice P faults) (sealers.Guards l) l ((h.parts faults).rely l)
      (fun a m' b u' => b = (a, service) ∧ (h.parts faults).sim l m' u')
      ((l.call (f s)).bind fun x => .ret (g x))
      ((Mutex.call { value := s } f).bind fun y => .ret (g' y)) m u := by
  have hsim : ∀ {m' u' : Machine}, s.Alike m' u' → ∀ m'', (h.parts faults).rely l m' m'' →
      (h.parts faults).sim l m'' u' := by
    intro m' u' halike m'' hr s' hs'
    obtain rfl := Option.some.inj (hs.symm.trans hs')
    exact halike.left (hr s hs) (h.names hs)
  show Prog.Follows _ _ _ _ _ (((f s).run.inside.bind _).bind _) (((f s).run.bind _).bind _) m u
  rw [Prog.bind_assoc, Prog.bind_assoc]
  refine Prog.Follows.of_tracks (hf.mono fun c hc => ⟨s, hs, hc⟩)
    ((ht.calmer fun m m' hr => hr s hs).mono ?_)
  intro r m' r' u' hr
  obtain ⟨rfl, hne, halike⟩ := hr
  match r', hne with
  | .ok a, _ => exact ⟨rfl, rfl, _, _, rfl, rfl, fun m'' hr => ⟨hg _, hsim halike m'' hr⟩⟩
  | .error (.error e), _ =>
    exact ⟨rfl, rfl, _, _, rfl, rfl, fun m'' hr => ⟨hg _, hsim halike m'' hr⟩⟩
  | .error .panic, hne => exact absurd rfl hne

/-- An answer that needs no command. -/
theorem answer_follows {l : SealerLock} {a : KmsOutcome} {u : Machine}
    (hsim : (h.parts faults).sim l m u) :
    Prog.Follows (nodeDevice P faults) (sealers.Guards l) l ((h.parts faults).rely l)
      (fun a m' b u' => b = (a, service) ∧ (h.parts faults).sim l m' u')
      (.call (.unlock l false) fun _ => .ret a) (.ret (a, service)) m u :=
  ⟨rfl, rfl, a, _, rfl, rfl, fun m' hr => ⟨rfl, (h.parts faults).sim_left l m m' u hsim hr⟩⟩

/-- The lock under which a request is answered. -/
def lockOf (sealers : Sealers) : KmsRequest → SealerLock
  | .decrypt keyId _ =>
    if keyId = sealers.sealer.keyId ∨ sealers.legacySealer.isNone then .sealer else .legacySealer
  | _ => .sealer

/-- `decrypt` alone is a call on the preferred sealer, on the legacy one, or an error. -/
theorem service_decrypt (keyId : String) (ciphertext : Bytes) :
    sealers.service.handle P (.decrypt keyId ciphertext) =
      if keyId = sealers.sealer.keyId then
        (Mutex.call { value := sealers.sealer } fun s => s.unseal P ciphertext).bind fun y =>
          .ret (.decrypt y.1, { sealers.service with sealer := y.2 })
      else match sealers.legacySealer with
        | none => .ret (.decrypt (.error (.error (KmsService.unknownKeyId keyId))), sealers.service)
        | some legacy =>
          if keyId = legacy.keyId then
            (Mutex.call { value := legacy } fun s => s.unseal P ciphertext).bind fun y =>
              .ret (.decrypt y.1, { sealers.service with legacySealer := some y.2 })
          else
            .ret (.decrypt (.error (.error (KmsService.unknownKeyId keyId))), sealers.service) := by
  obtain ⟨s, legacySealer⟩ := sealers
  show Prog.bind (KmsService.decrypt P (serviceOf s legacySealer) keyId ciphertext) _ = _
  unfold KmsService.decrypt
  by_cases hkey : keyId = s.keyId
  · rw [if_pos (.inr hkey), if_pos hkey]
    exact Prog.bind_assoc _ _ _
  · have hother : ¬ ((serviceOf s legacySealer).sealer.poisoned = true ∨
        keyId = (serviceOf s legacySealer).sealer.value.keyId) := by
      rintro (hp | hp)
      · cases hp
      · exact hkey hp
    rw [if_neg hother, if_neg hkey]
    cases legacySealer with
    | none => rfl
    | some legacy =>
      show Prog.bind (if (false = true) ∨ keyId = legacy.keyId then _ else _) _ = _
      by_cases hlegacy : keyId = legacy.keyId
      · rw [if_pos (.inr hlegacy)]
        simp only [if_pos hlegacy]
        exact Prog.bind_assoc _ _ _
      · have hneither : ¬ ((false = true) ∨ keyId = legacy.keyId) := by simp [hlegacy]
        rw [if_neg hneither]
        simp only [if_neg hlegacy]
        rfl

/-- `decrypt` is answered under the lock of the sealer that is asked. An unknown `key_id` is answered
under the last lock that was taken, and without a command. -/
theorem decrypt_awaits (hfaults : Uniform faults) (keyId : String) (ciphertext : Bytes) :
    (sealers.handle P (.decrypt keyId ciphertext)).Awaits
      (sealers.lockOf (.decrypt keyId ciphertext))
      ((h.parts faults).Ready (sealers.lockOf (.decrypt keyId ciphertext))
        (fun a b => b = (a, sealers.service))
        (sealers.service.handle P (.decrypt keyId ciphertext))) none := by
  rw [service_decrypt]
  by_cases hkey : keyId = sealers.sealer.keyId
  · have hlock : sealers.lockOf (.decrypt keyId ciphertext) = .sealer := if_pos (.inl hkey)
    rw [hlock, if_pos hkey]
    refine .inl ⟨rfl, fun m u hsim => ?_⟩
    show Prog.Follows _ _ _ _ _ (Prog.bind (if keyId = sealers.sealer.keyId then _ else _) _) _ m u
    rw [if_pos hkey]
    refine call_follows h (l := .sealer) (f := fun s => s.unseal P ciphertext) (g := .decrypt) rfl
      ?_ ?_ ?_
    · exact TpmSealer.unseal_issues P _ _
    · exact fun x => rfl
    · exact TpmSealer.unseal_tracks hfaults (h.names (l := .sealer) rfl) (hsim _ rfl) ciphertext
  rw [if_neg hkey]
  cases hlegacy : sealers.legacySealer with
  | none =>
    have hlock : sealers.lockOf (.decrypt keyId ciphertext) = .sealer :=
      if_pos (.inr (by rw [hlegacy]; rfl))
    rw [hlock]
    refine .inl ⟨rfl, fun m u hsim => ?_⟩
    show Prog.Follows _ _ _ _ _ (Prog.bind (if keyId = sealers.sealer.keyId then _ else _) _) _ m u
    rw [if_neg hkey, hlegacy]
    exact answer_follows h hsim
  | some legacy =>
    have hlock : sealers.lockOf (.decrypt keyId ciphertext) = .legacySealer := by
      refine if_neg ?_
      rintro (hp | hp)
      · exact hkey hp
      · simp [hlegacy] at hp
    rw [hlock]
    refine .inr ⟨nofun, ?_⟩
    show Prog.Awaits _ _ _ (Prog.bind (if keyId = sealers.sealer.keyId then _ else _) _)
    rw [if_neg hkey, hlegacy]
    refine ⟨rfl, rfl, .inl ⟨rfl, fun m u hsim => ?_⟩⟩
    show Prog.Follows _ _ _ _ _ (Prog.bind (if keyId = legacy.keyId then _ else _) _) _ m u
    dsimp only
    by_cases hown : keyId = legacy.keyId
    · rw [if_pos hown, if_pos hown]
      have hasked : sealers.asked .legacySealer = some legacy :=
        asked_legacy hlegacy (hown ▸ hkey)
      refine call_follows h (f := fun s => s.unseal P ciphertext) (g := .decrypt) hasked ?_ ?_ ?_
      · exact TpmSealer.unseal_issues P _ _
      · intro x
        rw [Sealers.service, serviceOf, hlegacy]
        rfl
      · exact TpmSealer.unseal_tracks hfaults (h.names hasked) (hsim _ hasked) ciphertext
    · rw [if_neg hown, if_neg hown]
      exact answer_follows h hsim

/-- `encrypt` is always the preferred sealer's. -/
theorem encrypt_awaits (hP : P.Lawful) (hfaults : Uniform faults) (plaintext : Bytes) :
    (sealers.handle P (.encrypt plaintext)).Awaits .sealer
      ((h.parts faults).Ready .sealer (fun a b => b = (a, sealers.service))
        (sealers.service.handle P (.encrypt plaintext))) none := by
  refine .inl ⟨rfl, fun m u hsim => ?_⟩
  show Prog.Follows _ _ _ _ _ (((SealerLock.sealer.call _).bind _).bind _)
    (((Mutex.call _ _).bind _).bind _) m u
  rw [Prog.bind_assoc, Prog.bind_assoc]
  refine call_follows h (l := .sealer) (f := fun s => s.seal P plaintext)
    (g := fun x => .encrypt (x.map fun ciphertext =>
      { ciphertext, keyId := sealers.sealer.keyId })) rfl ?_ ?_ ?_
  · exact TpmSealer.seal_issues P _ _
  · exact fun x => rfl
  · exact TpmSealer.seal_tracks hP hfaults (h.names (l := .sealer) rfl) (hsim _ rfl) plaintext

end Requests

end Sealers

/-- The same call, of a service that handles one at a time. -/
def KmsRequest.call : KmsRequest → KmsCall
  | .status => .status
  | .encrypt plaintext => .encrypt plaintext
  | .decrypt keyId ciphertext => .decrypt keyId ciphertext

namespace Sealers

variable {sealers : Sealers}

/-- Alone, a request issues the commands of the sealer whose lock answers it. -/
theorem handle_only (request : KmsRequest) :
    (sealers.service.handle P request.call).Only (sealers.Guards (sealers.lockOf request)) := by
  cases request with
  | status => trivial
  | encrypt plaintext =>
    refine Prog.Only.bind (Prog.Only.bind (Mutex.call_closed (Prog.only_closed _) _ fun _ => ?_)
      fun _ => trivial) fun _ => trivial
    exact (TpmSealer.seal_issues P _ _).mono fun c hc => ⟨_, rfl, hc⟩
  | decrypt keyId ciphertext =>
    have hcall : ∀ {l s}, sealers.asked l = some s → ∀ g : _ → KmsOutcome × KmsService,
        ((Mutex.call { value := s } fun s => s.unseal P ciphertext).bind fun y =>
          Prog.ret (g y)).Only (sealers.Guards l) := by
      intro l s hs g
      refine Prog.Only.bind (Mutex.call_closed (Prog.only_closed _) _ fun _ => ?_) fun _ => trivial
      exact (TpmSealer.unseal_issues P _ _).mono fun c hc => ⟨s, hs, hc⟩
    show Prog.Only _ (sealers.service.handle P (.decrypt keyId ciphertext))
    rw [service_decrypt]
    by_cases hkey : keyId = sealers.sealer.keyId
    · rw [if_pos hkey, lockOf, if_pos (.inl hkey)]
      exact hcall rfl _
    rw [if_neg hkey]
    cases hlegacy : sealers.legacySealer with
    | none => trivial
    | some legacy =>
      dsimp only
      by_cases hown : keyId = legacy.keyId
      · rw [if_pos hown, lockOf, if_neg (by simp [hkey, hlegacy])]
        exact hcall (asked_legacy hlegacy (hown ▸ hkey)) _
      · rw [if_neg hown]
        trivial

/-- The requests, each with its section and what it is alone. -/
def Sound.requests (h : sealers.Sound P) (hP : P.Lawful) (hfaults : Uniform faults) :
    (h.parts faults).Requests (sealers.handle P) (fun r => sealers.service.handle P r.call)
      (fun a b => b = (a, sealers.service)) where
  own := sealers.lockOf
  disciplined := handle_disciplined
  awaits := by
    intro request
    cases request with
    | status => exact .inl ⟨rfl, fun m u hsim => answer_follows h hsim⟩
    | encrypt plaintext => exact encrypt_awaits h hP hfaults plaintext
    | decrypt keyId ciphertext => exact decrypt_awaits h hfaults keyId ciphertext
  only := handle_only

end Sealers

/-! ## Every interleaving

The parts and the requests are what `Lib/Linear.lean` asks for; what is left is to start it. The
sealers come from `run_serve`, which leaves them on contexts of their own with the `key_id` of their
keys, and the run that is compared with begins in the machine `run_serve` has left. -/

/-- Requests one after the other, each leaving the service as it was, are `handleAll`. -/
theorem handleAll_of_inTurn {service : KmsService} {script : List (KmsRequest × List Choice)}
    {answers : List KmsOutcome} {bs : List (KmsOutcome × KmsService)}
    (hseq : inTurn (nodeDevice P faults) (fun r : KmsRequest => service.handle P r.call) m script =
      some (bs, m'))
    (hgood : List.Forall₂ (fun a b => b = (a, service)) answers bs) :
    ∃ es tr, (KmsService.handleAll P (script.map fun x => x.1.call) service).exec
      (nodeDevice P faults) m es = some ((answers, service), m', tr) := by
  induction script generalizing m answers bs with
  | nil =>
    simp only [inTurn, Option.some.injEq, Prod.mk.injEq] at hseq
    obtain ⟨rfl, rfl⟩ := hseq
    cases hgood
    exact ⟨[], [], rfl⟩
  | cons x script ih =>
    obtain ⟨request, es⟩ := x
    simp only [inTurn, Option.bind_eq_some_iff, Option.map_eq_some_iff, Prod.mk.injEq] at hseq
    obtain ⟨⟨b, m₁, tr⟩, hx, ⟨bs', m₂⟩, hrest, rfl, rfl⟩ := hseq
    cases hgood with
    | cons hb hgood =>
      subst hb
      obtain ⟨es', tr', htail⟩ := ih hrest hgood
      refine ⟨es ++ (es' ++ []), tr ++ (tr' ++ []), ?_⟩
      exact Prog.exec_bind hx (Prog.exec_bind htail rfl)

/-- The sealers `serve` starts with see the machine as it is. -/
theorem SealerPair.alike {m₀ : Machine} {s : TpmSealer} {legacy : Option TpmSealer}
    (h : SealerPair P m₀ m s legacy) {l : SealerLock} {x : TpmSealer}
    (hx : Sealers.behind ⟨s, legacy⟩ l = some x) : x.Alike m m := by
  refine ⟨rfl, fun _ _ _ _ => rfl, fun id obj hp => ?_⟩
  have hsrk : ∀ {y : TpmSealer} {id' : Nat} {t : Public}, y.Srk P m₀ m id' t →
      y.primary = .transient id obj → id < m.tpm.next := by
    intro y id' t hy hp
    rw [hy.primary] at hp
    obtain ⟨rfl, -⟩ := Handle.transient.inj hp
    exact m.tpm.objects_lt _ hy.loaded
  refine and_self_iff.mpr ?_
  cases h with
  | own srk =>
    cases l with
    | sealer =>
      obtain rfl := Option.some.inj hx
      exact hsrk srk hp
    | legacySealer => cases hx
  | fleet slot primary keyId srk =>
    cases l with
    | sealer =>
      obtain rfl := Option.some.inj hx
      rw [primary] at hp
      cases hp
    | legacySealer =>
      obtain rfl := Option.some.inj hx
      exact hsrk srk hp

/-- Whatever `serve` starts with is sound, be it one sealer or two. -/
theorem SealerPair.sound {m₀ : Machine} {s : TpmSealer} {legacy : Option TpmSealer}
    (h : SealerPair P m₀ m s legacy) (hapart : Sealers.Apart ⟨s, legacy⟩) :
    Sealers.Sound P ⟨s, legacy⟩ := by
  refine ⟨hapart, fun l x hx => ?_⟩
  have hnamed := h.named
  cases l with
  | sealer =>
    obtain rfl := Option.some.inj hx
    exact hnamed.1
  | legacySealer =>
    obtain rfl : legacy = some x := hx
    exact hnamed.2 { value := x } rfl

/-- The answers of a run of `serve`, in the order in which they are given. -/
def answersOf (P : Platform) (faults : TpmCmd → Bool) (sealers : Sealers) (m : Machine)
    (acts : List (Act KmsRequest (Option Choice) Empty)) : List (KmsRequest × KmsOutcome) :=
  (serveSystem P faults sealers).endings (ServePool.start m) acts

/-- **Requests at the same time are requests one after the other.** Whatever the interleaving of the
requests to a service that `serve` has started, alone on the TPM: the answers are those of the
handlers run one after the other, without interruption, in the order in which the answers are given;
and once all are answered, either sealer finds the TPM as that run leaves it. -/
theorem serve_sequential (hP : P.Lawful) (hfaults : Uniform faults) (hdistinct : m.Distinct)
    {forceLegacy : Bool} {es : List Choice} {service : KmsService} {tr : List (Event Cmd Cmd.Res)}
    (hserve : (runServe P forceLegacy).run.exec (nodeDevice P faults) m es =
      some (.ok service, m', tr))
    {acts : List (Act KmsRequest (Option Choice) Empty)} {pool : ServePool}
    (hrun : runs (serveSystem P faults service.sealers).step (ServePool.start m') acts =
      some pool) :
    pool.answered.Perm (answersOf P faults service.sealers m' acts) ∧
    ∃ es' u tr',
      (KmsService.handleAll P ((answersOf P faults service.sealers m' acts).map fun x => x.1.call)
        service).exec (nodeDevice P faults) m' es' =
        some (((answersOf P faults service.sealers m' acts).map Prod.snd, service), u, tr') ∧
      (pool.quiescent → ∀ l s, service.sealers.asked l = some s → s.Alike pool.shared.state u) := by
  obtain ⟨s, legacy, hpair, rfl⟩ := Prog.wp_sound runServe_wp hserve service rfl
  have hsealers : (serviceOf s legacy).sealers = ⟨s, legacy⟩ := by
    cases legacy <;> rfl
  have hapart : (serviceOf s legacy).sealers.Apart := Prog.wp_sound runServe_apart hserve _ rfl
  rw [hsealers] at hapart hrun ⊢
  have hsound := hpair.sound hapart
  have hdistinct' := Prog.wp_sound (distinct_wp _ hdistinct) hserve
  have hperm := answered_perm (fun r a => ((hsound.requests hP hfaults).awaits r).ne_ret a) hrun
  obtain ⟨u, hu⟩ : ∃ u, Parts.Linear (hsound.requests hP hfaults) m'
      (answersOf P faults ⟨s, legacy⟩ m' acts) pool u :=
    Parts.linear_run hdistinct' (fun l x hx => hpair.alike (Sealers.behind_of_asked hx)) hrun
  obtain ⟨script, bs, hseq, hwho, hgood⟩ := hu.script
  obtain ⟨es', tr', hall⟩ := handleAll_of_inTurn hseq hgood
  refine ⟨hperm, es', u, tr', ?_, fun hquiet l => hu.idle l (hu.orderly.free hquiet l)⟩
  have hcalls : script.map (fun x => x.1.call) =
      (answersOf P faults ⟨s, legacy⟩ m' acts).map fun x => x.1.call := by
    have hmap := congrArg (List.map KmsRequest.call) hwho
    rw [List.map_map, List.map_map] at hmap
    exact hmap
  rw [← hcalls]
  exact hall

/-- The two requests that come in between each other's commands. -/
theorem serve_sequential_two :
    ∃ service m' tr pool,
      (runServe .plain false).run.exec (nodeDevice .plain noFault) keyedMachine allPerformed =
        some (.ok service, m', tr) ∧
      runs (serveSystem .plain noFault service.sealers).step (ServePool.start m') twoRequests =
        some pool ∧ pool.tasks.map Task.inFlight = [false, false] ∧
      pool.answered.Perm (answersOf .plain noFault service.sealers m' twoRequests) := by
  obtain ⟨service, m', tr, pool, hserve, hrun, hpool⟩ :=
    @keyedMachine_run noFault twoRequests [false, false] (by decide +kernel)
  have hdistinct : keyedMachine.Distinct := ⟨List.nodup_nil, List.nodup_nil⟩
  refine ⟨service, m', tr, pool, hserve, hrun, hpool, ?_⟩
  exact (serve_sequential Platform.plain_lawful (fun _ _ _ => rfl) hdistinct hserve hrun).1

end Sceau
