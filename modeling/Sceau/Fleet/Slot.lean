import Sceau.Fleet.Commands
import Sceau.Platform

/-!
# The fleet key's slot

What a run does to the persistent slot is decided by the `TPM2_EvictControl` commands that succeeded
in it, in order: `evictions` reads them off the trace, `slotAfter` says what each does, and `wp_slot`
says that the slot at the end is the one at the start moved along them — for every program. What is
left to say of a function of `fleet.rs` is then which evictions it can perform.

The functions that replace the key delete the old one and then persist the new one, because the TPM
refuses to persist over an occupied handle. So there is a moment with no key in the slot, and a
failure there leaves it empty; the last theorem says that this is the only way to lose the key, and
where in the run it has to happen.
-/

set_option autoImplicit false

namespace Sceau

open Lib

/-! ## Evictions and the slot -/

/-- The handle of a successful `TPM2_EvictControl`. -/
def evicted : Event Cmd Cmd.Res → Option Handle
  | ⟨.tpm _ (.evictControl h _), .ok _⟩ => some h
  | _ => none

/-- The evictions of a run, in order. -/
def evictions (tr : List (Event Cmd Cmd.Res)) : List Handle := tr.filterMap evicted

@[simp] theorem evictions_nil : evictions [] = [] := rfl

@[simp] theorem evictions_append (tr tr' : List (Event Cmd Cmd.Res)) :
    evictions (tr ++ tr') = evictions tr ++ evictions tr' := List.filterMap_append

@[simp] theorem evictions_flush (ctx : Context) (h : Handle) (r : Except TssError Unit)
    (tr : List (Event Cmd Cmd.Res)) :
    evictions (⟨.tpm ctx (.flushContext h), r⟩ :: tr) = evictions tr := rfl

/-- What an eviction does to the slot: a transient key fills an empty one, the persistent key itself
is deleted; nothing else is possible. -/
def slotAfter : Option Public → Handle → Option (Option Public)
  | none, .transient _ obj => some (some obj.pub)
  | some k, .persistent k' => if k' = k then some none else none
  | _, _ => none

/-- The keys a run created under the Owner hierarchy. -/
def createdKeys (tr : List (Event Cmd Cmd.Res)) : List Public :=
  tr.filterMap fun ev =>
    match ev with
    | ⟨.tpm _ (.createPrimary _), .ok (.transient _ obj)⟩ => some obj.pub
    | _ => none

@[simp] theorem createdKeys_append (tr tr' : List (Event Cmd Cmd.Res)) :
    createdKeys (tr ++ tr') = createdKeys tr ++ createdKeys tr' := List.filterMap_append

theorem evicted_of_quiet {ev : Event Cmd Cmd.Res} (h : ev.1.quiet TpmCmd.movesSlot) :
    evicted ev = none := by
  unfold evicted
  split
  · exact absurd h (by simp [Cmd.quiet, TpmCmd.movesSlot])
  · rfl

theorem evictions_quiet {tr : List (Event Cmd Cmd.Res)}
    (h : ∀ ev ∈ tr, ev.1.quiet TpmCmd.movesSlot) : evictions tr = [] :=
  List.filterMap_eq_nil_iff.mpr fun ev hev => evicted_of_quiet (h ev hev)

section Slot

variable {P : Platform} {faults : TpmCmd → Bool} {m m' : Machine} {ctx : Context}

/-- One command moves the slot by its eviction, if it is one. -/
theorem nodeDevice_slot {c : Cmd} {e : Choice} {r : c.Res}
    (h : nodeDevice P faults c m e = some (r, m')) :
    (evictions [⟨c, r⟩]).foldlM slotAfter m.tpm.slot = some m'.tpm.slot := by
  by_cases hquiet : c.quiet TpmCmd.movesSlot
  · have hnone : evictions [⟨c, r⟩] = [] := evictions_quiet (by simpa using hquiet)
    rw [hnone, (nodeDevice_frame h).slot hquiet]
    rfl
  · cases c with
    | tpm ctx c =>
      cases c with
      | evictControl hd persistent =>
        rcases tpmStep_cases h with ⟨err, -, rfl, rfl⟩ | ⟨a, hp, rfl⟩
        · rfl
        · cases hd with
          | transient id obj =>
            obtain ⟨-, -, -, -, hs, -, rfl⟩ := performs_evict_transient.mp hp
            rw [hs]
            rfl
          | persistent pub =>
            obtain ⟨-, -, hs, -, rfl⟩ := performs_evict_persistent.mp hp
            rw [hs]
            simp [evictions, evicted, slotAfter]
          | session s =>
            obtain ⟨rnd, hr, -, -⟩ := hp
            simp [refuses] at hr
      | _ => exact absurd rfl hquiet
    | _ => exact absurd trivial hquiet

/-- **The slot is where the evictions put it.** -/
theorem wp_slot {α : Type} (p : Code α) :
    p.wp (nodeDevice P faults)
      (fun tr _ m' => (evictions tr).foldlM slotAfter m.tpm.slot = some m'.tpm.slot) m := by
  induction p generalizing m with
  | ret a => rfl
  | call c k ih =>
    intro e r m₁ hd
    refine Prog.wp_mono ?_ (ih r)
    intro tr a m₂ h
    show (evictions ([⟨c, r⟩] ++ tr)).foldlM slotAfter m.tpm.slot = some m₂.tpm.slot
    rw [evictions_append, List.foldlM_append, nodeDevice_slot hd]
    exact h

/-! Most code performs no eviction at all, and what does performs it within a null-auth session. The
rules for the two. -/

/-- A program without `TPM2_EvictControl` has no evictions. -/
theorem evictions_of_only {α : Type} {p : Code α} (hp : p.Only (Cmd.quiet TpmCmd.movesSlot)) :
    p.wp (nodeDevice P faults) (fun tr _ _ => evictions tr = []) m := by
  refine Prog.wp_mono ?_ (hp.trace (nodeDevice P faults) m)
  intro tr a m' h
  exact evictions_quiet h

theorem slot_of_only {α : Type} {p : Code α} (hp : p.Only (Cmd.quiet TpmCmd.movesSlot)) :
    p.Moves (nodeDevice P faults) fun m m' => m'.tpm.slot = m.tpm.slot :=
  Prog.Only.unchanged (nodeDevice P faults) (·.tpm.slot)
    (fun _ _ _ _ _ hc hd => (nodeDevice_frame hd).slot hc) hp

/-- A null-auth session adds quiet events around the closure's and may replace its result by an
error, so a property of traces that neither disturbs passes from the closure to the whole. -/
theorem wp_nullauth_quiet {ε α : Type} [FromTss ε] {f : Context → Fallible ε α}
    {Q : List (Event Cmd Cmd.Res) → Except ε α → Prop}
    (hquiet : ∀ pre tr post r, (∀ ev ∈ pre, ev.1.quiet TpmCmd.movesSlot) →
      (∀ ev ∈ post, ev.1.quiet TpmCmd.movesSlot) → Q tr r → Q (pre ++ tr ++ post) r)
    (herr : ∀ e, Q [] (.error e))
    (hbody : (f (ctx.withSession m)).run.wp (nodeDevice P faults)
      (fun tr r _ => Q tr r ∧ ∀ e, Q tr (.error e)) (m.inSession ctx)) :
    (ctx.executeWithNullauthSession f).run.wp (nodeDevice P faults) (fun tr r _ => Q tr r) m := by
  have hfailed : ∀ tr e, (∀ ev ∈ tr, ev.1.quiet TpmCmd.movesSlot) → Q tr (.error e) := by
    intro tr e htr
    simpa using hquiet tr [] [] (.error e) htr (by simp) (herr e)
  have hopen : ∀ ev ∈ nullauthOpen ctx ⟨m.tpm.next, .hmac⟩, ev.1.quiet TpmCmd.movesSlot := by
    simp [nullauthOpen, Cmd.quiet, TpmCmd.movesSlot]
  have hclose : ∀ r, ∀ ev ∈ flushed ctx (.session ⟨m.tpm.next, .hmac⟩) r,
      ev.1.quiet TpmCmd.movesSlot := by
    simp [flushed, Cmd.quiet, TpmCmd.movesSlot]
  refine wp_nullauth ?_ ?_ ?_ ?_
  · exact fun _ e => hfailed _ _ (by simp [Cmd.quiet, TpmCmd.movesSlot])
  · exact fun _ => hfailed _ _ (by simp [Cmd.quiet, TpmCmd.movesSlot])
  · exact fun _ e => hfailed _ _ (by simp [Cmd.quiet, TpmCmd.movesSlot])
  · refine Prog.wp_mono ?_ hbody
    intro tr r m₂ h
    exact ⟨fun _ e => hquiet _ _ _ _ hopen (hclose _) (h.2 _),
      fun _ => hquiet _ _ _ _ hopen (hclose _) h.1⟩

/-- The case of a property of the evictions alone. -/
theorem wp_nullauth_evictions {ε α : Type} [FromTss ε] {f : Context → Fallible ε α}
    {Q : List Handle → Except ε α → Prop} (herr : ∀ e, Q [] (.error e))
    (hbody : (f (ctx.withSession m)).run.wp (nodeDevice P faults)
      (fun tr r _ => Q (evictions tr) r ∧ ∀ e, Q (evictions tr) (.error e)) (m.inSession ctx)) :
    (ctx.executeWithNullauthSession f).run.wp (nodeDevice P faults)
      (fun tr r _ => Q (evictions tr) r) m := by
  refine wp_nullauth_quiet ?_ herr hbody
  intro pre tr post r hpre hpost h
  simpa [evictions_quiet hpre, evictions_quiet hpost] using h

end Slot

namespace Fleet

variable {P : Platform} {faults : TpmCmd → Bool} {m : Machine} {context : Context}

/-! ## The evictions of each function

An eviction is told apart from its call's result: the TPM may have performed it and the call may still
return an error, because closing the session around it has failed. The lemmas therefore say what was
evicted for either result, and not only what a success means. -/

/-- The handle of the slot is in the persistent range, so naming it cannot fail. -/
theorem wp_persistentHandle {α : Type} {f : PersistentTpmHandle → Fallible FleetError α}
    {Q : List (Event Cmd Cmd.Res) → Except FleetError α → Machine → Prop}
    (h : ∀ ph, ph.value = fleetKeyPersistentHandle → (f ph).run.wp (nodeDevice P faults) Q m) :
    (persistentHandle >>= f).run.wp (nodeDevice P faults) Q m := h _ rfl

/-- Looking evicts nothing, and what it finds is what is in the slot. -/
theorem loadFleetKey_evicts :
    (loadFleetKey context).run.wp (nodeDevice P faults)
      (fun tr r _ => evictions tr = [] ∧
        ∀ h, r = .ok h → ∃ k, h = .persistent k ∧ m.tpm.slot = some k) m := by
  refine wp_persistentHandle fun ph _ => ?_
  refine wp_nullauth_evictions (Q := fun es r => es = [] ∧
    ∀ h : Handle, r = .ok h → ∃ k, h = .persistent k ∧ m.tpm.slot = some k) (by simp) ?_
  refine wp_tpmCall.mpr ⟨fun _ e => ⟨⟨rfl, by simp⟩, fun _ => ⟨rfl, by simp⟩⟩, ?_⟩
  intro a m' hp
  obtain ⟨-, ⟨k, hk, rfl⟩, -⟩ := performs_trFromTpmPublic.mp hp
  exact ⟨⟨rfl, fun h heq => ⟨k, (Except.ok.inj heq).symm, hk⟩⟩, fun _ => ⟨rfl, by simp⟩⟩

/-- One eviction in a session of its own: without it the call has failed; with it the call may still
fail, in closing the session. -/
theorem evictControl_evicts (h : Handle) (ph : PersistentTpmHandle) :
    (context.executeWithNullauthSession fun ctx => ctx.evictControl h ph :
      Fallible FleetError Handle).run.wp (nodeDevice P faults)
      (fun tr r _ => (evictions tr = [] ∧ ∃ e, r = .error e) ∨ evictions tr = [h]) m := by
  refine wp_nullauth_evictions
    (Q := fun es r => (es = [] ∧ ∃ e, r = .error e) ∨ es = [h]) (by simp) ?_
  refine wp_tpmCall.mpr ⟨fun _ e => ⟨?_, fun _ => ?_⟩, fun a m' _ => ⟨?_, fun _ => ?_⟩⟩
  · exact .inl ⟨rfl, _, rfl⟩
  · exact .inl ⟨rfl, _, rfl⟩
  · exact .inr rfl
  · exact .inr rfl

theorem persist_evicts (h : Handle) :
    (persist context h).run.wp (nodeDevice P faults)
      (fun tr r _ => (evictions tr = [] ∧ ∃ e, r = .error e) ∨ evictions tr = [h]) m :=
  wp_persistentHandle fun ph _ => evictControl_evicts h ph

/-- Deleting evicts at most one persistent key. -/
theorem deletePersistedFleetKey_evicts :
    (deletePersistedFleetKey context).run.wp (nodeDevice P faults)
      (fun tr _ _ => evictions tr = [] ∨ ∃ k, evictions tr = [.persistent k]) m := by
  unfold deletePersistedFleetKey
  rw [Prog.wp_run_bind, Prog.wp_run_lift]
  refine Prog.wp_mono ?_ loadFleetKey_evicts
  intro tr r m₁ h
  obtain ⟨htr, hr⟩ := h
  cases r with
  | error e => exact .inl (by simpa using htr)
  | ok existing =>
    obtain ⟨k, rfl, -⟩ := hr existing rfl
    refine wp_persistentHandle fun ph _ => ?_
    rw [Prog.wp_run_bind]
    refine Prog.wp_mono ?_ (evictControl_evicts (.persistent k) ph)
    intro tr' r' m₂ h'
    cases r' with
    | error e =>
      rcases h' with ⟨h', -⟩ | h'
      · exact .inl (by simp [htr, h'])
      · exact .inr ⟨k, by simp [htr, h']⟩
    | ok a =>
      rcases h' with ⟨-, e, he⟩ | h'
      · cases he
      · exact .inr ⟨k, by simp [htr, h']⟩

/-! ## Replacing the key

Forced `create_fleet_key` and the end of `import_and_persist` have one shape: delete what is there,
then persist one new key. Their evictions are those of the two halves, each of which may have stopped
before its eviction. What the new key is differs and is a parameter. -/

/-- The evictions of a replacement: first, perhaps, that of a persistent key, then, perhaps, that of
a new one. -/
def Replaces (new : Public → Prop) (es : List Handle) : Prop :=
  ∃ del put, es = del ++ put ∧ (del = [] ∨ ∃ k, del = [.persistent k]) ∧
    (put = [] ∨ ∃ id obj, put = [.transient id obj] ∧ new obj.pub)

/-- The evictions of a tail that puts the new key: without it the call has failed. -/
def Puts (new : Public → Prop) (put : List Handle) (r : Except FleetError Handle) : Prop :=
  (put = [] ∧ ∃ e, r = .error e) ∨ ∃ id obj, put = [.transient id obj] ∧ new obj.pub

/-- A replacement whose call has returned `r`. -/
def ReplacesTo (new : Public → Prop) (es : List Handle) (r : Except FleetError Handle) : Prop :=
  ∃ del put, es = del ++ put ∧ (del = [] ∨ ∃ k, del = [.persistent k]) ∧ Puts new put r

theorem ReplacesTo.replaces {new : Public → Prop} {es : List Handle}
    {r : Except FleetError Handle} (h : ReplacesTo new es r) : Replaces new es := by
  obtain ⟨del, put, rfl, hdel, hput⟩ := h
  refine ⟨del, put, rfl, hdel, ?_⟩
  rcases hput with ⟨rfl, -⟩ | hput
  · exact .inl rfl
  · exact .inr hput

/-- Deleting, and then a tail that puts at most the new key. -/
theorem wp_delete_then {f : Unit → Fallible FleetError Handle}
    {N : List (Event Cmd Cmd.Res) → Public → Prop}
    (hnew : ∀ tr tr' pub, N tr' pub → N (tr ++ tr') pub)
    (hf : ∀ m₁, (f ()).run.wp (nodeDevice P faults)
      (fun tr r _ => Puts (N tr) (evictions tr) r) m₁) :
    (deletePersistedFleetKey context >>= f).run.wp (nodeDevice P faults)
      (fun tr r _ => ReplacesTo (N tr) (evictions tr) r) m := by
  rw [Prog.wp_run_bind]
  refine Prog.wp_mono ?_ deletePersistedFleetKey_evicts
  intro tr r m₁ hdel
  cases r with
  | error e => exact ⟨_, [], (List.append_nil _).symm, hdel, .inl ⟨rfl, e, rfl⟩⟩
  | ok _ =>
    refine Prog.wp_mono ?_ (hf m₁)
    intro tr' r' m₂ hput
    refine ⟨_, _, evictions_append tr tr', hdel, ?_⟩
    rcases hput with hput | ⟨id, obj, hput, hobj⟩
    · exact .inl hput
    · exact .inr ⟨id, obj, hput, hnew tr tr' obj.pub hobj⟩

/-- The primary that `create_fleet_key` makes is one of the run's created keys. -/
theorem createPrimary_evicts (template : Public) :
    (context.executeWithNullauthSession fun ctx => ctx.createPrimary template :
      Fallible FleetError Handle).run.wp (nodeDevice P faults)
      (fun tr r _ => evictions tr = [] ∧
        ∀ h, r = .ok h → ∃ id obj, h = .transient id obj ∧ obj.pub ∈ createdKeys tr) m := by
  refine wp_nullauth_quiet (Q := fun tr r => evictions tr = [] ∧ ∀ h : Handle, r = .ok h →
    ∃ id obj, h = .transient id obj ∧ obj.pub ∈ createdKeys tr) ?_ (by simp) ?_
  · intro pre tr post r hpre hpost h
    refine ⟨by simp [evictions_quiet hpre, evictions_quiet hpost, h.1], fun hd hr => ?_⟩
    obtain ⟨id, obj, heq, hmem⟩ := h.2 hd hr
    exact ⟨id, obj, heq, by simp [hmem]⟩
  · refine wp_tpmCall.mpr ⟨fun _ e => ⟨⟨rfl, by simp⟩, fun _ => ⟨rfl, by simp⟩⟩, ?_⟩
    intro a m' hp
    obtain ⟨-, unique, -, rfl, -⟩ := performs_createPrimary.mp hp
    refine ⟨⟨rfl, fun h heq => ?_⟩, fun _ => ⟨rfl, by simp⟩⟩
    exact ⟨_, _, (Except.ok.inj heq).symm, List.mem_singleton.mpr rfl⟩

/-- Creating puts the created key, or has failed before it could. -/
theorem createAndPersist_evicts :
    (createAndPersist context).run.wp (nodeDevice P faults)
      (fun tr r _ => Puts (· ∈ createdKeys tr) (evictions tr) r) m := by
  unfold createAndPersist
  rw [Prog.wp_run_bind]
  refine Prog.wp_mono ?_ (evictions_of_only
    (duplicableStoragePublic_only (fun _ => Cmd.benign.slot) context))
  intro tr₁ r₁ m₁ h₁
  cases r₁ with
  | error e => exact .inl ⟨h₁, e, rfl⟩
  | ok template =>
    show (_ >>= _ : Fallible FleetError Handle).run.wp _ _ _
    rw [Prog.wp_run_bind]
    refine Prog.wp_mono ?_ (createPrimary_evicts template)
    intro tr₂ r₂ m₂ h₂
    cases r₂ with
    | error e => exact .inl ⟨by simp [h₁, h₂.1], e, rfl⟩
    | ok created =>
      obtain ⟨id, obj, rfl, hobj⟩ := h₂.2 created rfl
      refine Prog.wp_mono ?_ (persist_evicts (.transient id obj))
      intro tr₃ r₃ m₃ h₃
      rcases h₃ with ⟨h₃, he⟩ | h₃
      · exact .inl ⟨by simp [h₁, h₂.1, h₃], he⟩
      · exact .inr ⟨id, obj, by simp [h₁, h₂.1, h₃], by simp [hobj]⟩

theorem createFleetKey_replaces :
    (createFleetKey context true).run.wp (nodeDevice P faults)
      (fun tr r _ => ReplacesTo (· ∈ createdKeys tr) (evictions tr) r) m :=
  wp_delete_then (N := fun tr pub => pub ∈ createdKeys tr)
    (fun _ _ _ h => by simp [h]) fun _ => createAndPersist_evicts

/-- A genesis that is not forced deletes nothing, and creates a key only if it has found none. Where
it creates none it has failed, or there was one. -/
theorem createFleetKey_unforced :
    (createFleetKey context false).run.wp (nodeDevice P faults)
      (fun tr r _ => (∃ k, evictions tr = [] ∧ m.tpm.slot = some k) ∨
        Puts (· ∈ createdKeys tr) (evictions tr) r) m := by
  show (liftM (loadFleetKey context).run >>= _ : Fallible FleetError Handle).run.wp _ _ _
  rw [Prog.wp_run_bind, Prog.wp_run_lift]
  refine Prog.wp_mono ?_ loadFleetKey_evicts
  intro tr r m₁ h
  obtain ⟨htr, hr⟩ := h
  cases r with
  | ok existing =>
    obtain ⟨k, rfl, hk⟩ := hr existing rfl
    exact .inl ⟨k, by simpa using htr, hk⟩
  | error e =>
    -- the probe has failed, for whatever reason: the slot may still be occupied
    refine Prog.wp_mono ?_ createAndPersist_evicts
    intro tr' r' m₂ hput
    rcases hput with ⟨hput, he⟩ | ⟨id, obj, hput, hobj⟩
    · exact .inr (.inl ⟨by simp [htr, hput], he⟩)
    · exact .inr (.inr ⟨id, obj, by simp [htr, hput], by simp [hobj]⟩)

/-! ## Receiving a key

`import_and_persist` deletes the previous key before it persists the new one, but not before the TPM
has taken the new one: what the seed has sent may be anything. -/

/-- `TPM2_Import` of the blob and `TPM2_Load` of what it gave have succeeded in the run. -/
def Landed (tr : List (Event Cmd Cmd.Res)) (blob : DuplicationBlob) : Prop :=
  ∃ ctx parent priv h, (⟨.tpm ctx (.import parent blob.encryptionKey blob.fleetKeyPublic
      blob.duplicatePrivate blob.encryptedSecret duplicationSymmetricAlg), .ok priv⟩ :
        Event Cmd Cmd.Res) ∈ tr ∧
    ⟨.tpm ctx (.load parent priv blob.fleetKeyPublic), .ok h⟩ ∈ tr

theorem Landed.mono {tr tr' : List (Event Cmd Cmd.Res)} {blob : DuplicationBlob}
    (h : Landed tr blob) (hsub : ∀ ev ∈ tr, ev ∈ tr') : Landed tr' blob := by
  obtain ⟨ctx, parent, priv, hd, himport, hload⟩ := h
  exact ⟨ctx, parent, priv, hd, hsub _ himport, hsub _ hload⟩

/-- How `import_and_persist` ends. As long as the blob has not landed nothing is evicted, and the
call can only fail; what comes after that is a replacement. -/
def Imports (blob : DuplicationBlob) (tr : List (Event Cmd Cmd.Res))
    (r : Except FleetError Handle) : Prop :=
  (evictions tr = [] ∧ ∃ e, r = .error e) ∨
    ∃ before after, tr = before ++ after ∧ Landed before blob ∧ evictions before = [] ∧
      ReplacesTo (· = blob.fleetKeyPublic) (evictions after) r

theorem Imports.replaces {blob : DuplicationBlob} {tr : List (Event Cmd Cmd.Res)}
    {r : Except FleetError Handle} (h : Imports blob tr r) :
    ReplacesTo (· = blob.fleetKeyPublic) (evictions tr) r := by
  rcases h with ⟨hev, he⟩ | ⟨before, after, rfl, -, hev, hrep⟩
  · rw [hev]
    exact ⟨[], [], rfl, .inl rfl, .inl ⟨rfl, he⟩⟩
  · rw [evictions_append, hev]
    exact hrep

theorem Imports.landed {blob : DuplicationBlob} {tr : List (Event Cmd Cmd.Res)}
    {r : Except FleetError Handle} (h : Imports blob tr r) :
    (evictions tr = [] ∧ ∃ e, r = .error e) ∨ Landed tr blob := by
  rcases h with h | ⟨before, after, rfl, hland, -⟩
  · exact .inl h
  · exact .inr (hland.mono fun _ hev => List.mem_append_left _ hev)

/-- Importing and loading evicts nothing, and what it loads has the public area of the blob. -/
theorem importAndLoad_evicts (ctx : Context) (transportKeyHandle : Handle)
    (blob : DuplicationBlob) :
    (importAndLoad ctx transportKeyHandle blob).run.wp (nodeDevice P faults)
      (fun tr r _ => evictions tr = [] ∧ ∀ h, r = .ok h → Landed tr blob ∧
        ∃ id obj, h = .transient id obj ∧ obj.pub = blob.fleetKeyPublic) m := by
  unfold importAndLoad
  rw [Prog.wp_run_bind]
  refine wp_tpmCall.mpr ⟨fun _ e => ⟨rfl, by simp⟩, fun priv m₁ _ => ?_⟩
  refine wp_tpmCall.mpr ⟨fun _ e => ⟨rfl, by simp⟩, fun a m₂ hload => ⟨rfl, fun h heq => ?_⟩⟩
  refine ⟨⟨ctx, transportKeyHandle, priv, a, by simp, by simp⟩, ?_⟩
  obtain ⟨-, t, o, -, ho, rfl, -⟩ := performs_load.mp hload
  exact ⟨_, _, (Except.ok.inj heq).symm, o.load_pub.trans (Ledger.findObject_eq ho).2.2.1⟩

/-- What `import_and_persist` does after it has deleted the previous key. -/
theorem persistTail_evicts {id : Nat} {obj : Obj} (transportKeyHandle : Handle) :
    (do let persisted ← persist context (.transient id obj)
        context.executeWithNullauthSession fun ctx => ctx.flushContext transportKeyHandle
        return persisted : Fallible FleetError Handle).run.wp (nodeDevice P faults)
      (fun tr r _ => Puts (· = obj.pub) (evictions tr) r) m := by
  rw [Prog.wp_run_bind]
  refine Prog.wp_mono ?_ (persist_evicts (.transient id obj))
  intro tr₁ r₁ m₁ h₁
  cases r₁ with
  | error e =>
    rcases h₁ with ⟨h₁, -⟩ | h₁
    · exact .inl ⟨h₁, e, rfl⟩
    · exact .inr ⟨id, obj, h₁, rfl⟩
  | ok persisted =>
    have htr : evictions tr₁ = [.transient id obj] := by
      rcases h₁ with ⟨-, e, he⟩ | h₁
      · cases he
      · exact h₁
    have hflush : Prog.Only (Cmd.quiet TpmCmd.movesSlot)
        (do context.executeWithNullauthSession fun ctx => ctx.flushContext transportKeyHandle
            return persisted : Fallible FleetError Handle).run :=
      Prog.Only.run_bind (only_nullauth_benign (fun _ => Cmd.benign.slot)
        fun _ => only_tpmCall rfl) fun _ => trivial
    refine Prog.wp_mono ?_ (evictions_of_only hflush)
    intro tr₂ r₂ m₂ h₂
    exact .inr ⟨id, obj, by simp [htr, h₂], rfl⟩

/-- **The order of `import_and_persist`**: the blob lands, and only then the slot is touched. -/
theorem importAndPersist_imports (transportKeyHandle : Handle) (blob : DuplicationBlob) :
    (importAndPersist context transportKeyHandle blob).run.wp (nodeDevice P faults)
      (fun tr r _ => Imports blob tr r) m := by
  unfold importAndPersist
  rw [Prog.wp_run_bind]
  refine Prog.wp_mono ?_ (evictions_of_only (startSession_only (fun _ => Cmd.benign.slot) context _))
  intro tr₁ r₁ m₁ h₁
  cases r₁ with
  | error e => exact .inl ⟨h₁, e, rfl⟩
  | ok session =>
    show (_ >>= _ : Fallible FleetError Handle).run.wp _ _ _
    rw [Prog.wp_run_bind, Prog.wp_run_lift]
    refine Prog.wp_mono ?_ (importAndLoad_evicts _ transportKeyHandle blob)
    intro tr₂ result m₂ h₂
    obtain ⟨hev, hok⟩ := h₂
    show (_ >>= _ : Fallible FleetError Handle).run.wp _ _ _
    rw [Prog.wp_run_bind]
    refine wp_tpmCall.mpr ⟨fun _ e => .inl ⟨by simp [h₁, hev], _, rfl⟩, fun a m₃ _ => ?_⟩
    cases result with
    | error e => exact .inl ⟨by simp [h₁, hev], e, rfl⟩
    | ok h =>
      obtain ⟨hland, id, obj, rfl, hobj⟩ := hok h rfl
      have hsame : (fun pub => pub = obj.pub) = fun pub => pub = blob.fleetKeyPublic := by rw [hobj]
      refine Prog.wp_mono ?_ (wp_delete_then (N := fun _ pub => pub = obj.pub) (fun _ _ _ h => h)
        fun m₄ => persistTail_evicts transportKeyHandle)
      intro tr₃ r₃ m₄ h₃
      rw [hsame] at h₃
      refine .inr ⟨tr₁ ++ tr₂ ++ [⟨.tpm context (.flushContext (.session session)), .ok a⟩], tr₃,
        by simp, hland.mono ?_, by simp [h₁, hev], h₃⟩
      intro ev hmem
      simp [hmem]

/-! ## Where the slot ends up

`slotAfter` run along the evictions of a replacement, from an occupied slot. The possible lists are
few: the order is fixed, and evicting a new key into an occupied slot is refused. -/

/-- Where a call that has put its key leaves the slot. -/
theorem Puts.slot {new : Public → Prop} {es : List Handle} {r : Except FleetError Handle}
    {h : Handle} {slot₀ slot : Option Public} (hput : Puts new es r) (hr : r = .ok h)
    (hslot : es.foldlM slotAfter slot₀ = some slot) : ∃ pub, new pub ∧ slot = some pub := by
  subst hr
  rcases hput with ⟨-, e, he⟩ | ⟨id, obj, rfl, hobj⟩
  · cases he
  · cases slot₀ with
    | none => exact ⟨obj.pub, hobj, by simpa [slotAfter, eq_comm] using hslot⟩
    | some k => cases hslot

theorem ReplacesTo.slot {new : Public → Prop} {es : List Handle} {r : Except FleetError Handle}
    {h : Handle} {slot₀ slot : Option Public} (hrep : ReplacesTo new es r) (hr : r = .ok h)
    (hslot : es.foldlM slotAfter slot₀ = some slot) : ∃ pub, new pub ∧ slot = some pub := by
  obtain ⟨del, put, rfl, -, hput⟩ := hrep
  rw [List.foldlM_append] at hslot
  obtain ⟨slot₁, -, hslot⟩ := Option.bind_eq_some_iff.mp hslot
  exact hput.slot hr hslot

/-- Where a replacement leaves a slot that was occupied. -/
theorem Replaces.slot {new : Public → Prop} {es : List Handle} {k : Public} {slot : Option Public}
    (h : Replaces new es) (hslot : es.foldlM slotAfter (some k) = some slot) :
    (es = [] ∧ slot = some k) ∨ (es = [.persistent k] ∧ slot = none) ∨
      ∃ id obj, es = [.persistent k, .transient id obj] ∧ new obj.pub ∧ slot = some obj.pub := by
  obtain ⟨del, put, rfl, hdel, hput⟩ := h
  rcases hdel with rfl | ⟨k', rfl⟩
  · rcases hput with rfl | ⟨id, obj, rfl, -⟩
    · exact .inl ⟨rfl, (Option.some.inj hslot).symm⟩
    · -- the slot is occupied: `persist` alone is refused
      cases hslot
  · by_cases hk : k' = k
    · subst hk
      rcases hput with rfl | ⟨id, obj, rfl, hobj⟩
      · exact .inr (.inl ⟨rfl, by simpa [slotAfter, eq_comm] using hslot⟩)
      · exact .inr (.inr ⟨id, obj, rfl, hobj, by simpa [slotAfter, eq_comm] using hslot⟩)
    · simp [slotAfter, hk] at hslot

/-- The previous key was deleted, the blob having landed by then, and none was put in its place. -/
def Emptied (tr : List (Event Cmd Cmd.Res)) (k : Public) (blob : DuplicationBlob) : Prop :=
  ∃ before after, tr = before ++ after ∧ Landed before blob ∧ evictions before = [] ∧
    evictions after = [.persistent k]

/-- Where a replacement leaves the slot: it is empty if the deletion is all that was done, and holds
the previous key or a new one otherwise. -/
theorem Replaces.slot_empty_iff {new : Public → Prop} {es : List Handle} {k : Public}
    {slot : Option Public} (h : Replaces new es)
    (hslot : es.foldlM slotAfter (some k) = some slot) :
    (slot = none ↔ es = [.persistent k]) ∧
      (slot = some k ∨ (∃ pub, new pub ∧ slot = some pub) ∨ slot = none) := by
  rcases h.slot hslot with ⟨rfl, rfl⟩ | ⟨rfl, rfl⟩ | ⟨id, obj, rfl, hnew, rfl⟩
  · simp
  · simp
  · exact ⟨by simp, .inr (.inl ⟨_, hnew, rfl⟩)⟩

/-- Only a blob that has landed moves the slot. -/
theorem Imports.slot {blob : DuplicationBlob} {tr : List (Event Cmd Cmd.Res)}
    {r : Except FleetError Handle} {k : Public} {slot : Option Public} (h : Imports blob tr r)
    (hslot : (evictions tr).foldlM slotAfter (some k) = some slot) :
    (slot ≠ some k → Landed tr blob) ∧ (slot = none ↔ Emptied tr k blob) := by
  have hiff := (h.replaces.replaces.slot_empty_iff hslot).1
  constructor
  · intro hne
    rcases h.landed with ⟨hev, -⟩ | hland
    · rw [hev] at hslot
      exact absurd (Option.some.inj hslot).symm hne
    · exact hland
  · constructor
    · intro hnone
      rcases h with ⟨hev, -⟩ | ⟨before, after, rfl, hland, hev, -⟩
      · rw [hev] at hiff
        cases hiff.mp hnone
      · refine ⟨before, after, rfl, hland, hev, ?_⟩
        simpa [hev] using hiff.mp hnone
    · rintro ⟨before, after, rfl, -, hbefore, hafter⟩
      exact hiff.mpr (by simp [hbefore, hafter])

end Fleet

/-- **Replacing the fleet key, with any commands failing.** When `import_and_persist` or a forced
`create_fleet_key` returns an error, the slot holds the previous key or the new one, unless the
eviction of the previous key was the last one to succeed: then, and only then, it is empty. In
`import_and_persist` that eviction comes after `TPM2_Import` and `TPM2_Load`, so a blob that does not
land leaves the previous key where it is. -/
theorem replacing_keeps_key (P : Platform) (m m' : Machine) (context : Context) (k : Public)
    (hk : m.tpm.slot = some k) (es : List Choice) (tr : List (Event Cmd Cmd.Res))
    (e : FleetError) :
    (∀ (transportKeyHandle : Handle) (blob : DuplicationBlob),
      (Fleet.importAndPersist context transportKeyHandle blob).run.exec (nodeDevice P anyFault)
          m es = some (.error e, m', tr) →
        (m'.tpm.slot = some k ∨ m'.tpm.slot = some blob.fleetKeyPublic ∨ m'.tpm.slot = none) ∧
        (m'.tpm.slot ≠ some k → Fleet.Landed tr blob) ∧
        (m'.tpm.slot = none ↔ Fleet.Emptied tr k blob)) ∧
    ((Fleet.createFleetKey context true).run.exec (nodeDevice P anyFault)
          m es = some (.error e, m', tr) →
        (m'.tpm.slot = some k ∨ (∃ new, new ∈ createdKeys tr ∧ m'.tpm.slot = some new) ∨
          m'.tpm.slot = none) ∧
        (m'.tpm.slot = none ↔ evictions tr = [.persistent k])) := by
  refine ⟨fun transportKeyHandle blob hrun => ?_, fun hrun => ?_⟩
  · have hslot := Prog.wp_sound (wp_slot _) hrun
    rw [hk] at hslot
    have himports := Prog.wp_sound (Fleet.importAndPersist_imports transportKeyHandle blob) hrun
    refine ⟨?_, himports.slot hslot⟩
    simpa using (himports.replaces.replaces.slot_empty_iff hslot).2
  · have hslot := Prog.wp_sound (wp_slot _) hrun
    rw [hk] at hslot
    exact (Fleet.Replaces.slot_empty_iff
      (Prog.wp_sound Fleet.createFleetKey_replaces hrun).replaces hslot).symm

/-- A machine with a fleet key and, loaded, the transport key of a join. -/
def rejoiningMachine : Machine where
  tpm :=
    { ownerSeed := fun _ => none
      slot := some someFleetKey
      objects := [⟨0, 0, .key { someFleetKey with unique := [9] }⟩]
      next := 1
      objects_lt := by simp
      sessions_lt := by simp }

def receivedBlob : DuplicationBlob where
  fleetKeyPublic := { someFleetKey with unique := [6] }
  duplicatePrivate := ⟨[]⟩
  encryptedSecret := ⟨[]⟩
  encryptionKey := none

/-- The last command of a rejoin, closing the transport key, fails: the blob has landed, and its key
is in the slot. -/
theorem replacing_keeps_key_rejoin :
    ∃ e m' tr, (Fleet.importAndPersist { id := 0 } (.transient 0 (.key
          { someFleetKey with unique := [9] })) receivedBlob).run.exec (nodeDevice .plain anyFault)
        rejoiningMachine (List.replicate 17 (.ok {}) ++ [.fail (.rc 0x922)]) =
          some (.error e, m', tr) ∧
      Fleet.Landed tr receivedBlob ∧ m'.tpm.slot = some receivedBlob.fleetKeyPublic := by
  have hrun : ∃ e m' tr, (Fleet.importAndPersist { id := 0 } (.transient 0 (.key
          { someFleetKey with unique := [9] })) receivedBlob).run.exec (nodeDevice .plain anyFault)
        rejoiningMachine (List.replicate 17 (.ok {}) ++ [.fail (.rc 0x922)]) =
          some (.error e, m', tr) ∧ (evictions tr).length = 2 ∧ m'.tpm.slot ≠ some someFleetKey :=
    ⟨_, _, _, rfl, by decide, by decide⟩
  obtain ⟨e, m', tr, hx, hev, hne⟩ := hrun
  obtain ⟨hslot, hland, hempty⟩ := (replacing_keeps_key .plain rejoiningMachine m' { id := 0 }
    someFleetKey rfl _ tr e).1 _ _ hx
  have hfull : m'.tpm.slot ≠ none := by
    rw [ne_eq, hempty]
    rintro ⟨before, after, rfl, -, hbefore, hafter⟩
    simp [hbefore, hafter] at hev
  exact ⟨e, m', tr, hx, hland hne, (hslot.resolve_left hne).resolve_right hfull⟩

/-- A rejoin, and a forced genesis, in which the previous key is deleted and the next command fails:
both return an error, and the slot is empty. -/
theorem replacing_loses_key :
    (∃ e m' tr, (Fleet.importAndPersist { id := 0 } (.transient 0 (.key
          { someFleetKey with unique := [9] })) receivedBlob).run.exec (nodeDevice .plain anyFault)
        rejoiningMachine (List.replicate 13 (.ok {}) ++ [.fail (.rc 0x922)]) =
          some (.error e, m', tr) ∧
      rejoiningMachine.tpm.slot = some someFleetKey ∧ m'.tpm.slot = none) ∧
    ∃ e m' tr, (Fleet.createFleetKey { id := 0 } true).run.exec (nodeDevice .plain anyFault)
        rejoiningMachine (List.replicate 8 (.ok {}) ++ [.fail (.rc 0x922)]) =
          some (.error e, m', tr) ∧
      rejoiningMachine.tpm.slot = some someFleetKey ∧ m'.tpm.slot = none :=
  ⟨⟨_, _, _, rfl, rfl, rfl⟩, ⟨_, _, _, rfl, rfl, rfl⟩⟩

end Sceau
