import Sceau.Enroll.Sequence
import Sceau.Fleet.Litter

/-!
# Erasing the requests that were not served

A request that fails or is rejected gives its permit back, if it had one, and otherwise only litters
the TPM. So the run in which it never came goes on beside the run in which it did: the same permits
left, the same Nodes, the lock free, and a TPM that is the other one without the litter. A request
that is served in the one is then served in the other, with the same answer, on the same choices of
TPM and cluster. The last theorem puts this together with the counter.
-/

set_option autoImplicit false

namespace Sceau

open Lib

/-! ## Litter, and who is served regardless

What a handler does to the TPM, whatever it returns, is litter; and one that is served shows that the
fleet key was there from the start. The device is that of a window in which the Nodes may change
before every command. -/

section Litter

variable (P : Platform) (self : EnrollService) (request : Request)

theorem clusterDevice_tpm {ctx : Context} {c : TpmCmd} {s : EnrollState}
    {e : List String × Choice} :
    clusterDevice P (.tpm ctx c) s e = (nodeDevice P anyFault (.tpm ctx c) s.machine e.2).map
      fun x => (x.1, { s with nodes := e.1, machine := x.2 }) := rfl

/-- A command of the duplication is a step of the TPM. -/
theorem clusterDevice_wraps {c : Cmd} {s s' : EnrollState} {e : List String × Choice} {r : c.Res}
    (hc : c.wraps) (hd : clusterDevice P c s e = some (r, s')) :
    nodeDevice P anyFault c s.machine e.2 = some (r, s'.machine) := by
  cases c with
  | tpm ctx c =>
    rw [clusterDevice_tpm] at hd
    obtain ⟨x, hx, heq⟩ := Option.map_eq_some_iff.mp hd
    simp only [Prod.mk.injEq] at heq
    obtain ⟨rfl, rfl⟩ := heq
    exact hx
  | _ => exact hc.elim

/-- Only TPM commands reach the machine. -/
theorem clusterDevice_machine {c : Cmd} {s s' : EnrollState} {e : List String × Choice} {r : c.Res}
    (hc : ∀ ctx c', c ≠ .tpm ctx c') (hd : clusterDevice P c s e = some (r, s')) :
    s'.machine = s.machine :=
  (enrollDevice_frame hd).machine hc

/-- The machine after is the machine before, littered. -/
def LittersMachine (service : EnrollService) (s s' : EnrollState) : Prop :=
  Littered service.context service.fleetKeyHandle s.machine s'.machine

/-- **A request litters**, however it ends. -/
theorem duplicate_litters :
    (self.duplicate P request).Moves (clusterDevice P) (LittersMachine self) := by
  have hissue : ∀ c : Cmd, (∀ ctx c', c ≠ .tpm ctx c') →
      (issue c).Moves (clusterDevice P) (LittersMachine self) := by
    intro c hc s e r s' hd
    show Littered _ _ s.machine s'.machine
    rw [clusterDevice_machine P hc hd]
    exact .refl _ _ _
  refine duplicate_closed P self request
    (Prog.moves_closed _ (fun s => .refl _ _ s.machine) fun _ _ _ => .trans)
    (fun _ => hissue _ (by simp)) (hissue _ (by simp)) (hissue _ (by simp)) ?_
    (hissue _ (by simp)) (hissue _ (by simp)) (hissue _ (by simp))
  intro pub
  refine Prog.Only.moves _ (fun s => .refl _ _ s.machine) (fun _ _ _ => .trans) ?_
    (Fleet.duplicateForJoiner_wraps self.context self.fleetKeyHandle pub)
  intro c s e r s' hc hd
  exact nodeDevice_wraps hc (clusterDevice_wraps P hc hd)

/-- The fleet key is behind the service's handle. -/
def HoldsKey (service : EnrollService) (m : Machine) : Prop :=
  ∃ key, m.resolve service.context service.fleetKeyHandle = some (.key key)

theorem lockedDuplicate_key (joinerPublic : Public) (s : EnrollState) :
    Prog.wpOk (clusterDevice P) (self.lockedDuplicate joinerPublic)
      (fun _ _ => HoldsKey self s.machine) s := by
  unfold EnrollService.lockedDuplicate
  apply Prog.wpOk_bind
  apply Prog.wp_run_lift.mpr
  intro e locked s₁ hlock lock heq
  cases heq
  have hsame : s₁.machine = s.machine := clusterDevice_machine P (by simp) hlock
  cases locked with
  | error _ =>
    intro blob hblob
    cases hblob
  | ok _ =>
    have hdup : (Fleet.duplicateForJoiner self.context self.fleetKeyHandle joinerPublic).run.wp
        (clusterDevice P) (fun _ r _ => ∀ blob, r = .ok blob → HoldsKey self s₁.machine) s₁ := by
      refine Prog.Only.wp_simulate EnrollState.machine Prod.snd ?_ (Fleet.duplicateForJoiner_wraps _ _ _)
        (@Fleet.duplicateForJoiner_key P anyFault s₁.machine self.context self.fleetKeyHandle
          joinerPublic)
      intro c t f r t' hc hd
      exact clusterDevice_wraps P hc hd
    apply Prog.wpOk_bind
    apply Prog.wp_run_lift.mpr
    refine Prog.wp_mono ?_ hdup
    intro _ blob s₂ hkey blob' heq
    cases heq
    apply Prog.wpOk_bind
    apply Prog.wp_always
    intro _ _ s₃ _ _
    cases blob with
    | error err =>
      intro _ hblob
      cases hblob
    | ok blob =>
      intro _ _
      rw [← hsame]
      exact hkey blob rfl

/-- Who is served is served a duplicate of a key that was there when the request came. -/
theorem handleDuplicate_key (s : EnrollState) :
    Prog.wpOk (clusterDevice P) (self.handleDuplicate P request)
      (fun _ _ => HoldsKey self s.machine) s := by
  show (self.handleDuplicate P request).run.wp _ _ _
  rw [handleDuplicate_eq]
  split
  · intro response heq
    cases heq
  · rename_i n _
    intro e r s₁ hnode
    have hsame : s₁.machine = s.machine := clusterDevice_machine P (by simp) hnode
    cases r with
    | error _ =>
      intro response heq
      cases heq
    | ok _ =>
      show Prog.wpOk (clusterDevice P) (self.serveDuplicate P request)
        (fun _ _ => HoldsKey self s.machine) s₁
      rw [← hsame]
      unfold EnrollService.serveDuplicate
      split
      · intro response heq
        cases heq
      · rename_i joinerPublic _
        apply Prog.wpOk_bind
        refine Prog.wp_mono ?_ (lockedDuplicate_key P self joinerPublic s₁)
        intro _ r s₂ hkey blob heq
        exact Prog.wp_always _ fun _ _ _ _ _ => hkey blob heq

/-! ## The same request, without what went before

A handler on the window as it is and on the window without the requests that were not served: the same
permit, the same lookup, the lock free in both, and `duplicate_for_joiner` as `Fleet/Litter.lean` has
it. -/

/-- The state of the run without the failed and rejected requests, as far as a request that is about
to be served is concerned. -/
structure Beside (service : EnrollService) (key : Public) (s t : EnrollState) : Prop where
  keyed : Keyed service.context service.fleetKeyHandle key s.machine t.machine
  unlocked : t.locked = false

/-- A lock that was there to be taken is there in the other run too. -/
theorem lockContext_mirrors {s t : EnrollState} {Q : Except Unit Unit → EnrollState →
      Except Unit Unit → EnrollState → Prop} (hfree : t.locked = false)
    (hok : ∀ nodes, Q (.ok ()) { s with nodes, locked := true } (.ok ())
      { t with nodes, locked := true })
    (herr : ∀ nodes, Q (.error ()) { s with nodes } (.error ()) { t with nodes }) :
    Prog.Mirrors (clusterDevice P) (clusterDevice P) (issue .lockContext) (issue .lockContext) Q
      s t := by
  rintro ⟨nodes, e⟩ r s₁ hd
  cases e with
  | io succeeds =>
    simp only [clusterDevice, enrollDevice] at hd
    split at hd
    · cases hd
    cases succeeds with
    | true =>
      simp only [if_true, Option.some.injEq, Prod.mk.injEq] at hd
      obtain ⟨rfl, rfl⟩ := hd
      exact ⟨.ok (), { t with nodes, locked := true }, by simp [clusterDevice, enrollDevice, hfree],
        hok nodes⟩
    | false =>
      simp only [Bool.false_eq_true, if_false, Option.some.injEq, Prod.mk.injEq] at hd
      obtain ⟨rfl, rfl⟩ := hd
      exact ⟨.error (), { t with nodes }, by simp [clusterDevice, enrollDevice, hfree], herr nodes⟩
  | _ => cases hd

theorem unlockContext_mirrors {s t : EnrollState} {Q : Unit → EnrollState → Unit → EnrollState →
      Prop}
    (hok : ∀ nodes, Q () { s with nodes, locked := false } () { t with nodes, locked := false }) :
    Prog.Mirrors (clusterDevice P) (clusterDevice P) (issue .unlockContext) (issue .unlockContext)
      Q s t := by
  rintro ⟨nodes, e⟩ r s₁ hd
  cases e with
  | io _ =>
    simp only [clusterDevice, enrollDevice, Option.some.injEq, Prod.mk.injEq] at hd
    obtain ⟨-, rfl⟩ := hd
    exact ⟨(), { t with nodes, locked := false }, rfl, hok nodes⟩
  | _ => cases hd

/-- The duplication, seen from the process: only the TPM is asked. -/
theorem hostedDuplicate_mirrors {key : Public} {s t : EnrollState}
    (hk : Keyed self.context self.fleetKeyHandle key s.machine t.machine) (joinerPublic : Public) :
    Prog.Mirrors (clusterDevice P) (clusterDevice P)
      (Fleet.duplicateForJoiner self.context self.fleetKeyHandle joinerPublic).run
      (Fleet.duplicateForJoiner self.context self.fleetKeyHandle joinerPublic).run
      (fun r s' r' t' => r' = r ∧
        Keyed self.context self.fleetKeyHandle key s'.machine t'.machine) s t := by
  refine Prog.Mirrors.host EnrollState.machine Prod.snd
    (fun s e m => { s with nodes := e.1, machine := m }) ?_ (fun _ _ _ => rfl)
    (Fleet.duplicateForJoiner_wraps _ _ _) (Fleet.duplicateForJoiner_wraps _ _ _)
    (duplicateForJoiner_mirrors (P := P) hk joinerPublic)
  intro c s e hc
  cases c with
  | tpm ctx c => exact clusterDevice_tpm P
  | _ => exact hc.elim

theorem lockedDuplicate_mirrors {key : Public} {s t : EnrollState} (hb : Beside self key s t)
    (joinerPublic : Public) :
    Prog.Mirrors (clusterDevice P) (clusterDevice P) (self.lockedDuplicate joinerPublic).run
      (self.lockedDuplicate joinerPublic).run
      (fun r s' r' t' => r' = r ∧ Beside self key s' t') s t := by
  unfold EnrollService.lockedDuplicate
  apply Prog.Mirrors.run_bind
  apply Prog.Mirrors.run_lift
  refine lockContext_mirrors P hb.unlocked (fun nodes => ?_)
    (fun nodes => ⟨rfl, hb.keyed, hb.unlocked⟩)
  apply Prog.Mirrors.run_bind
  apply Prog.Mirrors.run_lift
  refine (hostedDuplicate_mirrors P self (s := { s with nodes, locked := true })
    (t := { t with nodes, locked := true }) hb.keyed joinerPublic).mono ?_
  rintro _ s₁ blob t₁ ⟨rfl, hk⟩
  apply Prog.Mirrors.run_bind
  apply Prog.Mirrors.run_lift
  apply unlockContext_mirrors
  intro nodes
  cases blob with
  | error err => exact ⟨rfl, hk, rfl⟩
  | ok blob => exact ⟨rfl, hk, rfl⟩

/-- The Node lookup succeeds for a Node that is there, in either run. -/
theorem getNode_mirrors {n : String} {s t : EnrollState} {Q : Except Unit Unit → EnrollState →
      Except Unit Unit → EnrollState → Prop}
    (h : ∀ r nodes, Q r { s with nodes } r { t with nodes }) :
    Prog.Mirrors (clusterDevice P) (clusterDevice P) (issue (.getNode n)) (issue (.getNode n)) Q
      s t := by
  rintro ⟨nodes, e⟩ r s₁ hd
  cases e with
  | io succeeds =>
    refine ⟨r, { t with nodes }, ?_, ?_⟩
    · simp only [clusterDevice, enrollDevice] at hd ⊢
      repeat' split at hd
      all_goals simp only [Option.some.injEq, Prod.mk.injEq, reduceCtorEq] at hd
      all_goals obtain ⟨rfl, -⟩ := hd
      all_goals simp_all
    · simp only [clusterDevice, enrollDevice] at hd
      repeat' split at hd
      all_goals simp only [Option.some.injEq, Prod.mk.injEq, reduceCtorEq] at hd
      all_goals obtain ⟨-, rfl⟩ := hd
      all_goals exact h r nodes
  | _ => cases hd

theorem handleDuplicate_mirrors {key : Public} {s t : EnrollState} (hb : Beside self key s t) :
    Prog.Mirrors (clusterDevice P) (clusterDevice P) (self.handleDuplicate P request).run
      (self.handleDuplicate P request).run
      (fun r s' r' t' => r' = r ∧ Beside self key s' t') s t := by
  rw [handleDuplicate_eq]
  split
  · exact ⟨rfl, hb⟩
  · rename_i n _
    show Prog.Mirrors _ _ ((issue (.getNode n)).bind _) ((issue (.getNode n)).bind _) _ _ _
    apply Prog.Mirrors.bind
    apply getNode_mirrors
    intro r nodes
    have hb' : Beside self key { s with nodes } { t with nodes } := ⟨hb.keyed, hb.unlocked⟩
    cases r with
    | error _ => exact ⟨rfl, hb'⟩
    | ok _ =>
      show Prog.Mirrors _ _ (self.serveDuplicate P request).run
        (self.serveDuplicate P request).run _ _ _
      unfold EnrollService.serveDuplicate
      split
      · exact ⟨rfl, hb'⟩
      · rename_i joinerPublic _
        apply Prog.Mirrors.run_bind
        refine (lockedDuplicate_mirrors P self hb' joinerPublic).mono ?_
        rintro _ s₁ r t₁ ⟨rfl, hb₁⟩
        cases r with
        | error status => exact ⟨rfl, hb₁⟩
        | ok blob =>
          show Prog.Mirrors _ _ (EnrollService.response P blob).run
            (EnrollService.response P blob).run _ _ _
          unfold EnrollService.response
          split
          · exact ⟨rfl, hb₁⟩
          · exact ⟨rfl, hb₁⟩

/-- What a handler may do last, to the counter or to `done`. -/
theorem lastly_mirrors {key : Public} {s t : EnrollState} (hb : Beside self key s t) {c : Cmd}
    (hc : c = .fetchAdd ∨ c = .notifyOne) (a : Answer) :
    Prog.Mirrors (clusterDevice P) (clusterDevice P) (.call c fun _ => .ret a)
      (.call c fun _ => .ret a) (fun a s' b t' => b = a ∧ Beside self key s' t') s t := by
  rintro ⟨nodes, e⟩ r s₁ hd
  cases e with
  | io _ =>
    rcases hc with rfl | rfl
    · obtain rfl := enrollDevice_fetchAdd hd
      exact ⟨(), _, rfl, rfl, hb.keyed, hb.unlocked⟩
    · obtain rfl := enrollDevice_notifyOne hd
      exact ⟨(), _, rfl, rfl, hb.keyed, hb.unlocked⟩
  | _ =>
    rcases hc with rfl | rfl
    · cases hd
    · cases hd

/-- **The same request in both runs**: with the same permits left, the same answer. -/
theorem duplicate_mirrors {key : Public} {s t : EnrollState} (hb : Beside self key s t)
    (hrem : t.remaining = s.remaining) :
    Prog.Mirrors (clusterDevice P) (clusterDevice P) (self.duplicate P request)
      (self.duplicate P request) (fun a s' b t' => b = a ∧ Beside self key s' t') s t := by
  rw [duplicate_eq]
  rintro ⟨nodes, e⟩ permitsBefore s₁ hd
  cases e with
  | io _ =>
    simp only [clusterDevice, enrollDevice, Option.some.injEq, Prod.mk.injEq] at hd
    obtain ⟨rfl, rfl⟩ := hd
    refine ⟨s.remaining, { t with nodes, remaining := t.remaining - 1 }, ?_, ?_⟩
    · simp only [clusterDevice, enrollDevice, hrem]
    show Prog.Mirrors _ _ (if s.remaining = 0 then _ else _) (if s.remaining = 0 then _ else _) _ _ _
    have hb' : Beside self key { s with nodes, remaining := s.remaining - 1 }
        { t with nodes, remaining := t.remaining - 1 } := ⟨hb.keyed, hb.unlocked⟩
    split
    · exact lastly_mirrors P self hb' (.inl rfl) _
    · apply Prog.Mirrors.bind
      refine (handleDuplicate_mirrors P self request hb').mono ?_
      rintro _ s₁ handled t₁ ⟨rfl, hb₁⟩
      cases handled with
      | error status =>
        rw [settle_error]
        exact lastly_mirrors P self hb₁ (.inl rfl) _
      | ok response =>
        rw [settle_ok]
        split
        · exact lastly_mirrors P self hb₁ (.inr rfl) _
        · exact ⟨rfl, hb₁⟩
  | _ => cases hd

theorem duplicate_key (s : EnrollState) :
    Prog.wpOk (clusterDevice P) (ExceptT.mk (self.duplicate P request))
      (fun _ _ => HoldsKey self s.machine) s := by
  show (self.duplicate P request).wp _ _ _
  rw [duplicate_eq]
  intro e permitsBefore s₁ hsub
  have hsame : s₁.machine = s.machine := clusterDevice_machine P (by simp) hsub
  show Prog.wp _ (if permitsBefore = 0 then _ else _) _ _
  split
  · intro _ _ s₂ _ response heq
    cases heq
  · apply Prog.wp_bind.mpr
    refine Prog.wp_mono ?_ (handleDuplicate_key P self request s₁)
    intro tr handled s₂ hkey
    rw [hsame] at hkey
    cases handled with
    | error status =>
      intro _ _ s₃ _ response heq
      cases heq
    | ok response =>
      exact Prog.wp_always _ fun _ _ _ _ _ => hkey response rfl

end Litter

/-! ## Runs

One request after the other. A request that is not served changes nothing that `Erased` looks at; one
that is served is served in the other run too, and its answer is added to both. -/

section Runs

variable {P : Platform} {service : EnrollService} {w w' : Window} {v : Visit}

/-- The window of the run without the failed and rejected requests. -/
structure Erased (service : EnrollService) (w w' : Window) : Prop where
  remaining : w'.state.remaining = w.state.remaining
  litter : Littered service.context service.fleetKeyHandle w'.state.machine w.state.machine
  unlocked : w'.state.locked = false
  answers : w'.handled.map Handled.answer = (w.handled.filter Handled.served).map Handled.answer

/-- Only a served request takes a permit. -/
theorem duplicate_remaining {s s' : EnrollState} {a : Answer} {tr : List (Event Cmd Cmd.Res)}
    {es : List (List String × Choice)} {request : Request}
    (hx : (service.duplicate P request).exec (clusterDevice P) s es = some (a, s', tr)) :
    s'.remaining.toNat + (Handled.served ⟨a, tr⟩).toNat = s.remaining.toNat := by
  obtain ⟨n', hq, hrem, -⟩ :=
    Prog.wp_sound (duplicate_quota P service request s (Nat.add_zero _)) hx
  have hn' := hq.served_eq
  omega

/-- **A request that was served** is served in the run without the others too. -/
theorem serve_erased_served (he : Erased service w w') {r : DuplicateResponse} {s' : EnrollState}
    {tr : List (Event Cmd Cmd.Res)}
    (hx : (service.duplicate P v.request).exec (clusterDevice P) w.state v.choices =
      some (.ok r, s', tr)) :
    ∃ w₁', w'.serve P service v = some w₁' ∧
      Erased service { state := s', handled := w.handled ++ [⟨.ok r, tr⟩] } w₁' := by
  obtain ⟨key, hkey⟩ := Prog.wp_sound (duplicate_key P service v.request w.state) hx r rfl
  have hb : Beside service key w.state w'.state :=
    ⟨⟨hkey, he.litter.key key hkey, he.litter.dups⟩, he.unlocked⟩
  obtain ⟨a, t', tr', hx', rfl, hb'⟩ := (duplicate_mirrors P service v.request hb he.remaining).exec hx
  refine ⟨_, serve_eq_some.mpr ⟨_, t', tr', hx', rfl⟩, ?_, hb'.keyed.littered, hb'.unlocked, ?_⟩
  · -- both took one permit
    have hs := duplicate_remaining hx
    have ht := duplicate_remaining hx'
    rw [he.remaining] at ht
    apply UInt64.toNat_inj.mp
    exact Nat.add_right_cancel (ht.trans hs.symm)
  · rw [List.map_append, List.filter_append, List.map_append, he.answers]
    rfl

/-- **A request that was not** makes no difference to the run without it. -/
theorem serve_erased_error (he : Erased service w w') {status : Status} {s' : EnrollState}
    {tr : List (Event Cmd Cmd.Res)}
    (hx : (service.duplicate P v.request).exec (clusterDevice P) w.state v.choices =
      some (.error status, s', tr)) :
    Erased service { state := s', handled := w.handled ++ [⟨.error status, tr⟩] } w' := by
  refine ⟨?_, ?_, he.unlocked, ?_⟩
  · rw [he.remaining]
    apply UInt64.toNat_inj.mp
    exact (duplicate_remaining hx).symm
  · exact he.litter.trans (Prog.wp_sound (duplicate_litters P service v.request w.state) hx)
  · rw [List.filter_append, List.map_append, he.answers]
    simp [Handled.served]

theorem servedVisits_snoc {visits : List Visit} {hs : List Handled} {h : Handled}
    (hlen : visits.length = hs.length) :
    servedVisits (visits ++ [v]) (hs ++ [h]) =
      servedVisits visits hs ++ if h.served then [v] else [] := by
  simp only [servedVisits, List.zip_append hlen, List.filter_append, List.map_append]
  cases hserved : h.served <;> simp [hserved]

/-- **Erasing what was not served.** In every run, the visits that were served, on their own, are a
run too, with the same answers. -/
theorem runs_erased {max : UInt32} {machine : Machine} {visits : List Visit}
    (hr : runs (Window.serve P service) (.start max machine) visits = some w) :
    visits.length = w.handled.length ∧
      ∃ w', runs (Window.serve P service) (.start max machine) (servedVisits visits w.handled) =
        some w' ∧ Erased service w w' := by
  refine runs_invariant_past (I := fun visits w => visits.length = w.handled.length ∧
    ∃ w', runs (Window.serve P service) (.start max machine) (servedVisits visits w.handled) =
      some w' ∧ Erased service w w') ?_ ?_ along_true hr
  · exact ⟨rfl, _, rfl, rfl, .refl _ _ _, rfl, rfl⟩
  · rintro past w v w₁ - ⟨hlen, w', hr', he⟩ - hs
    obtain ⟨a, s', tr, hx, rfl⟩ := serve_eq_some.mp hs
    refine ⟨by simp [hlen], ?_⟩
    rw [servedVisits_snoc hlen]
    cases a with
    | error status =>
      refine ⟨w', ?_, serve_erased_error he hx⟩
      simpa [Handled.served] using hr'
    | ok r =>
      obtain ⟨w₁', hs', he'⟩ := serve_erased_served he hx
      refine ⟨w₁', ?_, he'⟩
      exact runs_append.mpr ⟨w', hr', runs_cons.mpr ⟨w₁', hs', rfl⟩⟩

end Runs

/-! ## One-at-a-time enrollment -/

/-- **One-at-a-time enrollment meets its specification.** For every `--max` from one on and in every
run of requests that do not overlap: a request is rejected exactly when `max` requests were served
before it; the run of the served requests alone, with what the surroundings did to each of them, gives
each of them the answer it had; and `done` is notified once, by the `max`-th request that is served,
and not before. -/
theorem enrollment_one_at_a_time (P : Platform) (service : EnrollService) (max : UInt32)
    (machine : Machine) (visits : List Visit) (w : Window) (hmax : 1 ≤ max.toNat)
    (hrun : runs (Window.serve P service) (.start max machine) visits = some w) :
    (∀ i h, w.handled[i]? = some h →
      (h.answer = .error maxReached ↔ servedIn (w.handled.take i) = max.toNat)) ∧
    (∃ w', runs (Window.serve P service) (.start max machine) (servedVisits visits w.handled) =
        some w' ∧
      w'.handled.map Handled.answer = (w.handled.filter Handled.served).map Handled.answer) ∧
    (∀ i h, w.handled[i]? = some h → h.notifications =
      if h.served = true ∧ servedIn (w.handled.take (i + 1)) = max.toNat then 1 else 0) ∧
    w.state.notified = if servedIn w.handled = max.toNat then 1 else 0 := by
  have hquota := runs_inQuota hmax hrun
  obtain ⟨-, w', hrun', herased⟩ := runs_erased hrun
  refine ⟨?_, ⟨w', hrun', herased.answers⟩, ?_, hquota.notified⟩
  · intro i h hi
    exact (hquota.each i h hi).rejected_iff
  · intro i h hi
    exact (hquota.each i h hi).notifications_eq

/-- A request from the node `a` of a cluster that has that Node throughout. -/
def memberVisit (choices : List Choice) : Visit := ⟨memberRequest, choices.map (["a"], ·)⟩

/-- A lookup that fails, a joiner that is served, and one that comes too late. -/
def threeVisits : List Visit :=
  [memberVisit [.io true, .io false, .io true],
    memberVisit ([.io true, .io true, .io true] ++ List.replicate 11 (performed 1) ++
      [.io true, .io true]),
    memberVisit [.io true, .io true]]

/-- With `--max=1`: one fails, the next is served and closes the window, the last is rejected. -/
theorem enrollment_one_at_a_time_three :
    ∃ w, runs (Window.serve .plain seedService) (.start 1 keyedMachine) threeVisits = some w ∧
      w.handled.map Handled.ending = [.failed, .served, .rejected] ∧
      (∃ w', runs (Window.serve .plain seedService) (.start 1 keyedMachine)
          (servedVisits threeVisits w.handled) = some w' ∧
        w'.handled.map Handled.answer = (w.handled.filter Handled.served).map Handled.answer) ∧
      w.state.notified = if servedIn w.handled = (1 : UInt32).toNat then 1 else 0 := by
  obtain ⟨w, hrun, hends⟩ : ∃ w, runs (Window.serve .plain seedService) (.start 1 keyedMachine)
      threeVisits = some w ∧ w.handled.map Handled.ending = [.failed, .served, .rejected] :=
    ⟨_, rfl, by decide⟩
  obtain ⟨-, herased, -, hnotified⟩ :=
    enrollment_one_at_a_time .plain seedService 1 keyedMachine threeVisits w (by decide) hrun
  exact ⟨w, hrun, hends, herased, hnotified⟩

end Sceau
