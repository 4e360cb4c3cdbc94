import Sceau.Enroll.Stages
import Sceau.Platform
import Mathlib.Algebra.Group.Nat.Defs

/-!
# Permits

What `remaining` amounts to over a whole run. It always stands at `max` less the shares of the
handlers — modulo 2⁶⁴. A request that finds zero decrements all the same and undoes it later; until
it does, the counter reads 2⁶⁴ - 1, and a request that comes in between takes that for a permit.
-/

set_option autoImplicit false

namespace Sceau

open Lib

section Actions

variable {P : Platform} {service : EnrollService} {pool pool' : EnrollPool} {act : EnrollAct}

/-! ## The counter

A balance modulo 2⁶⁴ says little by itself. `Unwrapped` is the condition on a run under which nobody
takes a counter below zero for a permit, and under it the shares are bounded too. -/

/-- The counter stands at `max` less the two shares, modulo 2⁶⁴; no more permits are held than
there are; and at most one decrement below zero is outstanding. -/
structure Counted (P : Platform) (service : EnrollService) (max : UInt32) (pool : EnrollPool) :
    Prop where
  staged : Staged P service pool
  balanced : (pool.shared.remaining.toNat + pool.held + pool.rejecting) % 2 ^ 64 = max.toNat
  held_le : pool.held ≤ max.toNat
  shares_le : pool.held + pool.rejecting ≤ max.toNat + 1

/-- **The condition**: no `fetch_sub` is executed while the counter is below zero, that is while a
rejected request's decrement of zero has not been undone and `remaining` reads above `max`. -/
def Unwrapped (max : UInt32) (pool : EnrollPool) (act : EnrollAct) : Prop :=
  pool.issues act = some .fetchSub → pool.shared.remaining.toNat ≤ max.toNat

instance (max : UInt32) (pool : EnrollPool) (act : EnrollAct) :
    Decidable (Unwrapped max pool act) := inferInstanceAs (Decidable (_ → _))

theorem Counted.start (max : UInt32) (machine : Machine) (nodes : List String) :
    Counted P service max (EnrollPool.start max machine nodes) := by
  have hlt := max.toNat_lt
  refine ⟨fun t ht => absurd ht (by simp [EnrollPool.start]), ?_, ?_, ?_⟩
  · simp only [EnrollPool.held, EnrollPool.rejecting, EnrollPool.start, List.countP_nil,
      UInt32.toNat_toUInt64]
    omega
  · exact Nat.zero_le _
  · exact Nat.zero_le _

/-- One action keeps the count, under the condition. -/
theorem Counted.step {max : UInt32} (h : Counted P service max pool) (hg : Unwrapped max pool act)
    (hstep : (enrollSystem P service).step pool act = some pool') : Counted P service max pool' := by
  obtain ⟨hstaged, heff⟩ := step_effect h.staged hstep
  have hbal := h.balanced
  have hheld := h.held_le
  have hshares := h.shares_le
  have hlt := max.toNat_lt
  have hrlt := pool.shared.remaining.toNat_lt
  suffices hT : ∀ T : Tally, Effect pool act T →
      (T.remaining.toNat + T.held + T.rejecting) % 2 ^ 64 = max.toNat ∧ T.held ≤ max.toNat ∧
        T.held + T.rejecting ≤ max.toNat + 1 by
    obtain ⟨hb, hl, hs⟩ := hT _ heff
    exact ⟨hstaged, hb, hl, hs⟩
  intro T hT
  cases hT with
  | take hc hn =>
    have hr := hg hc
    have hpos : pool.shared.remaining.toNat ≠ 0 := fun h0 => hn (UInt64.toNat_inj.mp h0)
    simp only [EnrollPool.tally, UInt64.toNat_sub, UInt64.toNat_one]
    omega
  | bounce hc hn =>
    have hzero : pool.shared.remaining.toNat = 0 := by rw [hn]; rfl
    simp only [EnrollPool.tally, UInt64.toNat_sub, UInt64.toNat_one]
    omega
  | undo hc hpos =>
    simp only [EnrollPool.tally, UInt64.toNat_add, UInt64.toNat_one]
    omega
  | giveBack hc hwho hpos =>
    simp only [EnrollPool.tally, UInt64.toNat_add, UInt64.toNat_one]
    omega
  | notify hc => exact ⟨hbal, hheld, hshares⟩
  | cancel hc => exact ⟨hbal, hheld, hshares⟩
  | other hc => exact ⟨hbal, hheld, hshares⟩

theorem Staged.served_le_held (h : Staged P service pool) : pool.served ≤ pool.held :=
  List.countP_mono_left fun t ht hs => (h t ht).served_holds hs

end Actions

/-! ## A small cluster, to run the window on -/

/-- A seed that holds the fleet key, and a member of the cluster that asks for it. -/
def seedService : EnrollService :=
  { context := { id := 0 }, fleetKeyHandle := .persistent someFleetKey }

/-- The commands of an authorized request up to its response, all succeeding; `tag` makes the
duplicate's bytes fresh. -/
def serveActs (i : Nat) (tag : UInt8) : List EnrollAct :=
  [.io true, .io true, .ok {}, .ok {}, .ok {}, .ok {}, .ok {}, .ok {}, .ok {}, .ok {},
    .ok { data := [tag] }, .ok {}, .ok {}, .io true].map (.step i)

/-- A request comes in and takes a permit. -/
def startsRequest (i : Nat) : List EnrollAct := [.spawn memberRequest, .step i (.io true)]

/-- A request whose Node lookup fails, and which gives its permit back. -/
def failedRequest (i : Nat) : List EnrollAct :=
  startsRequest i ++ [.step i (.io false), .step i (.io true)]

/-- One request from its first command to its last, as the holder of the last permit. -/
def servedRequest : List EnrollAct :=
  startsRequest 0 ++ serveActs 0 1 ++ [.step 0 (.io true)]

/-! ## No more than `max` are served -/

section Runs

variable (P : Platform) (service : EnrollService) (max : UInt32) (machine : Machine)
  (nodes : List String) (acts : List EnrollAct) (pool : EnrollPool)

/-- **No more than `--max` requests are served**, in every run that meets the condition: any number
of requests, any interleaving of their commands, any failures, cancellations and Node changes. -/
theorem served_le_max
    (hg : Along (enrollSystem P service).step (Unwrapped max)
      (EnrollPool.start max machine nodes) acts)
    (hr : runs (enrollSystem P service).step (EnrollPool.start max machine nodes) acts =
      some pool) :
    pool.served ≤ max.toNat := by
  have hcount := runs_invariant (I := Counted P service max)
    (fun s a s' h hg hstep => h.step hg hstep) (Counted.start max machine nodes) hg hr
  exact Nat.le_trans hcount.staged.served_le_held hcount.held_le

/-- One permit, one request served, one rejected after it. -/
theorem served_le_max_of_two :
    ∃ pool : EnrollPool,
      Along (enrollSystem .plain seedService).step (Unwrapped 1)
        (EnrollPool.start 1 keyedMachine ["a"])
        (servedRequest ++ [.spawn memberRequest, .step 1 (.io true), .step 1 (.io true)]) ∧
      runs (enrollSystem .plain seedService).step (EnrollPool.start 1 keyedMachine ["a"])
        (servedRequest ++ [.spawn memberRequest, .step 1 (.io true), .step 1 (.io true)]) =
          some pool ∧
      pool.served ≤ (1 : UInt32).toNat := by
  have hg : Along (enrollSystem .plain seedService).step (Unwrapped 1)
      (EnrollPool.start 1 keyedMachine ["a"])
      (servedRequest ++ [.spawn memberRequest, .step 1 (.io true), .step 1 (.io true)]) := by
    decide
  obtain ⟨pool, hr⟩ : ∃ pool : EnrollPool, runs (enrollSystem .plain seedService).step
      (EnrollPool.start 1 keyedMachine ["a"])
      (servedRequest ++ [.spawn memberRequest, .step 1 (.io true), .step 1 (.io true)]) =
        some pool := ⟨_, rfl⟩
  exact ⟨pool, hg, hr, served_le_max .plain seedService 1 keyedMachine ["a"] _ pool hg hr⟩

/-- With `--max=1`: the first request is served; the second finds zero and has not undone its
decrement when the third reads 2⁶⁴ - 1 and is served too. -/
theorem served_exceeds_max :
    ∃ pool : EnrollPool, runs (enrollSystem .plain seedService).step
        (EnrollPool.start 1 keyedMachine ["a"])
        (servedRequest ++
          [.spawn memberRequest, .step 1 (.io true), .spawn memberRequest, .step 2 (.io true)] ++
          serveActs 2 2) = some pool ∧
      ¬ pool.served ≤ (1 : UInt32).toNat := by
  refine ⟨_, rfl, ?_⟩
  decide

/-! ## Requests that do not overlap

Then nobody comes in between a decrement and its undoing, so the condition holds by itself, and when
nothing is in flight the balance is an equation between the counter and those who kept a permit. -/

variable {P service max machine nodes acts pool}

/-- At rest, a permit is kept by exactly the requests that were served or dropped. -/
theorem Staged.at_rest (h : Staged P service pool) (hq : pool.quiescent) :
    pool.rejecting = 0 ∧ pool.held = pool.served + pool.cancelled := by
  refine ⟨?_, ?_⟩
  · refine List.countP_eq_zero.mpr fun t ht => ?_
    rw [((h t ht).ended (hq t ht)).1]
    exact Bool.false_ne_true
  · exact countP_eq_add fun t ht => ((h t ht).ended (hq t ht)).2

/-- Where at most one request is in flight, nobody is rejecting when it decrements the counter. -/
theorem Staged.rejecting_eq_zero (h : Staged P service pool) (hsolo : pool.solo)
    {act : EnrollAct} (hc : pool.issues act = some .fetchSub) : pool.rejecting = 0 := by
  cases act with
  | step i e =>
    obtain ⟨t, hi, ht⟩ := Option.bind_eq_some_iff.mp hc
    have hfly : t.inFlight = true := by rw [Task.inFlight, ht]; rfl
    refine List.countP_eq_zero.mpr fun u hu hrej => ?_
    obtain ⟨j, hj⟩ := List.mem_iff_getElem?.mp hu
    -- a rejecting handler is in flight, so it is the one that acts; but that one has not begun
    have hufly : u.inFlight = true := by
      cases hf : u.inFlight with
      | true => rfl
      | false =>
        rw [((h u hu).ended hf).1] at hrej
        cases hrej
    obtain rfl := hsolo i j t u hi hj hfly hufly
    obtain rfl : t = u := Option.some.inj (hi.symm.trans hj)
    have hlog := (h t hu).log_of_fetchSub ht
    rw [EnrollTask.rejecting, hlog] at hrej
    cases hrej
  | spawn p => cases hc
  | cancel i => cases hc
  | env x => cases hc

/-- A request was dropped while it awaited the Node lookup. -/
def isCancel : EnrollAct → Bool
  | .cancel _ => true
  | _ => false

theorem cancelled_step {act : EnrollAct} {pool' : EnrollPool} (hs : Staged P service pool)
    (hstep : (enrollSystem P service).step pool act = some pool') :
    pool'.cancelled = pool.cancelled + (isCancel act).toNat := by
  have heff := (step_effect hs hstep).2
  have hissues : ∀ c, pool.issues act = some c → isCancel act = false := by
    intro c hc
    cases act with
    | cancel i => cases hc
    | _ => rfl
  suffices hT : ∀ T : Tally, Effect pool act T →
      T.cancelled = pool.cancelled + (isCancel act).toNat from hT _ heff
  intro T hT
  cases hT with
  | take hc hn => rw [hissues _ hc]; rfl
  | bounce hc hn => rw [hissues _ hc]; rfl
  | undo hc hpos => rw [hissues _ hc]; rfl
  | giveBack hc hwho hpos => rw [hissues _ hc]; rfl
  | notify hc => rw [hissues _ hc]; rfl
  | cancel hc =>
    obtain ⟨i, rfl⟩ := hc
    rfl
  | other hc =>
    cases act with
    | cancel i => exact absurd rfl (hc i)
    | _ => rfl

/-- The state of a window in which requests have not overlapped, with the actions so far. -/
structure Sequential (P : Platform) (service : EnrollService) (max : UInt32)
    (acts : List EnrollAct) (pool : EnrollPool) : Prop where
  counted : Counted P service max pool
  solo : pool.solo
  cancels : pool.cancelled = acts.countP isCancel

theorem Sequential.step {act : EnrollAct} {pool' : EnrollPool}
    (h : Sequential P service max acts pool) (hg : pool.spawnsAlone act)
    (hstep : (enrollSystem P service).step pool act = some pool') :
    Sequential P service max (acts ++ [act]) pool' := by
  have hunwrapped : Unwrapped max pool act := by
    intro hc
    have hrej := h.counted.staged.rejecting_eq_zero h.solo hc
    have hbal := h.counted.balanced
    have hheld := h.counted.held_le
    have hlt := max.toNat_lt
    have hrlt := pool.shared.remaining.toNat_lt
    omega
  refine ⟨h.counted.step hunwrapped hstep, System.step_solo h.solo hg hstep, ?_⟩
  rw [cancelled_step h.counted.staged hstep, h.cancels, List.countP_append]
  cases act <;> rfl

/-- **Only a served request consumes a permit — and a cancelled one.** In every run of requests that
do not overlap, whenever none is in flight, `remaining` is `max` less the number served exactly when
no request was dropped at the Node lookup. -/
theorem remaining_exact_iff (P : Platform) (service : EnrollService) (max : UInt32)
    (machine : Machine) (nodes : List String) (acts : List EnrollAct) (pool : EnrollPool)
    (hg : Along (enrollSystem P service).step Pool.spawnsAlone
      (EnrollPool.start max machine nodes) acts)
    (hr : runs (enrollSystem P service).step (EnrollPool.start max machine nodes) acts = some pool)
    (hq : pool.quiescent) :
    pool.shared.remaining.toNat + pool.served = max.toNat ↔ ∀ i, Act.cancel i ∉ acts := by
  have hseq : Sequential P service max acts pool := by
    refine runs_invariant_past ?_ ?_ hg hr
    · exact ⟨Counted.start max machine nodes, fun i j t u hi => by simp [EnrollPool.start] at hi, rfl⟩
    · exact fun past s a s' _ h hg hstep => h.step hg hstep
  obtain ⟨hrej, hheld⟩ := hseq.counted.staged.at_rest hq
  have hbal := hseq.counted.balanced
  have hle := hseq.counted.held_le
  have hlt := max.toNat_lt
  have hrlt := pool.shared.remaining.toNat_lt
  have hcancel : (∀ i, Act.cancel i ∉ acts) ↔ pool.cancelled = 0 := by
    rw [hseq.cancels, List.countP_eq_zero]
    constructor
    · intro h act hact hc
      cases act with
      | cancel i => exact h i hact
      | _ => cases hc
    · intro h i hi
      exact h _ hi rfl
  rw [hcancel]
  omega

/-- A request whose Node lookup fails, and after it one that is served: of two permits one is left. -/
theorem remaining_exact_of_two :
    ∃ pool : EnrollPool,
      Along (enrollSystem .plain seedService).step Pool.spawnsAlone
        (EnrollPool.start 2 keyedMachine ["a"]) (failedRequest 0 ++ startsRequest 1 ++ serveActs 1 1) ∧
      runs (enrollSystem .plain seedService).step (EnrollPool.start 2 keyedMachine ["a"])
        (failedRequest 0 ++ startsRequest 1 ++ serveActs 1 1) = some pool ∧
      pool.quiescent ∧ pool.served = 1 ∧
        pool.shared.remaining.toNat + pool.served = (2 : UInt32).toNat := by
  have hg : Along (enrollSystem .plain seedService).step Pool.spawnsAlone
      (EnrollPool.start 2 keyedMachine ["a"]) (failedRequest 0 ++ startsRequest 1 ++ serveActs 1 1) := by
    decide
  obtain ⟨pool, hr, hq, hserved⟩ : ∃ pool : EnrollPool, runs (enrollSystem .plain seedService).step
      (EnrollPool.start 2 keyedMachine ["a"]) (failedRequest 0 ++ startsRequest 1 ++ serveActs 1 1) =
        some pool ∧ pool.quiescent ∧ pool.served = 1 :=
    ⟨_, rfl, by decide, by decide⟩
  have hcancel : ∀ i, Act.cancel i ∉ failedRequest 0 ++ startsRequest 1 ++ serveActs 1 1 := by
    simp [failedRequest, startsRequest, serveActs]
  exact ⟨pool, hg, hr, hq, hserved, (remaining_exact_iff .plain seedService 2 keyedMachine ["a"] _ pool
    hg hr hq).mpr hcancel⟩

/-- With `--max=1`, one request that is dropped while it awaits the Node lookup leaves no permit for
anybody, with nothing served. -/
theorem cancelled_request_burns_permit :
    ∃ pool : EnrollPool,
      Along (enrollSystem .plain seedService).step Pool.spawnsAlone
        (EnrollPool.start 1 keyedMachine ["a"])
        [.spawn memberRequest, .step 0 (.io true), .cancel 0] ∧
      runs (enrollSystem .plain seedService).step (EnrollPool.start 1 keyedMachine ["a"])
        [.spawn memberRequest, .step 0 (.io true), .cancel 0] = some pool ∧
      pool.quiescent ∧ ¬ pool.shared.remaining.toNat + pool.served = (1 : UInt32).toNat := by
  refine ⟨_, by decide, rfl, by decide, ?_⟩
  decide

/-! ## Closing the window

The handler that gets the last permit notifies `done` when it is served, and does not look at the
others. For the window to be full then, they must have kept theirs; the condition says so step by
step. -/

/-- The condition under which `done` means what it says, step by step: no `fetch_sub` below zero; the
window is closed only when every permit is held or used; from then on nobody who holds a permit
fails; and requests run to their end. -/
structure ClosesFull (max : UInt32) (pool : EnrollPool) (act : EnrollAct) : Prop where
  unwrapped : Unwrapped max pool act
  full : pool.issues act = some .notifyOne → pool.held = max.toNat
  kept : pool.issues act = some .fetchAdd → pool.actor EnrollTask.holds act = true →
    pool.shared.notified = 0
  runs : isCancel act = false

instance (max : UInt32) (pool : EnrollPool) (act : EnrollAct) :
    Decidable (ClosesFull max pool act) :=
  decidable_of_iff (Unwrapped max pool act ∧
      (pool.issues act = some .notifyOne → pool.held = max.toNat) ∧
      (pool.issues act = some .fetchAdd → pool.actor EnrollTask.holds act = true →
        pool.shared.notified = 0) ∧ isCancel act = false)
    ⟨fun h => ⟨h.1, h.2.1, h.2.2.1, h.2.2.2⟩, fun h => ⟨h.1, h.2, h.3, h.4⟩⟩

/-- Once `done` has been notified, all permits are held or used, and stay so. -/
structure Closing (P : Platform) (service : EnrollService) (max : UInt32) (pool : EnrollPool) :
    Prop where
  counted : Counted P service max pool
  full : 0 < pool.shared.notified → pool.held = max.toNat
  cancels : pool.cancelled = 0

theorem Closing.step {act : EnrollAct} {pool' : EnrollPool} (h : Closing P service max pool)
    (hg : ClosesFull max pool act)
    (hstep : (enrollSystem P service).step pool act = some pool') :
    Closing P service max pool' := by
  have heff := (step_effect h.counted.staged hstep).2
  refine ⟨h.counted.step hg.unwrapped hstep, ?_, ?_⟩
  · suffices hT : ∀ T : Tally, Effect pool act T → 0 < T.notified → T.held = max.toNat from
      hT _ heff
    intro T hT hnot
    cases hT with
    | take hc hn =>
      -- all permits are gone, so the counter reads zero and this is not a permit
      have hfull := h.full hnot
      have hr := hg.unwrapped hc
      have hpos : pool.shared.remaining.toNat ≠ 0 := fun h0 => hn (UInt64.toNat_inj.mp h0)
      have hbal := h.counted.balanced
      have hshares := h.counted.shares_le
      have hlt := max.toNat_lt
      omega
    | bounce hc hn => exact h.full hnot
    | undo hc hpos => exact h.full hnot
    | giveBack hc hwho hpos =>
      have hzero := hg.kept hc hwho
      simp only [EnrollPool.tally] at hnot
      omega
    | notify hc => exact hg.full hc
    | cancel hc => exact h.full hnot
    | other hc => exact h.full hnot
  · rw [cancelled_step h.counted.staged hstep, h.cancels, hg.runs]
    rfl

/-- **The window is not closed early**: in every run whose steps meet the condition, if `done` has
been notified, then once no request is in flight exactly `max` requests have been served. -/
theorem closed_full (P : Platform) (service : EnrollService) (max : UInt32)
    (machine : Machine) (nodes : List String) (acts : List EnrollAct) (pool : EnrollPool)
    (hg : Along (enrollSystem P service).step (ClosesFull max)
      (EnrollPool.start max machine nodes) acts)
    (hr : runs (enrollSystem P service).step (EnrollPool.start max machine nodes) acts = some pool)
    (hq : pool.quiescent) (hdone : 0 < pool.shared.notified) : pool.served = max.toNat := by
  have hclosing := runs_invariant (I := Closing P service max)
    (fun s a s' h hg hstep => h.step hg hstep)
    ⟨Counted.start max machine nodes, fun h => absurd h (Nat.lt_irrefl 0), rfl⟩ hg hr
  have hrest := (hclosing.counted.staged.at_rest hq).2
  have hfull := hclosing.full hdone
  have hcancel := hclosing.cancels
  omega

/-- Two permits: the first request fails, the next two are served at once, and the holder of the last
permit closes the window. -/
def failsThenTwo : List EnrollAct :=
  failedRequest 0 ++ startsRequest 1 ++ startsRequest 2 ++ serveActs 1 1 ++ serveActs 2 2 ++
    [.step 2 (.io true)]

theorem closed_full_of_two :
    ∃ pool : EnrollPool,
      Along (enrollSystem .plain seedService).step (ClosesFull 2)
        (EnrollPool.start 2 keyedMachine ["a"]) failsThenTwo ∧
      runs (enrollSystem .plain seedService).step (EnrollPool.start 2 keyedMachine ["a"])
        failsThenTwo = some pool ∧
      pool.quiescent ∧ 0 < pool.shared.notified ∧ pool.served = (2 : UInt32).toNat := by
  have hg : Along (enrollSystem .plain seedService).step (ClosesFull 2)
      (EnrollPool.start 2 keyedMachine ["a"]) failsThenTwo := by decide
  obtain ⟨pool, hr, hq, hdone⟩ : ∃ pool : EnrollPool,
      runs (enrollSystem .plain seedService).step (EnrollPool.start 2 keyedMachine ["a"])
        failsThenTwo = some pool ∧ pool.quiescent ∧ 0 < pool.shared.notified :=
    ⟨_, rfl, by decide, by decide⟩
  exact ⟨pool, hg, hr, hq, hdone,
    closed_full .plain seedService 2 keyedMachine ["a"] _ pool hg hr hq hdone⟩

/-- With `--max=2`: the first request takes a permit, the second takes the last one and is served,
which closes the window; then the first fails. -/
theorem window_closed_early :
    ∃ pool : EnrollPool,
      runs (enrollSystem .plain seedService).step (EnrollPool.start 2 keyedMachine ["a"])
        ([.spawn memberRequest, .step 0 (.io true), .spawn memberRequest, .step 1 (.io true)] ++
          serveActs 1 1 ++ [.step 1 (.io true)] ++ [.step 0 (.io false), .step 0 (.io true)]) =
          some pool ∧
      pool.quiescent ∧ 0 < pool.shared.notified ∧ ¬ pool.served = (2 : UInt32).toNat := by
  refine ⟨_, rfl, by decide, by decide, ?_⟩
  decide

end Runs

end Sceau
