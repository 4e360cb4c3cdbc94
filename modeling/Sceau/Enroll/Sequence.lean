import Sceau.Enroll.Permits
import Mathlib.Data.List.Forall2

/-!
# One request after the other

Requests that do not overlap: each handler runs from its first command to its last before the next
one begins. A run is then a list of visits, each a request with what the surroundings do to its
handler — the choice for every command, and which Nodes the cluster has at that moment.

`Quota` is the specification of such a run, in terms of how many requests have been served: who is
turned away, who counts, and who announces that the window is full. The counter of the handlers
implements it, request by request (`duplicate_quota`) and over whole runs (`runs_inQuota`). The last
part goes back to the process and its interleavings: its runs without overlap are runs of visits.
-/

set_option autoImplicit false

namespace Sceau

open Lib

/-! ## Visits -/

/-- The handlers' commands while the cluster's Nodes come and go: a choice comes with the Nodes there
are when it is made. -/
def clusterDevice (P : Platform) : Device Cmd Cmd.Res EnrollState (List String × Choice) :=
  fun c s e => enrollDevice P c { s with nodes := e.1 } e.2

/-- A request, and what the surroundings do to its handler, command by command. -/
structure Visit where
  request : Request
  choices : List (List String × Choice)

def isNotify : Event Cmd Cmd.Res → Bool
  | ⟨.notifyOne, _⟩ => true
  | _ => false

/-- What came of a request: its answer, and what its handler did. -/
structure Handled where
  answer : Answer
  log : List (Event Cmd Cmd.Res)

namespace Handled

variable (h : Handled)

def served : Bool :=
  match h.answer with
  | .ok _ => true
  | .error _ => false

/-- How often the request's handler called `done.notify_one()`. -/
def notifications : Nat := h.log.countP isNotify

end Handled

/-- How many of these requests were served. -/
def servedIn (hs : List Handled) : Nat := hs.countP Handled.served

/-- The window between two requests. -/
structure Window where
  state : EnrollState
  handled : List Handled := []

namespace Window

/-- `run_enroll` as it starts to serve. -/
def start (max : UInt32) (machine : Machine) : Window :=
  { state := (EnrollPool.start max machine []).shared }

/-- One request, from its first command to its last. -/
def serve (P : Platform) (service : EnrollService) (w : Window) (v : Visit) : Option Window :=
  ((service.duplicate P v.request).exec (clusterDevice P) w.state v.choices).map fun x =>
    { state := x.2.1, handled := w.handled ++ [⟨x.1, x.2.2⟩] }

end Window

/-- The visits of a run whose requests were served. -/
def servedVisits (visits : List Visit) (hs : List Handled) : List Visit :=
  ((visits.zip hs).filter (·.2.served)).map (·.1)

/-! ## The specification -/

/-- How a request can end. -/
inductive Ending where
  | served
  | failed
  | rejected
  deriving DecidableEq

def Handled.ending (h : Handled) : Ending :=
  match h.answer with
  | .ok _ => .served
  | .error status => if status = maxReached then .rejected else .failed

/-- **What `--max` promises.** With `n` requests served so far: how the next one can end, how often it
notifies `done`, and how many are served then. -/
inductive Quota (max : Nat) : Nat → Ending → Nat → Nat → Prop
  | served {n : Nat} (h : n < max) : Quota max n .served (if n + 1 = max then 1 else 0) (n + 1)
  | failed {n : Nat} (h : n < max) : Quota max n .failed 0 n
  | rejected : Quota max max .rejected 0 max

/-! ## The counter implements it

One handler on its own. It reads the counter once; the three ways it can end are told apart by its
answer, because no other error of the handler is the one of a rejection. -/

section Counter

variable (P : Platform) (self : EnrollService) (request : Request)

theorem requestedNode_ne_maxReached {status : Status}
    (h : EnrollService.requestedNode P request = .error status) : status ≠ maxReached := by
  rintro rfl
  unfold EnrollService.requestedNode at h
  repeat' split at h
  all_goals simp [maxReached, denied] at h

/-- What fails under the lock is an internal error. -/
theorem lockedDuplicate_internal (joinerPublic : Public) (s : EnrollState) :
    (self.lockedDuplicate joinerPublic).run.wp (clusterDevice P)
      (fun _ r _ => ∀ status, r = .error status → status.code = .internal) s := by
  unfold EnrollService.lockedDuplicate
  apply Prog.wp_run_bind.mpr
  apply Prog.wp_run_lift.mpr
  intro e locked s₁ _
  cases locked with
  | error _ =>
    intro status heq
    cases heq
    rfl
  | ok _ =>
    apply Prog.wp_run_bind.mpr
    apply Prog.wp_run_lift.mpr
    apply Prog.wp_always
    intro _ blob s₂
    apply Prog.wp_run_bind.mpr
    apply Prog.wp_run_lift.mpr
    intro e _ s₃ _
    cases blob with
    | error err =>
      intro status heq
      cases heq
      rfl
    | ok blob =>
      intro status heq
      cases heq

/-- What fails after the authorization is an internal error. -/
theorem serveDuplicate_internal (s : EnrollState) :
    (self.serveDuplicate P request).run.wp (clusterDevice P)
      (fun _ r _ => ∀ status, r = .error status → status.code = .internal) s := by
  unfold EnrollService.serveDuplicate
  split
  · intro status heq
    cases heq
    rfl
  · rename_i joinerPublic _
    apply Prog.wp_run_bind.mpr
    refine Prog.wp_mono ?_ (lockedDuplicate_internal P self joinerPublic s)
    intro _ r s₁ hr
    cases r with
    | error err =>
      intro status heq
      cases heq
      exact hr err rfl
    | ok blob =>
      show (EnrollService.response P blob).run.wp _ _ _
      unfold EnrollService.response
      split
      · intro status heq
        cases heq
        rfl
      · intro status heq
        cases heq

/-- No failure of `handle_duplicate` looks like a rejection. -/
theorem handleDuplicate_ne_maxReached (s : EnrollState) :
    (self.handleDuplicate P request).run.wp (clusterDevice P)
      (fun _ r _ => r ≠ .error maxReached) s := by
  rw [handleDuplicate_eq]
  split
  · rename_i status hnode
    intro heq
    exact requestedNode_ne_maxReached P request hnode (Except.error.inj heq)
  · rename_i n _
    intro e r s₁ _
    cases r with
    | error _ =>
      intro heq
      simp [maxReached, denied] at heq
    | ok _ =>
      refine Prog.wp_mono ?_ (serveDuplicate_internal P self request s₁)
      rintro _ r _ hr rfl
      exact absurd (hr _ rfl) (by simp [maxReached, denied])

/-- `handle_duplicate` moves neither the counter nor `done`. -/
theorem handleDuplicate_unchanged (s : EnrollState) :
    (self.handleDuplicate P request).run.wp (clusterDevice P)
      (fun _ _ s' => (s'.remaining, s'.notified) = (s.remaining, s.notified)) s := by
  apply Prog.Only.unchanged (clusterDevice P) (fun s => (s.remaining, s.notified)) ?_
    (handleDuplicate_neutral P self request)
  intro c s e r s' hc hd
  obtain ⟨hrem, hnot⟩ := (enrollDevice_frame hd).neutral hc
  rw [hrem, hnot]

theorem isNotify_neutral {ev : Event Cmd Cmd.Res} (h : ev.1.neutral) : isNotify ev = false := by
  unfold isNotify
  split
  · exact h.elim
  · rfl

/-- The log of a handler that was let in: only what comes after `handle_duplicate` can notify. -/
theorem notifications_let_in (a : Answer) (n : UInt64) {tr : List (Event Cmd Cmd.Res)}
    (htr : ∀ ev ∈ tr, ev.1.neutral) (last : List (Event Cmd Cmd.Res)) :
    Handled.notifications ⟨a, ⟨.fetchSub, n⟩ :: (tr ++ last)⟩ = last.countP isNotify := by
  have hquiet : tr.countP isNotify = 0 := by
    apply List.countP_eq_zero.mpr
    intro ev hev hnot
    rw [isNotify_neutral (htr ev hev)] at hnot
    cases hnot
  simp [Handled.notifications, isNotify, hquiet]

/-- The last permit is the one that fills the quota. -/
theorem last_permit_iff {remaining : UInt64} {max n : Nat} (hn : remaining.toNat + n = max) :
    remaining = 1 ↔ n + 1 = max := by
  rw [← UInt64.toNat_inj, UInt64.toNat_one]
  omega

/-- **One request and the specification.** While the counter stands at `max` less the number served,
a request does what the specification allows, and the counter stands at `max` less the number served
afterwards. -/
theorem duplicate_quota {max n : Nat} (s : EnrollState) (hn : s.remaining.toNat + n = max) :
    (self.duplicate P request).wp (clusterDevice P)
      (fun tr a s' => ∃ n', Quota max n (Handled.ending ⟨a, tr⟩) (Handled.notifications ⟨a, tr⟩) n' ∧
        s'.remaining.toNat + n' = max ∧
        s'.notified = s.notified + Handled.notifications ⟨a, tr⟩) s := by
  rw [duplicate_eq]
  intro e permitsBefore s₁ hsub
  obtain ⟨rfl, rfl⟩ := enrollDevice_fetchSub hsub
  have hlt := s.remaining.toNat_lt
  show Prog.wp _ (if s.remaining = 0 then _ else _) _ _
  by_cases hzero : s.remaining = 0
  · -- none left: the decrement is undone
    rw [if_pos hzero]
    have hz : s.remaining.toNat = 0 := by rw [hzero]; rfl
    intro e' _ s₂ hadd
    obtain rfl := enrollDevice_fetchAdd hadd
    obtain rfl : n = max := by omega
    refine ⟨n, .rejected, ?_, rfl⟩
    simp only [UInt64.sub_add_cancel]
    exact hn
  · rw [if_neg hzero]
    have hpos : s.remaining.toNat ≠ 0 := fun h0 => hzero (UInt64.toNat_inj.mp h0)
    apply Prog.wp_bind.mpr
    refine Prog.wp_mono ?_ (Prog.wp_and (handleDuplicate_unchanged P self request _)
      (Prog.wp_and (handleDuplicate_ne_maxReached P self request _)
        ((handleDuplicate_neutral P self request).trace _ _)))
    rintro tr handled s₂ ⟨hsame, hne, htr⟩
    simp only [Prod.mk.injEq] at hsame
    obtain ⟨hrem, hnot⟩ := hsame
    have hroom : n < max := by omega
    cases handled with
    | error status =>
      rw [settle_error]
      intro e' _ s₃ hadd
      obtain rfl := enrollDevice_fetchAdd hadd
      have hstatus : status ≠ maxReached := fun h => hne (by rw [h])
      have hlog := notifications_let_in (.error status) s.remaining htr [⟨.fetchAdd, ()⟩]
      refine ⟨n, ?_, ?_, ?_⟩
      · rw [hlog]
        simp only [Handled.ending, if_neg hstatus]
        exact .failed hroom
      · simp only [hrem, UInt64.sub_add_cancel]
        exact hn
      · rw [hlog]
        exact hnot
    | ok response =>
      rw [settle_ok]
      have hafter : s₂.remaining.toNat + (n + 1) = max := by
        rw [hrem, UInt64.toNat_sub]
        simp only [UInt64.toNat_one]
        omega
      have hserved := Quota.served hroom
      by_cases hlast : s.remaining = 1
      · -- the last permit: it is announced
        rw [if_pos (by simpa using hlast)]
        rw [if_pos ((last_permit_iff hn).mp hlast)] at hserved
        intro e' _ s₃ hnotify
        obtain rfl := enrollDevice_notifyOne hnotify
        have hlog := notifications_let_in (.ok response) s.remaining htr [⟨.notifyOne, ()⟩]
        refine ⟨n + 1, ?_, hafter, ?_⟩
        · rw [hlog]
          exact hserved
        · rw [hlog]
          exact congrArg (· + 1) hnot
      · rw [if_neg (by simpa using hlast)]
        rw [if_neg fun hfull => hlast ((last_permit_iff hn).mpr hfull)] at hserved
        have hlog := notifications_let_in (.ok response) s.remaining htr []
        refine ⟨n + 1, ?_, hafter, ?_⟩
        · rw [hlog]
          exact hserved
        · rw [hlog]
          exact hnot

end Counter

/-! ## Runs

One visit after the other: the number of those served takes the place of the counter. -/

section Runs

variable {P : Platform} {service : EnrollService} {w w₁ : Window} {v : Visit}

theorem serve_eq_some : w.serve P service v = some w₁ ↔
    ∃ a s' tr, (service.duplicate P v.request).exec (clusterDevice P) w.state v.choices =
      some (a, s', tr) ∧ w₁ = { state := s', handled := w.handled ++ [⟨a, tr⟩] } := by
  constructor
  · intro h
    obtain ⟨⟨a, s', tr⟩, hx, rfl⟩ := Option.map_eq_some_iff.mp h
    exact ⟨a, s', tr, hx, rfl⟩
  · rintro ⟨a, s', tr, hx, rfl⟩
    exact Option.map_eq_some_iff.mpr ⟨_, hx, rfl⟩

theorem Handled.served_eq (h : Handled) : h.served = decide (h.ending = .served) := by
  obtain ⟨answer, log⟩ := h
  cases answer with
  | ok response => rfl
  | error status =>
    simp only [Handled.served, Handled.ending]
    split <;> rfl

theorem Handled.rejected_iff (h : Handled) :
    h.answer = .error maxReached ↔ h.ending = .rejected := by
  obtain ⟨answer, log⟩ := h
  cases answer with
  | ok response => simp [Handled.ending]
  | error status => simp [Handled.ending]

section Spec

variable {max n n' k : Nat} {h : Handled}

theorem Quota.served_eq (hq : Quota max n h.ending k n') : n' = n + h.served.toNat := by
  rw [h.served_eq]
  generalize h.ending = ending at hq ⊢
  cases hq <;> rfl

/-- Who is rejected found the quota full. -/
theorem Quota.rejected_iff (hq : Quota max n h.ending k n') :
    h.answer = .error maxReached ↔ n = max := by
  rw [h.rejected_iff]
  generalize h.ending = ending at hq ⊢
  cases hq with
  | served hlt => simp [Nat.ne_of_lt hlt]
  | failed hlt => simp [Nat.ne_of_lt hlt]
  | rejected => simp

/-- Who notifies is the one with whom the quota is full. -/
theorem Quota.notifications_eq (hq : Quota max n h.ending k n') :
    k = if h.served = true ∧ n' = max then 1 else 0 := by
  rw [h.served_eq]
  generalize h.ending = ending at hq ⊢
  cases hq with
  | served hlt => simp
  | failed hlt => rfl
  | rejected => rfl

end Spec

theorem servedIn_snoc (hs : List Handled) (h : Handled) :
    servedIn (hs ++ [h]) = servedIn hs + h.served.toNat := by
  simp only [servedIn, List.countP_append, List.countP_singleton]
  cases h.served <;> rfl

/-- A run keeps to the specification: the counter stands at `max` less the number served, every
request did what the specification allows after those before it, and `done` has been notified once
the quota is full. -/
structure InQuota (max : Nat) (w : Window) : Prop where
  remaining : w.state.remaining.toNat + servedIn w.handled = max
  each : ∀ i h, w.handled[i]? = some h →
    Quota max (servedIn (w.handled.take i)) h.ending h.notifications
      (servedIn (w.handled.take (i + 1)))
  notified : w.state.notified = if servedIn w.handled = max then 1 else 0

theorem InQuota.start {max : UInt32} (hmax : 1 ≤ max.toNat) (machine : Machine) :
    InQuota max.toNat (.start max machine) := by
  refine ⟨?_, ?_, ?_⟩
  · simp [Window.start, EnrollPool.start, servedIn]
  · intro i h hi
    simp [Window.start] at hi
  · have hne : servedIn (Window.start max machine).handled ≠ max.toNat := by
      simp only [Window.start, servedIn, List.countP_nil]
      omega
    rw [if_neg hne]
    rfl

/-- One request keeps to the specification. -/
theorem InQuota.serve {max : Nat} (hk : InQuota max w) (hs : w.serve P service v = some w₁) :
    InQuota max w₁ := by
  obtain ⟨a, s', tr, hx, rfl⟩ := serve_eq_some.mp hs
  obtain ⟨n', hq, hrem, hnot⟩ :=
    Prog.wp_sound (duplicate_quota P service v.request w.state hk.remaining) hx
  have hn' : n' = servedIn (w.handled ++ [⟨a, tr⟩]) := by
    rw [servedIn_snoc, hq.served_eq]
  refine ⟨hn' ▸ hrem, ?_, ?_⟩
  · intro i h hi
    rcases Nat.lt_or_ge i w.handled.length with hlt | hge
    · rw [List.getElem?_append_left hlt] at hi
      rw [List.take_append_of_le_length (Nat.le_of_lt hlt), List.take_append_of_le_length hlt]
      exact hk.each i h hi
    · rw [List.getElem?_append_right hge] at hi
      obtain ⟨hlen, rfl⟩ := List.getElem?_eq_some_iff.mp hi
      simp only [List.length_singleton, Nat.lt_one_iff] at hlen
      obtain rfl : i = w.handled.length := by omega
      rw [List.take_left, List.take_of_length_le (by simp), ← hn']
      simpa using hq
  · show s'.notified = if servedIn (w.handled ++ [⟨a, tr⟩]) = max then 1 else 0
    rw [hnot, hk.notified, ← hn']
    -- the quota fills up at most once: from then on nobody is served
    generalize servedIn w.handled = n at hq ⊢
    generalize Handled.ending ⟨a, tr⟩ = ending at hq
    generalize Handled.notifications ⟨a, tr⟩ = k at hq ⊢
    cases hq with
    | served hlt => rw [if_neg (Nat.ne_of_lt hlt), Nat.zero_add]
    | failed hlt => rfl
    | rejected => rfl

/-- **Every run keeps to the specification.** -/
theorem runs_inQuota {max : UInt32} (hmax : 1 ≤ max.toNat) {machine : Machine}
    {visits : List Visit}
    (hr : runs (Window.serve P service) (.start max machine) visits = some w) :
    InQuota max.toNat w :=
  runs_invariant (fun _ _ _ hk _ hs => hk.serve hs) (.start hmax machine) along_true hr

end Runs

/-! ## Runs of the enrollment process

A run of the process in which requests do not overlap and none is dropped *is* a run of visits. -/

section Process

variable {P : Platform} {service : EnrollService}

/-- Nobody is dropped, and a request comes only when none is in flight. -/
def OneAtATime (pool : EnrollPool) (act : EnrollAct) : Prop :=
  pool.spawnsAlone act ∧ isCancel act = false

/-- The same up to the Nodes, which the cluster changes as it likes. -/
def SameButNodes (s t : EnrollState) : Prop := { t with nodes := s.nodes } = s

/-- The handler has ended, with this. -/
def EnrollTask.EndedAs (t : EnrollTask) (h : Handled) : Prop :=
  t.result? = some h.answer ∧ t.log = h.log

/-- The handler in flight has come this far from the window before it. -/
structure UnderWay (P : Platform) (service : EnrollService) (w : Window) (s : EnrollState)
    (t : EnrollTask) : Prop where
  flying : t.inFlight = true
  come : ∃ es s', (service.duplicate P t.who).advance (clusterDevice P) w.state es =
    some (t.prog, s', t.log) ∧ SameButNodes s s'

/-- The visits of a run: those that have ended, and perhaps one that has not. -/
structure Unrolled (P : Platform) (service : EnrollService) (w : Window) (pool : EnrollPool)
    (rest : List EnrollTask) : Prop where
  tasks : ∃ ended, pool.tasks = ended ++ rest ∧ List.Forall₂ EnrollTask.EndedAs ended w.handled
  rest : (rest = [] ∧ SameButNodes pool.shared w.state) ∨
    ∃ t, rest = [t] ∧ UnderWay P service w pool.shared t

theorem SameButNodes.nodes {s t : EnrollState} (h : SameButNodes s t) (nodes : List String) :
    SameButNodes { s with nodes } t := by
  unfold SameButNodes at h ⊢
  rw [← h]

theorem EnrollTask.EndedAs.at_rest {t : EnrollTask} {h : Handled} (he : EnrollTask.EndedAs t h) :
    t.inFlight = false := by
  have hres := he.1
  unfold Task.result? at hres
  unfold Task.inFlight Task.next?
  split at hres
  · rename_i hd hp
    rw [hd, hp]
    rfl
  · cases hres

variable {w : Window} {pool pool' : EnrollPool} {rest : List EnrollTask} {visits : List Visit}
  {start : Window}

/-- Whoever is in flight is the one under way. -/
theorem Unrolled.in_flight (hu : Unrolled P service w pool rest) {i : Nat} {t : EnrollTask}
    (hi : pool.tasks[i]? = some t) (hf : t.inFlight = true) :
    ∃ ended, pool.tasks = ended ++ [t] ∧ i = ended.length ∧
      List.Forall₂ EnrollTask.EndedAs ended w.handled ∧ UnderWay P service w pool.shared t := by
  obtain ⟨⟨ended, htasks, hended⟩, hrest⟩ := hu
  rw [htasks] at hi
  rcases Nat.lt_or_ge i ended.length with hlt | hge
  · rw [List.getElem?_append_left hlt] at hi
    obtain ⟨_, rfl⟩ := List.getElem?_eq_some_iff.mp hi
    have he := hended.get hlt (hended.length_eq ▸ hlt)
    rw [List.get_eq_getElem, List.get_eq_getElem] at he
    rw [he.at_rest] at hf
    cases hf
  · rw [List.getElem?_append_right hge] at hi
    rcases hrest with ⟨rfl, -⟩ | ⟨u, rfl, hway⟩
    · simp at hi
    · obtain ⟨hlen, hget⟩ := List.getElem?_eq_some_iff.mp hi
      simp only [List.length_singleton, Nat.lt_one_iff] at hlen
      obtain rfl : u = t := by simpa [hlen] using hget
      exact ⟨ended, htasks, by omega, hended, hway⟩

/-- One action more: still a run of visits. -/
theorem Unrolled.step (hu : Unrolled P service w pool rest)
    (hw : runs (Window.serve P service) start visits = some w) {act : EnrollAct}
    (hg : OneAtATime pool act) (hstep : (enrollSystem P service).step pool act = some pool') :
    ∃ visits' w' rest', runs (Window.serve P service) start visits' = some w' ∧
      Unrolled P service w' pool' rest' := by
  cases act with
  | spawn p =>
    simp only [System.step, Option.some.injEq] at hstep
    subst hstep
    obtain ⟨⟨ended, htasks, hended⟩, hrest⟩ := hu
    rcases hrest with ⟨rfl, hsame⟩ | ⟨t, rfl, hway⟩
    · refine ⟨visits, w, [{ who := p, prog := service.duplicate P p }], hw, ?_, .inr ?_⟩
      · exact ⟨ended, by simp [htasks, enrollSystem], hended⟩
      · exact ⟨_, rfl, rfl, [], w.state, rfl, hsame⟩
    · -- the one under way is in flight, so nobody may come
      have hq := hg.1 t (by simp [htasks])
      rw [hway.flying] at hq
      cases hq
  | cancel i => cases hg.2
  | env nodes =>
    simp only [System.step, enrollSystem, Option.map_some, Option.some.injEq] at hstep
    subst hstep
    refine ⟨visits, w, rest, hw, hu.tasks, ?_⟩
    rcases hu.rest with ⟨rfl, hsame⟩ | ⟨t, rfl, hfly, es, s', hadv, hsame⟩
    · exact .inl ⟨rfl, hsame.nodes nodes⟩
    · exact .inr ⟨t, rfl, hfly, es, s', hadv, hsame.nodes nodes⟩
  | step i e =>
    obtain ⟨who, c, k, log, r, s', hi, hd, rfl⟩ := System.step_task hstep
    obtain ⟨ended, htasks, rfl, hended, -, es, s₀, hadv, hsame⟩ := hu.in_flight hi rfl
    have hd' : clusterDevice P c s₀ (pool.shared.nodes, e) = some (r, s') := by
      show enrollDevice P c { s₀ with nodes := pool.shared.nodes } e = _
      rw [hsame]
      exact hd
    have hadv' := Prog.advance_snoc hadv hd'
    have hset : ∀ t', pool.tasks.set ended.length t' = ended ++ [t'] := by
      intro t'
      rw [htasks]
      simp
    cases hk : k r with
    | ret a =>
      rw [hk] at hadv'
      refine ⟨visits ++ [⟨who, es ++ [(pool.shared.nodes, e)]⟩],
        { state := s', handled := w.handled ++ [⟨a, log ++ [⟨c, r⟩]⟩] }, [], ?_, ?_, .inl ?_⟩
      · refine runs_append.mpr ⟨w, hw, runs_cons.mpr ⟨_, ?_, rfl⟩⟩
        exact serve_eq_some.mpr ⟨a, s', _, Prog.exec_of_advance hadv', rfl⟩
      · refine ⟨ended ++ [{ who, prog := .ret a, log := log ++ [⟨c, r⟩] }], ?_, ?_⟩
        · rw [List.append_nil]
          exact hset _
        · exact List.rel_append hended (.cons ⟨rfl, rfl⟩ .nil)
      · exact ⟨rfl, rfl⟩
    | call c' k' =>
      rw [hk] at hadv'
      refine ⟨visits, w, [{ who, prog := .call c' k', log := log ++ [⟨c, r⟩] }], hw, ?_, .inr ?_⟩
      · exact ⟨ended, hset _, hended⟩
      · exact ⟨_, rfl, rfl, _, s', hadv', rfl⟩

/-- **Non-overlapping runs are visits.** Every run of the process in which requests do not overlap,
none is dropped and all have ended, is a run of visits: the same answers and the same commands, one
handler after the other, and the same state but for the Nodes. -/
theorem oneAtATime_visits {max : UInt32} {machine : Machine} {nodes : List String}
    {acts : List EnrollAct}
    (hg : Along (enrollSystem P service).step OneAtATime (EnrollPool.start max machine nodes) acts)
    (hr : runs (enrollSystem P service).step (EnrollPool.start max machine nodes) acts = some pool)
    (hq : pool.quiescent) :
    ∃ visits w, runs (Window.serve P service) (.start max machine) visits = some w ∧
      List.Forall₂ EnrollTask.EndedAs pool.tasks w.handled ∧ SameButNodes pool.shared w.state := by
  have hunrolled : ∃ visits w rest,
      runs (Window.serve P service) (.start max machine) visits = some w ∧
        Unrolled P service w pool rest := by
    refine runs_invariant (I := fun pool => ∃ visits w rest,
      runs (Window.serve P service) (.start max machine) visits = some w ∧
        Unrolled P service w pool rest) ?_ ?_ hg hr
    · rintro pool act pool' ⟨visits, w, rest, hw, hu⟩ hguard hstep
      exact hu.step hw hguard hstep
    · exact ⟨[], _, [], rfl, ⟨[], rfl, .nil⟩, .inl ⟨rfl, rfl⟩⟩
  obtain ⟨visits, w, rest, hw, ⟨ended, htasks, hended⟩, hrest⟩ := hunrolled
  rcases hrest with ⟨rfl, hsame⟩ | ⟨t, rfl, hway⟩
  · rw [List.append_nil] at htasks
    exact ⟨visits, w, hw, htasks ▸ hended, hsame⟩
  · have hrest := hq t (by simp [htasks])
    rw [hway.flying] at hrest
    cases hrest

end Process

end Sceau
