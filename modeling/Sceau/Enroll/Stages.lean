import Sceau.Enroll.Window

/-!
# Stages of a handler

A handler has three standings towards the permit counter, all read off its own log: it **holds** a
permit from a successful `fetch_sub` on (and keeps it when it is served), it is **rejecting** between
a `fetch_sub` that found zero and the `fetch_add` that undoes it, or it has no share in the counter.
`Stage` says what a handler's program looks like in each, and `Effect` says once what an action of
the window does to the counter and to the counts; every invariant of the window is derived from it.
-/

set_option autoImplicit false

namespace Sceau

open Lib

/-! ## Standing

Where a handler stands is read off its log and not kept in its state: the program has no variable for
it. Two events settle it, the answer of its one `fetch_sub` and a `fetch_add`, if there was one. The
counts of the window are then counts over its tasks, to be compared with the counter. -/

/-- A `fetch_sub` that got a permit. -/
def tookPermit : Event Cmd Cmd.Res → Bool
  | ⟨.fetchSub, n⟩ => n != 0
  | _ => false

/-- A `fetch_sub` that found none. -/
def foundNone : Event Cmd Cmd.Res → Bool
  | ⟨.fetchSub, n⟩ => n == 0
  | _ => false

def gaveBack : Event Cmd Cmd.Res → Bool
  | ⟨.fetchAdd, _⟩ => true
  | _ => false

namespace EnrollTask

variable (t : EnrollTask)

/-- The request obtained a permit and has not given it back. -/
def holds : Bool := t.log.any tookPermit && !t.log.any gaveBack

/-- The request found no permit and has not yet undone its decrement. -/
def rejecting : Bool := t.log.any foundNone && !t.log.any gaveBack

/-- The request was answered with a `DuplicateResponse`. -/
def served : Bool :=
  match t.result? with
  | some (.ok _) => true
  | _ => false

end EnrollTask

/-- The numbers of a window that its actions move. -/
structure Tally where
  remaining : UInt64
  held : Nat
  rejecting : Nat
  notified : Nat
  cancelled : Nat

namespace EnrollPool

variable (pool : EnrollPool)

def held : Nat := pool.tasks.countP EnrollTask.holds

def rejecting : Nat := pool.tasks.countP EnrollTask.rejecting

def served : Nat := pool.tasks.countP EnrollTask.served

def cancelled : Nat := pool.tasks.countP (·.dropped)

/-- The command an action issues. -/
def issues : EnrollAct → Option Cmd
  | .step i _ => pool.tasks[i]?.bind Task.next?
  | _ => none

/-- The handler an action steps satisfies `f`. -/
def actor (f : EnrollTask → Bool) : EnrollAct → Bool
  | .step i _ => pool.tasks[i]?.any f
  | _ => false

/-- The counter, the two shares in it, and what else the window counts. -/
def tally : Tally where
  remaining := pool.shared.remaining
  held := pool.held
  rejecting := pool.rejecting
  notified := pool.shared.notified
  cancelled := pool.cancelled

end EnrollPool

/-! ## What a handler's program looks like

A handler's stage fixes the rest of its program and the shape of its log together, so from the stage
both the next command and the standing can be told. `handle_duplicate` is one stage as a whole: all
that matters of it here is that it does not touch the counter, and it is the only stage in which a
handler can be dropped, because it is the only one that awaits. -/

section Stages

variable (P : Platform) (service : EnrollService)

/-- The stages of a handler: its program, and its log as far as the counter is concerned. -/
inductive Stage : EnrollTask → Prop
  | fresh (who : Request) : Stage { who, prog := service.duplicate P who }
  | bounced (who : Request) :
    Stage { who, prog := .call .fetchAdd fun _ => .ret (.error maxReached),
            log := [⟨.fetchSub, (0 : UInt64)⟩] }
  | rejected (who : Request) :
    Stage { who, prog := .ret (.error maxReached),
            log := [⟨.fetchSub, (0 : UInt64)⟩, ⟨.fetchAdd, ()⟩] }
  | handling (who : Request) {n : UInt64} (hn : n ≠ 0) {p : Code Answer} (hp : p.Only Cmd.neutral)
    {tr : List (Event Cmd Cmd.Res)} (htr : ∀ ev ∈ tr, ev.1.neutral) (dropped : Bool)
    (hd : dropped = true → ∃ c k, p = .call c k) :
    Stage { who, prog := p.bind (EnrollService.settle (n = 1)),
            log := ⟨.fetchSub, n⟩ :: tr, dropped }
  | notified (who : Request) {tr : List (Event Cmd Cmd.Res)} (htr : ∀ ev ∈ tr, ev.1.neutral)
    (r : DuplicateResponse) :
    Stage { who, prog := .ret (.ok r),
            log := ⟨.fetchSub, (1 : UInt64)⟩ :: (tr ++ [⟨.notifyOne, ()⟩]) }
  | failed (who : Request) {n : UInt64} (hn : n ≠ 0) {tr : List (Event Cmd Cmd.Res)}
    (htr : ∀ ev ∈ tr, ev.1.neutral) (st : Status) :
    Stage { who, prog := .ret (.error st), log := ⟨.fetchSub, n⟩ :: (tr ++ [⟨.fetchAdd, ()⟩]) }

/-- Every handler is in one of its stages. -/
def Staged (pool : EnrollPool) : Prop := ∀ t ∈ pool.tasks, Stage P service t

variable {P service} {t : EnrollTask}

/-! Neutral events, whatever they are, settle nothing; the standing in a stage is computed from the
others. -/

theorem any_neutral {f : Event Cmd Cmd.Res → Bool} (hf : ∀ ev, ev.1.neutral → f ev = false)
    {tr : List (Event Cmd Cmd.Res)} (htr : ∀ ev ∈ tr, ev.1.neutral) : tr.any f = false := by
  rw [List.any_eq_false]
  intro ev hev
  rw [hf ev (htr ev hev)]
  exact Bool.false_ne_true

theorem tookPermit_neutral {ev : Event Cmd Cmd.Res} (h : ev.1.neutral) : tookPermit ev = false := by
  unfold tookPermit
  split
  · exact h.elim
  · rfl

theorem foundNone_neutral {ev : Event Cmd Cmd.Res} (h : ev.1.neutral) : foundNone ev = false := by
  unfold foundNone
  split
  · exact h.elim
  · rfl

theorem gaveBack_neutral {ev : Event Cmd Cmd.Res} (h : ev.1.neutral) : gaveBack ev = false := by
  unfold gaveBack
  split
  · exact h.elim
  · rfl

/-- The standing of a request that obtained a permit, from the rest of its log. -/
theorem holds_cons {who : Request} {p : Code Answer} {n : UInt64} (hn : n ≠ 0)
    {tr : List (Event Cmd Cmd.Res)} {d : Bool} :
    EnrollTask.holds ⟨who, p, ⟨.fetchSub, n⟩ :: tr, d⟩ = !tr.any gaveBack := by
  simp [EnrollTask.holds, tookPermit, gaveBack, hn]

theorem rejecting_cons {who : Request} {p : Code Answer} {n : UInt64} (hn : n ≠ 0)
    {tr : List (Event Cmd Cmd.Res)} (htr : tr.any foundNone = false) {d : Bool} :
    EnrollTask.rejecting ⟨who, p, ⟨.fetchSub, n⟩ :: tr, d⟩ = false := by
  simp [EnrollTask.rejecting, foundNone, hn, htr]

/-- Events that are none of the counter's leave the standing as it was. -/
theorem holds_snoc {who : Request} {p p' : Code Answer} {log : List (Event Cmd Cmd.Res)}
    {ev : Event Cmd Cmd.Res} {d d' : Bool} (ht : tookPermit ev = false) (hg : gaveBack ev = false) :
    EnrollTask.holds ⟨who, p', log ++ [ev], d'⟩ = EnrollTask.holds ⟨who, p, log, d⟩ := by
  simp [EnrollTask.holds, ht, hg]

theorem rejecting_snoc {who : Request} {p p' : Code Answer} {log : List (Event Cmd Cmd.Res)}
    {ev : Event Cmd Cmd.Res} {d d' : Bool} (hf : foundNone ev = false) (hg : gaveBack ev = false) :
    EnrollTask.rejecting ⟨who, p', log ++ [ev], d'⟩ = EnrollTask.rejecting ⟨who, p, log, d⟩ := by
  simp [EnrollTask.rejecting, hf, hg]

/-- While it is handled, the request holds its permit. -/
theorem holds_handling {who : Request} {p : Code Answer} {n : UInt64} (hn : n ≠ 0)
    {tr : List (Event Cmd Cmd.Res)} (htr : ∀ ev ∈ tr, ev.1.neutral) {d : Bool} :
    EnrollTask.holds ⟨who, p, ⟨.fetchSub, n⟩ :: tr, d⟩ = true ∧
      EnrollTask.rejecting ⟨who, p, ⟨.fetchSub, n⟩ :: tr, d⟩ = false := by
  refine ⟨?_, rejecting_cons hn (any_neutral (fun _ => foundNone_neutral) htr)⟩
  rw [holds_cons hn, any_neutral (fun _ => gaveBack_neutral) htr]
  rfl

/-- The last one still holds it when it has notified. -/
theorem holds_notified {who : Request} {p : Code Answer} {tr : List (Event Cmd Cmd.Res)}
    (htr : ∀ ev ∈ tr, ev.1.neutral) {d : Bool} :
    EnrollTask.holds ⟨who, p, ⟨.fetchSub, (1 : UInt64)⟩ :: (tr ++ [⟨.notifyOne, ()⟩]), d⟩ = true ∧
      EnrollTask.rejecting ⟨who, p, ⟨.fetchSub, (1 : UInt64)⟩ :: (tr ++ [⟨.notifyOne, ()⟩]), d⟩ =
        false := by
  have h : EnrollTask.holds ⟨who, p, ⟨.fetchSub, (1 : UInt64)⟩ :: tr, d⟩ = true ∧
      EnrollTask.rejecting ⟨who, p, ⟨.fetchSub, (1 : UInt64)⟩ :: tr, d⟩ = false :=
    holds_handling (by decide) htr
  rw [← List.cons_append]
  exact ⟨(holds_snoc rfl rfl).trans h.1, (rejecting_snoc rfl rfl).trans h.2⟩

/-- A request that failed has given it back. -/
theorem holds_failed {who : Request} {p : Code Answer} {n : UInt64} (hn : n ≠ 0)
    {tr : List (Event Cmd Cmd.Res)} (htr : ∀ ev ∈ tr, ev.1.neutral) {d : Bool} :
    EnrollTask.holds ⟨who, p, ⟨.fetchSub, n⟩ :: (tr ++ [⟨.fetchAdd, ()⟩]), d⟩ = false ∧
      EnrollTask.rejecting ⟨who, p, ⟨.fetchSub, n⟩ :: (tr ++ [⟨.fetchAdd, ()⟩]), d⟩ = false := by
  refine ⟨?_, rejecting_cons hn ?_⟩
  · rw [holds_cons hn]
    simp [gaveBack]
  · rw [List.any_append, any_neutral (fun _ => foundNone_neutral) htr]
    rfl

/-! One command of one handler: the standing shifts in one of six ways, and which one the event
says. -/

/-- What one command does to a handler's standing. -/
inductive Shift (t t' : EnrollTask) : Event Cmd Cmd.Res → Prop
  | take {n : UInt64} (hn : n ≠ 0) (hh : t.holds = false) (hr : t.rejecting = false)
    (hh' : t'.holds = true) (hr' : t'.rejecting = false) : Shift t t' ⟨.fetchSub, n⟩
  | bounce (hh : t.holds = false) (hr : t.rejecting = false) (hh' : t'.holds = false)
    (hr' : t'.rejecting = true) : Shift t t' ⟨.fetchSub, (0 : UInt64)⟩
  | undo (hh : t.holds = false) (hr : t.rejecting = true) (hh' : t'.holds = false)
    (hr' : t'.rejecting = false) : Shift t t' ⟨.fetchAdd, ()⟩
  | giveBack (hh : t.holds = true) (hr : t.rejecting = false) (hh' : t'.holds = false)
    (hr' : t'.rejecting = false) : Shift t t' ⟨.fetchAdd, ()⟩
  | notify (hh : t'.holds = t.holds) (hr : t'.rejecting = t.rejecting) :
    Shift t t' ⟨.notifyOne, ()⟩
  | neutral {ev : Event Cmd Cmd.Res} (hev : ev.1.neutral) (hh : t'.holds = t.holds)
    (hr : t'.rejecting = t.rejecting) : Shift t t' ev

/-- **One command of a handler.** It moves on to a next stage, and its standing shifts as the
command says. -/
theorem Stage.step {who : Request} {c : Cmd} {k : c.Res → Code Answer}
    {log : List (Event Cmd Cmd.Res)} (h : Stage P service { who, prog := .call c k, log }) (r : c.Res) :
    Stage P service { who, prog := k r, log := log ++ [⟨c, r⟩] } ∧
      Shift { who, prog := .call c k, log } { who, prog := k r, log := log ++ [⟨c, r⟩] } ⟨c, r⟩ := by
  generalize ht : ({ who, prog := .call c k, log } : EnrollTask) = t at h
  cases h with
  | fresh who =>
    rw [duplicate_eq] at ht
    cases ht
    by_cases hr : r = 0
    · subst hr
      exact ⟨.bounced who, .bounce rfl rfl rfl rfl⟩
    · simp only [hr, if_false]
      refine ⟨.handling who hr (handleDuplicate_neutral P service who) (by simp) false (by simp), ?_⟩
      exact .take hr rfl rfl (by rw [List.nil_append, holds_cons hr]; rfl)
        (by rw [List.nil_append, rejecting_cons hr rfl])
  | bounced who =>
    cases ht
    exact ⟨.rejected who, .undo rfl rfl rfl rfl⟩
  | rejected who => cases ht
  | handling who hn hp htr dropped hd =>
    rename_i n p tr
    cases p with
    | ret a =>
      simp only [Prog.ret_bind] at ht
      cases a with
      | ok resp =>
        rw [settle_ok] at ht
        split at ht
        · rename_i hlast
          have hone : n = 1 := by simpa using hlast
          subst hone
          cases ht
          exact ⟨.notified who htr resp, .notify (holds_snoc rfl rfl) (rejecting_snoc rfl rfl)⟩
        · cases ht
      | error st =>
        rw [settle_error] at ht
        cases ht
        exact ⟨.failed who hn htr st, .giveBack (holds_handling hn htr).1 (holds_handling hn htr).2
          (holds_failed hn htr).1 (holds_failed hn htr).2⟩
    | call c' k' =>
      simp only [Prog.call_bind] at ht
      cases ht
      have htr' : ∀ ev ∈ tr ++ [⟨c, r⟩], ev.1.neutral := by
        intro ev hev
        rcases List.mem_append.mp hev with hev | hev
        · exact htr ev hev
        · rw [List.mem_singleton.mp hev]
          exact hp.1
      refine ⟨.handling who hn (hp.2 r) htr' false (by simp), .neutral hp.1 ?_ ?_⟩
      · exact holds_snoc (tookPermit_neutral hp.1) (gaveBack_neutral hp.1)
      · exact rejecting_snoc (foundNone_neutral hp.1) (gaveBack_neutral hp.1)
  | notified who htr resp => cases ht
  | failed who hn htr st => cases ht

/-- **Where a handler's end leaves its permit**: it has none to undo, and it keeps one exactly when
it was served or dropped. -/
theorem Stage.ended (h : Stage P service t) (hf : t.inFlight = false) :
    EnrollTask.rejecting t = false ∧
      (EnrollTask.holds t).toNat = (EnrollTask.served t).toNat + t.dropped.toNat := by
  cases h with
  | fresh who => cases hf
  | bounced who => cases hf
  | rejected who => exact ⟨rfl, rfl⟩
  | handling who hn hp htr dropped hd =>
    rename_i n p tr
    rw [(holds_handling hn htr).1]
    refine ⟨(holds_handling hn htr).2, ?_⟩
    cases dropped with
    | true => rfl
    | false =>
      cases p with
      | call c k => cases hf
      | ret a =>
        cases a with
        | error st => cases hf
        | ok r =>
          simp only [Prog.ret_bind, settle_ok] at hf ⊢
          split at hf
          · cases hf
          · rename_i hlast
            rw [if_neg hlast]
            rfl
  | notified who htr resp =>
    rw [(holds_notified htr).1]
    exact ⟨(holds_notified htr).2, rfl⟩
  | failed who hn htr st =>
    rw [(holds_failed hn htr).1]
    exact ⟨(holds_failed hn htr).2, rfl⟩

/-- A request that was served has its permit. -/
theorem Stage.served_holds (h : Stage P service t) (hs : EnrollTask.served t = true) :
    EnrollTask.holds t = true := by
  have hend : t.inFlight = false := by
    unfold EnrollTask.served Task.result? at hs
    unfold Task.inFlight Task.next?
    split at hs
    · rename_i r hr
      split at hr
      · rename_i hd hp
        rw [hd, hp]
        rfl
      · cases hr
    · cases hs
  have hsum := (h.ended hend).2
  rw [hs] at hsum
  cases hh : EnrollTask.holds t with
  | true => rfl
  | false =>
    rw [hh] at hsum
    simp at hsum
    omega

/-- A handler that is dropped is suspended inside `handle_duplicate`. -/
theorem Stage.cancel {who : Request} {c : Cmd} {k : c.Res → Code Answer}
    {log : List (Event Cmd Cmd.Res)} (h : Stage P service { who, prog := .call c k, log })
    (ha : awaits c = true) : Stage P service { who, prog := .call c k, log, dropped := true } := by
  generalize ht : ({ who, prog := .call c k, log } : EnrollTask) = t at h
  cases h with
  | fresh who =>
    rw [duplicate_eq] at ht
    cases ht
    cases ha
  | bounced who =>
    cases ht
    cases ha
  | rejected who => cases ht
  | handling who hn hp htr dropped hd =>
    rename_i n p tr
    cases p with
    | call c' k' =>
      simp only [Prog.call_bind] at ht
      cases ht
      exact .handling who hn hp htr true fun _ => ⟨c, k', rfl⟩
    | ret a =>
      -- settling does not wait for anything
      cases a with
      | error st =>
        cases ht
        cases ha
      | ok resp =>
        simp only [Prog.ret_bind, settle_ok] at ht
        split at ht
        · cases ht
          cases ha
        · cases ht
  | notified who htr resp => cases ht
  | failed who hn htr st => cases ht

/-- Only a handler that has done nothing yet is about to decrement the counter. -/
theorem Stage.log_of_fetchSub (h : Stage P service t) (hc : t.next? = some .fetchSub) :
    t.log = [] := by
  cases h with
  | fresh who => rfl
  | bounced who => cases hc
  | rejected who => cases hc
  | handling who hn hp htr dropped hd =>
    rename_i n p tr
    cases dropped with
    | true => cases hc
    | false =>
      cases p with
      | call c k =>
        cases Option.some.inj hc
        exact hp.1.elim
      | ret a =>
        cases a with
        | error st => cases hc
        | ok r =>
          simp only [Prog.ret_bind, settle_ok] at hc
          split at hc
          · cases hc
          · cases hc
  | notified who htr resp => cases hc
  | failed who hn htr st => cases hc

end Stages

/-! ## What an action does to the counts

From one handler to the whole window. The handler that is stepped is replaced by its next stage, so
each count changes by the difference of its two standings, and the counter changes as the device says.
`Effect` has both changes in one case, which is what keeps them in step: no invariant below has to
look at a handler or at the device again. -/

section Actions

variable {P : Platform} {service : EnrollService} {pool pool' : EnrollPool} {act : EnrollAct}

/-- What an action makes of the tally: every case there is. -/
inductive Effect (pool : EnrollPool) (act : EnrollAct) : Tally → Prop
  | take (hc : pool.issues act = some .fetchSub) (hn : pool.shared.remaining ≠ 0) :
    Effect pool act { pool.tally with
      remaining := pool.shared.remaining - 1, held := pool.held + 1 }
  | bounce (hc : pool.issues act = some .fetchSub) (hn : pool.shared.remaining = 0) :
    Effect pool act { pool.tally with
      remaining := pool.shared.remaining - 1, rejecting := pool.rejecting + 1 }
  | undo (hc : pool.issues act = some .fetchAdd) (hpos : 0 < pool.rejecting) :
    Effect pool act { pool.tally with
      remaining := pool.shared.remaining + 1, rejecting := pool.rejecting - 1 }
  | giveBack (hc : pool.issues act = some .fetchAdd) (hwho : pool.actor EnrollTask.holds act = true)
    (hpos : 0 < pool.held) :
    Effect pool act { pool.tally with
      remaining := pool.shared.remaining + 1, held := pool.held - 1 }
  | notify (hc : pool.issues act = some .notifyOne) :
    Effect pool act { pool.tally with notified := pool.shared.notified + 1 }
  | cancel (hc : ∃ i, act = .cancel i) :
    Effect pool act { pool.tally with cancelled := pool.cancelled + 1 }
  | other (hc : ∀ i, act ≠ .cancel i) : Effect pool act pool.tally

theorem tally_eq {remaining : UInt64} {held rejecting notified cancelled : Nat}
    (hrem : pool.shared.remaining = remaining) (hheld : pool.held = held)
    (hrej : pool.rejecting = rejecting) (hnot : pool.shared.notified = notified)
    (hcan : pool.cancelled = cancelled) :
    pool.tally = { remaining, held, rejecting, notified, cancelled } := by
  unfold EnrollPool.tally
  rw [hrem, hheld, hrej, hnot, hcan]

/-- Replacing one handler by its next service, in terms of the two handlers' shares. -/
theorem counts_set {i : Nat} {s' : EnrollState} {t t' : EnrollTask} (hi : pool.tasks[i]? = some t)
    (hpool : pool' = { shared := s', tasks := pool.tasks.set i t' }) (hd : t.dropped = t'.dropped) :
    pool'.held + (EnrollTask.holds t).toNat = pool.held + (EnrollTask.holds t').toNat ∧
      pool'.rejecting + (EnrollTask.rejecting t).toNat =
        pool.rejecting + (EnrollTask.rejecting t').toNat ∧
      pool'.cancelled = pool.cancelled := by
  subst hpool
  refine ⟨countP_set_add hi, countP_set_add hi, ?_⟩
  have hcan := countP_set_add (p := fun t : EnrollTask => t.dropped) (a := t') hi
  rw [hd] at hcan
  exact Nat.add_right_cancel hcan

/-- What a command leaves alone: the counter and `done`, unless it is one of theirs, and the TPM,
unless it goes there. -/
structure EnrollFrame (c : Cmd) (s s' : EnrollState) : Prop where
  neutral : c.neutral → s'.remaining = s.remaining ∧ s'.notified = s.notified
  machine : (∀ ctx c', c ≠ .tpm ctx c') → s'.machine = s.machine

theorem enrollDevice_frame {c : Cmd} {s s' : EnrollState} {e : Choice} {r : c.Res}
    (h : enrollDevice P c s e = some (r, s')) : EnrollFrame c s s' := by
  cases c with
  | tpm ctx c =>
    simp only [enrollDevice, Option.map_eq_some_iff, Prod.mk.injEq] at h
    obtain ⟨x, -, -, rfl⟩ := h
    exact ⟨fun _ => ⟨rfl, rfl⟩, fun hc => absurd rfl (hc ctx c)⟩
  | getNode n =>
    cases e <;> simp only [enrollDevice, reduceCtorEq] at h
    repeat' split at h
    all_goals simp only [Option.some.injEq, Prod.mk.injEq, reduceCtorEq] at h
    all_goals obtain ⟨-, rfl⟩ := h
    all_goals exact ⟨fun _ => ⟨rfl, rfl⟩, fun _ => rfl⟩
  | lockContext =>
    cases e <;> simp only [enrollDevice, reduceCtorEq] at h
    repeat' split at h
    all_goals simp only [Option.some.injEq, Prod.mk.injEq, reduceCtorEq] at h
    all_goals obtain ⟨-, rfl⟩ := h
    all_goals exact ⟨fun _ => ⟨rfl, rfl⟩, fun _ => rfl⟩
  | unlockContext =>
    cases e <;> simp only [enrollDevice, Option.some.injEq, Prod.mk.injEq, reduceCtorEq] at h
    obtain ⟨-, rfl⟩ := h
    exact ⟨fun _ => ⟨rfl, rfl⟩, fun _ => rfl⟩
  | _ =>
    -- the counter's own commands, and those a handler never issues
    cases e <;> simp only [enrollDevice, Option.some.injEq, Prod.mk.injEq, reduceCtorEq] at h
    all_goals obtain ⟨-, rfl⟩ := h
    all_goals exact ⟨fun hc => hc.elim, fun _ => rfl⟩

/-! The three commands on the counter and on `done`, as the device performs them; `AtomicUsize`
arithmetic wraps around. -/

theorem enrollDevice_fetchSub {s s' : EnrollState} {e : Choice} {n : UInt64}
    (h : enrollDevice P .fetchSub s e = some (n, s')) :
    n = s.remaining ∧ s' = { s with remaining := s.remaining - 1 } := by
  cases e <;> simp only [enrollDevice, Option.some.injEq, Prod.mk.injEq, reduceCtorEq] at h
  exact ⟨h.1.symm, h.2.symm⟩

theorem enrollDevice_fetchAdd {s s' : EnrollState} {e : Choice} {r : Unit}
    (h : enrollDevice P .fetchAdd s e = some (r, s')) :
    s' = { s with remaining := s.remaining + 1 } := by
  cases e <;> simp only [enrollDevice, Option.some.injEq, Prod.mk.injEq, reduceCtorEq] at h
  exact h.2.symm

theorem enrollDevice_notifyOne {s s' : EnrollState} {e : Choice} {r : Unit}
    (h : enrollDevice P .notifyOne s e = some (r, s')) :
    s' = { s with notified := s.notified + 1 } := by
  cases e <;> simp only [enrollDevice, Option.some.injEq, Prod.mk.injEq, reduceCtorEq] at h
  exact h.2.symm

/-- Replacing one handler, by one in a stage. -/
theorem Staged.set {i : Nat} {t : EnrollTask} (hs : Staged P service pool)
    (ht : Stage P service t) (hpool : pool'.tasks = pool.tasks.set i t) :
    Staged P service pool' := by
  intro t' ht'
  rw [hpool] at ht'
  rcases List.mem_or_eq_of_mem_set ht' with ht' | rfl
  · exact hs t' ht'
  · exact ht

/-- A handler's shift, as an effect on the tally. -/
theorem Shift.effect {i : Nat} {e : Choice} {c : Cmd} {r : c.Res} {s' : EnrollState}
    {t t' : EnrollTask} (hshift : Shift t t' ⟨c, r⟩) (hi : pool.tasks[i]? = some t)
    (hd : enrollDevice P c pool.shared e = some (r, s'))
    (hpool : pool' = { shared := s', tasks := pool.tasks.set i t' })
    (hdropped : t.dropped = t'.dropped) (hc : pool.issues (.step i e) = some c) :
    Effect pool (.step i e) pool'.tally := by
  obtain ⟨hheld, hrej, hcan⟩ := counts_set hi hpool hdropped
  have hshared : pool'.shared = s' := by rw [hpool]
  cases hshift with
  | take hn hh hr hh' hr' =>
    obtain ⟨rfl, rfl⟩ := enrollDevice_fetchSub hd
    simp only [hh, hr, hh', hr', Bool.toNat_false, Bool.toNat_true, Nat.add_zero] at hheld hrej
    rw [tally_eq (by rw [hshared]) hheld hrej (by rw [hshared]) hcan]
    exact .take hc hn
  | bounce hh hr hh' hr' =>
    obtain ⟨hzero, rfl⟩ := enrollDevice_fetchSub hd
    simp only [hh, hr, hh', hr', Bool.toNat_false, Bool.toNat_true, Nat.add_zero] at hheld hrej
    rw [tally_eq (by rw [hshared]) hheld hrej (by rw [hshared]) hcan]
    exact .bounce hc hzero.symm
  | undo hh hr hh' hr' =>
    obtain rfl := enrollDevice_fetchAdd hd
    simp only [hh, hr, hh', hr', Bool.toNat_false, Bool.toNat_true, Nat.add_zero] at hheld hrej
    rw [tally_eq (by rw [hshared]) hheld (Nat.eq_sub_of_add_eq hrej) (by rw [hshared]) hcan]
    exact .undo hc (by omega)
  | giveBack hh hr hh' hr' =>
    obtain rfl := enrollDevice_fetchAdd hd
    have hwho : pool.actor EnrollTask.holds (.step i e) = true := by
      simp [EnrollPool.actor, hi, hh]
    simp only [hh, hr, hh', hr', Bool.toNat_false, Bool.toNat_true, Nat.add_zero] at hheld hrej
    rw [tally_eq (by rw [hshared]) (Nat.eq_sub_of_add_eq hheld) hrej (by rw [hshared]) hcan]
    exact .giveBack hc hwho (by omega)
  | notify hh hr =>
    obtain rfl := enrollDevice_notifyOne hd
    rw [hh] at hheld
    rw [hr] at hrej
    rw [tally_eq (by rw [hshared]) (Nat.add_right_cancel hheld) (Nat.add_right_cancel hrej)
      (by rw [hshared]) hcan]
    exact .notify hc
  | neutral hev hh hr =>
    obtain ⟨hrem, hnot⟩ := (enrollDevice_frame hd).neutral hev
    rw [hh] at hheld
    rw [hr] at hrej
    rw [tally_eq (hshared ▸ hrem) (Nat.add_right_cancel hheld) (Nat.add_right_cancel hrej)
      (hshared ▸ hnot) hcan]
    exact .other (by simp)

/-- **What an action can do**, said once: handlers stay in their stages, and the tally moves by one
of the effects. -/
theorem step_effect (hs : Staged P service pool)
    (h : (enrollSystem P service).step pool act = some pool') :
    Staged P service pool' ∧ Effect pool act pool'.tally := by
  cases act with
  | spawn who =>
    simp only [System.step, Option.some.injEq] at h
    subst h
    refine ⟨?_, ?_⟩
    · intro t ht
      rcases List.mem_append.mp ht with ht | ht
      · exact hs t ht
      · rw [List.mem_singleton.mp ht]
        exact .fresh who
    · have hsame : EnrollPool.tally { pool with
          tasks := pool.tasks ++ [{ who, prog := (enrollSystem P service).code who }] } =
            pool.tally := by
        simp only [EnrollPool.tally, EnrollPool.held, EnrollPool.rejecting, EnrollPool.cancelled,
          List.countP_append]
        rfl
      rw [hsame]
      exact .other (by simp)
  | env nodes =>
    simp only [System.step, enrollSystem, Option.map_some, Option.some.injEq] at h
    subst h
    exact ⟨hs, .other (by simp)⟩
  | cancel i =>
    obtain ⟨who, c, k, log, hi, hawait, rfl⟩ := System.step_cancel h
    refine ⟨hs.set ((hs _ (List.mem_of_getElem? hi)).cancel hawait) rfl, ?_⟩
    have hheld := countP_set_add (p := EnrollTask.holds)
      (a := { who, prog := .call c k, log, dropped := true }) hi
    have hrej := countP_set_add (p := EnrollTask.rejecting)
      (a := { who, prog := .call c k, log, dropped := true }) hi
    have hcan := countP_set_add (p := fun t : EnrollTask => t.dropped)
      (a := { who, prog := .call c k, log, dropped := true }) hi
    have htally : EnrollPool.tally { pool with
        tasks := pool.tasks.set i { who, prog := .call c k, log, dropped := true } } =
          { pool.tally with cancelled := pool.cancelled + 1 } :=
      tally_eq rfl (Nat.add_right_cancel hheld) (Nat.add_right_cancel hrej) rfl hcan
    rw [htally]
    exact .cancel ⟨i, rfl⟩
  | step i e =>
    obtain ⟨who, c, k, log, r, s', hi, hd, hpool⟩ := System.step_task h
    have hc : pool.issues (.step i e) = some c := by
      simp only [EnrollPool.issues, hi]
      rfl
    obtain ⟨hstage, hshift⟩ := (hs _ (List.mem_of_getElem? hi)).step r
    exact ⟨hs.set hstage (by rw [hpool]), hshift.effect hi hd hpool rfl hc⟩

end Actions

end Sceau
