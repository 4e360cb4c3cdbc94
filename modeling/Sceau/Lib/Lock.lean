import Mathlib.Logic.Function.Basic
import Sceau.Lib.Pool

/-!
# Programs with locks

Tasks that share a state and guard parts of it with locks that can be poisoned. Taking a lock is a
command like any other, one that cannot be answered while somebody holds the lock; so a run of the
pool says who waits for whom.

`Disciplined` is what a text has to satisfy: one lock at a time, given back before the end, and a
command only with the lock that guards it held. From it `Orderly` follows of every state of every run:
nobody shares a lock, and the flags agree with the holders. A pool that is orderly is never stuck,
and where every text is of bounded length no schedule goes on for ever.
-/

set_option autoImplicit false

namespace Lib

variable {P L C : Type} {R : C → Type} {S E X α β : Type}

/-! ## Commands, state, device -/

/-- The commands `C`, and those on the locks `L`. -/
inductive LockCmd (L C : Type) where
  | lock (l : L)
  | unlock (l : L) (poison : Bool)
  | run (c : C)

/-- `lock` is answered by whether the lock was found poisoned; then it was not taken. -/
@[reducible] def LockCmd.Res (R : C → Type) : LockCmd L C → Type
  | .lock _ => Bool
  | .unlock _ _ => Unit
  | .run c => R c

abbrev LockProg (L C : Type) (R : C → Type) (α : Type) : Type :=
  Prog (LockCmd L C) (LockCmd.Res R) α

/-- A program without locks, as part of one with them. -/
def Prog.inside : Prog C R α → LockProg L C R α
  | .ret a => .ret a
  | .call c k => .call (.run c) fun r => (k r).inside

structure Guarded (L S : Type) where
  state : S
  held : L → Bool := fun _ => false
  poisoned : L → Bool := fun _ => false

section Device

variable [DecidableEq L]

def lockDevice (dev : Device C R S E) :
    Device (LockCmd L C) (LockCmd.Res R) (Guarded L S) (Option E)
  | .lock l, g, none =>
    if g.held l then none
    else if g.poisoned l then some (true, g)
    else some (false, { g with held := Function.update g.held l true })
  | .unlock l poison, g, none =>
    some ((), { g with
      held := Function.update g.held l false
      poisoned := if poison then Function.update g.poisoned l true else g.poisoned })
  | .run c, g, some e => (dev c g.state e).map fun x => (x.1, { g with state := x.2 })
  | _, _, _ => none

/-- Tasks that are dropped nowhere, in surroundings that leave their state alone. -/
def lockSystem (code : P → LockProg L C R α) (dev : Device C R S E) :
    System P (LockCmd L C) (LockCmd.Res R) (Guarded L S) (Option E) Empty α where
  code := code
  dev := fun _ => lockDevice dev
  await := fun _ => false
  env := fun _ x => x.elim

variable {dev : Device C R S E} {g g' : Guarded L S} {e : Option E}

theorem lockDevice_lock {l : L} {r : Bool}
    (h : lockDevice (R := R) dev (.lock l) g e = some (r, g')) :
    g.held l = false ∧ ((g.poisoned l = true ∧ r = true ∧ g' = g) ∨
      (g.poisoned l = false ∧ r = false ∧
        g' = { g with held := Function.update g.held l true })) := by
  cases e with
  | some e => cases h
  | none =>
    simp only [lockDevice] at h
    split at h
    · cases h
    · rename_i hfree
      refine ⟨by simpa using hfree, ?_⟩
      split at h <;> rename_i hp <;> simp only [Option.some.injEq, Prod.mk.injEq] at h
      · exact .inl ⟨hp, h.1.symm, h.2.symm⟩
      · exact .inr ⟨by simpa using hp, h.1.symm, h.2.symm⟩

theorem lockDevice_unlock {l : L} {poison : Bool} {r : Unit}
    (h : lockDevice (R := R) dev (.unlock l poison) g e = some (r, g')) :
    g' = { g with
      held := Function.update g.held l false
      poisoned := if poison then Function.update g.poisoned l true else g.poisoned } := by
  cases e with
  | some e => cases h
  | none =>
    simp only [lockDevice, Option.some.injEq, Prod.mk.injEq] at h
    exact h.2.symm

theorem lockDevice_run {c : C} {r : R c} (h : lockDevice dev (.run c) g e = some (r, g')) :
    ∃ e' s', e = some e' ∧ dev c g.state e' = some (r, s') ∧ g' = { g with state := s' } := by
  cases e with
  | none => cases h
  | some e =>
    simp only [lockDevice, Option.map_eq_some_iff, Prod.mk.injEq] at h
    obtain ⟨⟨r', s'⟩, hd, rfl, rfl⟩ := h
    exact ⟨e, s', rfl, hd, rfl⟩

/-- A lock that nobody holds can be taken, or is found poisoned. -/
theorem lockDevice_lock_total {l : L} (h : g.held l = false) :
    ∃ e x, lockDevice (R := R) dev (.lock l) g e = some x := by
  refine ⟨none, ?_⟩
  cases hp : g.poisoned l with
  | true => exact ⟨(true, g), by simp [lockDevice, h, hp]⟩
  | false =>
    exact ⟨(false, { g with held := Function.update g.held l true }), by simp [lockDevice, h, hp]⟩

theorem lockDevice_run_total {c : C} (h : ∃ e x, dev c g.state e = some x) :
    ∃ e x, lockDevice dev (.run c) g e = some x := by
  obtain ⟨e, x, hx⟩ := h
  exact ⟨some e, (x.1, { g with state := x.2 }), by simp [lockDevice, hx]⟩

end Device

/-! ## Discipline -/

/-- With the lock `h` held: one lock at a time, none at the end, and a command only with a lock that
guards it. -/
def Prog.Disciplined (guards : L → C → Prop) : Option L → LockProg L C R α → Prop
  | h, .ret _ => h = none
  | h, .call (.lock l) k =>
    h = none ∧ (k true).Disciplined guards none ∧ (k false).Disciplined guards (some l)
  | h, .call (.unlock l _) k => h = some l ∧ (k ()).Disciplined guards none
  | h, .call (.run c) k => (∃ l, h = some l ∧ guards l c) ∧ ∀ r, (k r).Disciplined guards h

theorem Prog.Disciplined.bind {guards : L → C → Prop} {h : Option L} {p : LockProg L C R α}
    {f : α → LockProg L C R β} (hp : p.Disciplined guards h)
    (hf : ∀ a, (f a).Disciplined guards none) : (p.bind f).Disciplined guards h := by
  induction p generalizing h with
  | ret a =>
    cases hp
    exact hf a
  | call c k ih =>
    cases c with
    | lock l => exact ⟨hp.1, ih true hp.2.1, ih false hp.2.2⟩
    | unlock l poison => exact ⟨hp.1, ih () hp.2⟩
    | run c => exact ⟨hp.1, fun r => ih r (hp.2 r)⟩

/-- A part of a program that stays under one lock. -/
theorem Prog.Disciplined.inside_bind {guards : L → C → Prop} {l : L} {p : Prog C R α}
    {f : α → LockProg L C R β} (hp : p.Only (guards l))
    (hf : ∀ a, (f a).Disciplined guards (some l)) :
    (p.inside.bind f).Disciplined guards (some l) := by
  induction p with
  | ret a => exact hf a
  | call c k ih => exact ⟨⟨l, rfl, hp.1⟩, fun r => ih r (hp.2 r)⟩

theorem Prog.Within.inside {n : Nat} {p : Prog C R α} (hp : p.Within n) :
    (p.inside : LockProg L C R α).Within n := by
  induction p generalizing n with
  | ret a => cases n <;> trivial
  | call c k ih =>
    cases n with
    | zero => exact hp.elim
    | succ n => exact fun r => ih r (hp r)

/-- What a task holds after an event. -/
def heldAfter (h : Option L) : Event (LockCmd L C) (LockCmd.Res R) → Option L
  | ⟨.lock l, found⟩ => bif (found : Bool) then h else some l
  | ⟨.unlock _ _, _⟩ => none
  | ⟨.run _, _⟩ => h

/-- The lock a task holds, by its log. -/
def Task.holds (t : Task P (LockCmd L C) (LockCmd.Res R) α) : Option L := t.log.foldl heldAfter none

theorem Task.holds_snoc {who : P} {p : LockProg L C R α}
    {log : List (Event (LockCmd L C) (LockCmd.Res R))} {ev : Event (LockCmd L C) (LockCmd.Res R)}
    {q : LockProg L C R α} :
    Task.holds { who, prog := p, log := log ++ [ev] } =
      heldAfter (Task.holds { who, prog := q, log }) ev := by
  simp [Task.holds]

/-! ## Order -/

section Order

variable [DecidableEq L]

/-- Whether the task holds this lock. -/
def Task.isHolder (l : L) (t : Task P (LockCmd L C) (LockCmd.Res R) α) : Bool :=
  decide (t.holds = some l)

/-- Every lock has as many holders as its flag says, none or one, and what is left of every task is
disciplined. -/
structure Orderly (guards : L → C → Prop) (pool : Pool P (LockCmd L C) (LockCmd.Res R) (Guarded L S) α) :
    Prop where
  disciplined : ∀ t ∈ pool.tasks, t.prog.Disciplined guards t.holds
  kept : ∀ t ∈ pool.tasks, t.dropped = false
  holders : ∀ l, pool.tasks.countP (Task.isHolder l) = (pool.shared.held l).toNat

namespace Orderly

variable {guards : L → C → Prop} {pool pool' : Pool P (LockCmd L C) (LockCmd.Res R) (Guarded L S) α}

theorem start (s : S) :
    Orderly guards ({ shared := { state := s } } : Pool P (LockCmd L C) (LockCmd.Res R)
      (Guarded L S) α) :=
  ⟨fun _ ht => absurd ht List.not_mem_nil, fun _ ht => absurd ht List.not_mem_nil, fun _ => rfl⟩

/-- A lock that is held has a holder. -/
theorem holder (h : Orderly guards pool) {l : L} :
    pool.shared.held l = true ↔ ∃ t ∈ pool.tasks, t.holds = some l := by
  have hcount := h.holders l
  constructor
  · intro hl
    have hpos : 0 < pool.tasks.countP (Task.isHolder l) := by simp [hcount, hl]
    obtain ⟨t, ht, hh⟩ := List.countP_pos_iff.mp hpos
    exact ⟨t, ht, of_decide_eq_true hh⟩
  · rintro ⟨t, ht, hl⟩
    have hpos : 0 < pool.tasks.countP (Task.isHolder l) :=
      List.countP_pos_iff.mpr ⟨t, ht, decide_eq_true hl⟩
    rw [hcount] at hpos
    cases hf : pool.shared.held l with
    | true => rfl
    | false => simp [hf] at hpos

theorem spawn (h : Orderly guards pool) {p : P} {prog : LockProg L C R α}
    (hp : prog.Disciplined guards none) :
    Orderly guards { pool with tasks := pool.tasks ++ [{ who := p, prog }] } := by
  refine ⟨?_, ?_, fun l => ?_⟩
  · intro t ht
    rcases List.mem_append.mp ht with ht | ht
    · exact h.disciplined t ht
    · obtain rfl := List.mem_singleton.mp ht
      exact hp
  · intro t ht
    rcases List.mem_append.mp ht with ht | ht
    · exact h.kept t ht
    · obtain rfl := List.mem_singleton.mp ht
      rfl
  · rw [List.countP_append, h.holders l]
    rfl

/-- A task goes on: the flags have to follow what it holds. -/
theorem set (h : Orderly guards pool) {i : Nat} {t u : Task P (LockCmd L C) (LockCmd.Res R) α}
    {g : Guarded L S} (hi : pool.tasks[i]? = some t) (hdrop : u.dropped = false)
    (hu : u.prog.Disciplined guards u.holds)
    (hflag : ∀ l, (g.held l).toNat + (t.isHolder l).toNat =
      (pool.shared.held l).toNat + (u.isHolder l).toNat) :
    Orderly guards { shared := g, tasks := pool.tasks.set i u } := by
  refine ⟨?_, ?_, fun l => ?_⟩
  · intro v hv
    rcases List.mem_or_eq_of_mem_set hv with hv | rfl
    · exact h.disciplined v hv
    · exact hu
  · intro v hv
    rcases List.mem_or_eq_of_mem_set hv with hv | rfl
    · exact h.kept v hv
    · exact hdrop
  · have hcount := countP_set_add (p := Task.isHolder l) (a := u) hi
    have := h.holders l
    have := hflag l
    show (pool.tasks.set i u).countP (Task.isHolder l) = (g.held l).toNat
    omega

/-- **One step keeps order.** -/
theorem step {code : P → LockProg L C R α} {dev : Device C R S E}
    (hcode : ∀ p, (code p).Disciplined guards none) (h : Orderly guards pool)
    {act : Act P (Option E) Empty} (hstep : (lockSystem code dev).step pool act = some pool') :
    Orderly guards pool' := by
  cases act with
  | spawn p =>
    simp only [System.step, Option.some.injEq] at hstep
    subst hstep
    exact h.spawn (hcode p)
  | cancel i =>
    obtain ⟨_, _, _, _, _, hawait, _⟩ := System.step_cancel hstep
    cases hawait
  | env x => exact x.elim
  | step i e =>
    obtain ⟨who, c, k, log, r, g, hi, hd, rfl⟩ := System.step_task hstep
    have hdisc := h.disciplined _ (List.mem_of_getElem? hi)
    cases c with
    | lock l =>
      obtain ⟨hnone, hpoisoned, htaken⟩ := hdisc
      obtain ⟨hfree, ⟨-, rfl, rfl⟩ | ⟨-, rfl, rfl⟩⟩ := lockDevice_lock hd
      · refine h.set hi rfl ?_ fun l' => ?_
        · rw [Task.holds_snoc (q := .call (.lock l) k), hnone]
          exact hpoisoned
        · rw [Task.isHolder, Task.isHolder, Task.holds_snoc (q := .call (.lock l) k)]
          rfl
      · refine h.set hi rfl ?_ fun l' => ?_
        · rw [Task.holds_snoc (q := .call (.lock l) k)]
          exact htaken
        · rw [Task.isHolder, Task.isHolder, Task.holds_snoc (q := .call (.lock l) k), hnone]
          by_cases hl : l' = l
          · subst hl
            simp [heldAfter, hfree]
          · simp [heldAfter, Function.update_of_ne hl, Ne.symm hl]
    | unlock l poison =>
      obtain ⟨hheld, hrest⟩ := hdisc
      obtain rfl := lockDevice_unlock hd
      have hset : pool.shared.held l = true := h.holder.mpr ⟨_, List.mem_of_getElem? hi, hheld⟩
      refine h.set hi rfl ?_ fun l' => ?_
      · rw [Task.holds_snoc (q := .call (.unlock l poison) k)]
        exact hrest
      · rw [Task.isHolder, Task.isHolder, Task.holds_snoc (q := .call (.unlock l poison) k), hheld]
        by_cases hl : l' = l
        · subst hl
          simp [heldAfter, hset]
        · simp [heldAfter, Function.update_of_ne hl, Ne.symm hl]
    | run c =>
      obtain ⟨hheld, hrest⟩ := hdisc
      obtain ⟨e', s', -, -, rfl⟩ := lockDevice_run hd
      refine h.set hi rfl ?_ fun l' => ?_
      · rw [Task.holds_snoc (q := .call (.run c) k)]
        exact hrest r
      · rw [Task.isHolder, Task.isHolder, Task.holds_snoc (q := .call (.run c) k)]
        rfl

/-- **Order is kept along every run.** -/
theorem run {code : P → LockProg L C R α} {dev : Device C R S E}
    (hcode : ∀ p, (code p).Disciplined guards none) (h : Orderly guards pool)
    {acts : List (Act P (Option E) Empty)}
    (hrun : runs (lockSystem code dev).step pool acts = some pool') : Orderly guards pool' :=
  runs_invariant (fun _ _ _ ho _ hstep => ho.step hcode hstep) h along_true hrun

/-- Nobody shares a lock. -/
theorem alone (h : Orderly guards pool) {i j : Nat}
    {t u : Task P (LockCmd L C) (LockCmd.Res R) α} {l : L} (hi : pool.tasks[i]? = some t)
    (hj : pool.tasks[j]? = some u) (ht : t.holds = some l) (hu : u.holds = some l) : i = j := by
  by_contra hij
  -- with `t` taken out, `u` is still there to be counted
  let gone : Task P (LockCmd L C) (LockCmd.Res R) α := { t with log := [] }
  have hcount := countP_set_add (p := Task.isHolder l) (a := gone) hi
  have hpos : 0 < (pool.tasks.set i gone).countP (Task.isHolder l) :=
    List.countP_pos_iff.mpr ⟨u, List.mem_of_getElem? ((List.getElem?_set_ne hij).trans hj),
      decide_eq_true hu⟩
  have hone : (t.isHolder l).toNat = 1 := by simp [Task.isHolder, ht]
  have hgone : (gone.isHolder l).toNat = 0 := rfl
  have hle : (pool.shared.held l).toNat ≤ 1 := Bool.toNat_le _
  have := h.holders l
  omega

/-- Once all is done, no lock is left taken. -/
theorem free (h : Orderly guards pool) (hquiet : pool.quiescent) (l : L) :
    pool.shared.held l = false := by
  cases hheld : pool.shared.held l with
  | false => rfl
  | true =>
    obtain ⟨t, ht, hl⟩ := h.holder.mp hheld
    have hdisc := h.disciplined t ht
    have hrest := hquiet t ht
    have hkept := h.kept t ht
    cases hprog : t.prog with
    | ret a =>
      rw [hprog, hl] at hdisc
      cases hdisc
    | call c k => simp [Task.inFlight, Task.next?, hprog, hkept] at hrest

/-! ## Progress -/

/-- **Somebody can go on**, as long as somebody is in flight and the device answers every command:
a holder, or, where there is none, anybody. -/
theorem progress {code : P → LockProg L C R α} {dev : Device C R S E} (h : Orderly guards pool)
    (hdev : ∀ c s, ∃ e x, dev c s e = some x) (hflight : ∃ t ∈ pool.tasks, t.inFlight = true) :
    ∃ i e pool', (lockSystem code dev).step pool (.step i e) = some pool' := by
  have hgo : ∀ t ∈ pool.tasks, ∀ c k, t.prog = .call c k →
      (∃ e x, lockDevice dev c pool.shared e = some x) →
      ∃ i e pool', (lockSystem code dev).step pool (.step i e) = some pool' := by
    intro t ht c k hprog hanswer
    obtain ⟨i, hi⟩ := List.mem_iff_getElem?.mp ht
    obtain ⟨e, x, hx⟩ := hanswer
    have hkept := h.kept t ht
    obtain ⟨who, prog, log, dropped⟩ := t
    cases hprog
    cases hkept
    exact ⟨i, e, _, System.step_of_dev (M := lockSystem code dev) hi hx⟩
  by_cases hheld : ∃ t ∈ pool.tasks, ∃ l, t.holds = some l
  · obtain ⟨t, ht, l, hl⟩ := hheld
    have hdisc := h.disciplined t ht
    rw [hl] at hdisc
    cases hprog : t.prog with
    | ret a =>
      rw [hprog] at hdisc
      cases hdisc
    | call c k =>
      rw [hprog] at hdisc
      refine hgo t ht c k hprog ?_
      cases c with
      | lock l' => cases hdisc.1
      | unlock l' poison => exact ⟨none, _, rfl⟩
      | run c => exact lockDevice_run_total (hdev c _)
  · obtain ⟨t, ht, hf⟩ := hflight
    have hnone : ∀ u ∈ pool.tasks, u.holds = none := by
      intro u hu
      cases hl : u.holds with
      | none => rfl
      | some l => exact absurd ⟨u, hu, l, hl⟩ hheld
    have hdisc := h.disciplined t ht
    rw [hnone t ht] at hdisc
    cases hprog : t.prog with
    | ret a => simp [Task.inFlight, Task.next?, hprog] at hf
    | call c k =>
      rw [hprog] at hdisc
      refine hgo t ht c k hprog ?_
      cases c with
      | lock l =>
        refine lockDevice_lock_total ?_
        cases hl : pool.shared.held l with
        | false => rfl
        | true =>
          obtain ⟨u, hu, hholds⟩ := h.holder.mp hl
          rw [hnone u hu] at hholds
          cases hholds
      | unlock l poison => cases hdisc.1
      | run c =>
        obtain ⟨l, hl, -⟩ := hdisc.1
        cases hl

end Orderly

end Order

end Lib
