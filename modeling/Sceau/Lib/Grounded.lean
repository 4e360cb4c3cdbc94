import Sceau.Lib.Pool

/-!
# What a program's commands rest on

A program read with its own past in hand. `Grounded J B` says that every command it issues is one
`J` allows after the commands and answers before it, and that it ends in `B`, whatever it is
answered. No device occurs in it and nothing another task does can disturb it, so it needs no
assumption about interleavings. In a pool every task keeps its log, and the logs together are the
pool's **history**; `runs_history` is the invariant rule for a state and its history, in which what a
device makes of a command is argued from the past of whoever issued it.
-/

set_option autoImplicit false

namespace Lib

variable {P C : Type} {R : C → Type} {S E X α β ε : Type}

namespace Prog

def Grounded (J : List (Event C R) → C → Prop) :
    Prog C R α → (List (Event C R) → α → Prop) → List (Event C R) → Prop
  | .ret a, B, log => B log a
  | .call c k, B, log => J log c ∧ ∀ r, (k r).Grounded J B (log ++ [⟨c, r⟩])

section Rules

variable {J : List (Event C R) → C → Prop} {log : List (Event C R)}

theorem Grounded.mono {p : Prog C R α} {B B' : List (Event C R) → α → Prop}
    (hB : ∀ log' a, B log' a → B' log' a) (hp : p.Grounded J B log) : p.Grounded J B' log := by
  induction p generalizing log with
  | ret a => exact hB _ _ hp
  | call c k ih => exact ⟨hp.1, fun r => ih r (hp.2 r)⟩

theorem Grounded.bind {p : Prog C R α} {f : α → Prog C R β} {B : List (Event C R) → β → Prop}
    (hp : p.Grounded J (fun log' a => (f a).Grounded J B log') log) :
    (p.bind f).Grounded J B log := by
  induction p generalizing log with
  | ret a => exact hp
  | call c k ih => exact ⟨hp.1, fun r => ih r (hp.2 r)⟩

/-- The past is not forgotten. -/
theorem Grounded.longer {p : Prog C R α} {B : List (Event C R) → α → Prop}
    (hp : p.Grounded J B log) : p.Grounded J (fun log' a => log ⊆ log' ∧ B log' a) log := by
  induction p generalizing log with
  | ret a => exact ⟨List.Subset.refl _, hp⟩
  | call c k ih =>
    refine ⟨hp.1, fun r => (ih r (hp.2 r)).mono ?_⟩
    intro log' a h
    exact ⟨List.Subset.trans (List.subset_append_left _ _) h.1, h.2⟩

/-- Commands that need no past. -/
theorem Only.grounded {Y : C → Prop} (hY : ∀ log' c, Y c → J log' c) {p : Prog C R α}
    (hp : p.Only Y) : p.Grounded J (fun _ _ => True) log := by
  induction p generalizing log with
  | ret a => trivial
  | call c k ih => exact ⟨hY _ _ hp.1, fun r => ih r (hp.2 r)⟩

/-- Commands that need no past and keep what is known of all commands so far. -/
theorem Only.grounded_all {Y Z : C → Prop} (hY : ∀ log' c, Y c → J log' c) (hYZ : ∀ c, Y c → Z c)
    {p : Prog C R α} (hp : p.Only Y) (hlog : ∀ ev ∈ log, Z ev.1) :
    p.Grounded J (fun log' _ => ∀ ev ∈ log', Z ev.1) log := by
  induction p generalizing log with
  | ret a => exact hlog
  | call c k ih =>
    refine ⟨hY _ _ hp.1, fun r => ih r (hp.2 r) ?_⟩
    exact List.forall_mem_append.mpr ⟨hlog, List.forall_mem_singleton.mpr (hYZ c hp.1)⟩

/-! Of a fallible program what matters is mostly the value it returns, if it returns one. -/

/-- Grounded, and a value it returns satisfies `Q`. -/
abbrev GroundedOk (J : List (Event C R) → C → Prop) (x : ExceptT ε (Prog C R) α)
    (Q : List (Event C R) → α → Prop) (log : List (Event C R)) : Prop :=
  x.run.Grounded J (fun log' r => ∀ a, r = .ok a → Q log' a) log

theorem GroundedOk.bind {x : ExceptT ε (Prog C R) α} {f : α → ExceptT ε (Prog C R) β}
    {Q : List (Event C R) → α → Prop} {Q' : List (Event C R) → β → Prop}
    (hx : GroundedOk J x Q log)
    (hf : ∀ a log', log ⊆ log' → Q log' a → GroundedOk J (f a) Q' log') :
    GroundedOk J (x >>= f) Q' log := by
  show (x >>= f).run.Grounded J _ log
  rw [Prog.run_bind]
  refine Grounded.bind (hx.longer.mono ?_)
  intro log' r h
  cases r with
  | ok a => exact hf a log' h.1 (h.2 a rfl)
  | error e => exact fun _ ha => by cases ha

theorem GroundedOk.pure {a : α} {Q : List (Event C R) → α → Prop} (h : Q log a) :
    GroundedOk J (pure a : ExceptT ε (Prog C R) α) Q log :=
  fun _ hb => Except.ok.inj hb ▸ h

theorem GroundedOk.mapErr {ε' : Type} {f : ε → ε'} {x : ExceptT ε (Prog C R) α}
    {Q : List (Event C R) → α → Prop} (hx : GroundedOk J x Q log) :
    GroundedOk J (Prog.mapErr f x) Q log := by
  refine Grounded.bind (hx.mono ?_)
  intro log' r h a ha
  cases r with
  | ok b => exact h a (congrArg Except.ok (Except.ok.inj ha))
  | error e => cases ha

/-- A result that is looked at instead of being propagated. -/
theorem GroundedOk.lift {p : Prog C R α} {Q : List (Event C R) → α → Prop}
    (hp : p.Grounded J Q log) : GroundedOk J (liftM p : ExceptT ε (Prog C R) α) Q log := by
  show (liftM p : ExceptT ε (Prog C R) α).run.Grounded J _ log
  rw [Prog.run_lift]
  refine Grounded.bind (hp.mono ?_)
  intro log' a h b hb
  exact Except.ok.inj hb ▸ h

/-- One command, and what is done with its answer. -/
theorem GroundedOk.call {c : C} {f : R c → ExceptT ε (Prog C R) β}
    {Q : List (Event C R) → β → Prop} (hc : J log c)
    (hf : ∀ r, GroundedOk J (f r) Q (log ++ [⟨c, r⟩])) :
    GroundedOk J
      ((liftM (Prog.call c .ret : Prog C R (R c)) : ExceptT ε (Prog C R) (R c)) >>= f) Q log :=
  ⟨hc, hf⟩

theorem Only.groundedOk {Y : C → Prop} (hY : ∀ log' c, Y c → J log' c)
    {x : ExceptT ε (Prog C R) α} (hx : x.run.Only Y) : GroundedOk J x (fun _ _ => True) log :=
  (hx.grounded hY).mono fun _ _ _ _ _ => trivial

end Rules

end Prog

/-! ## In a pool -/

/-- Who did what, and after what: one entry for each command that was answered, with the commands and
answers of the same task before it. -/
abbrev History (P C : Type) (R : C → Type) : Type :=
  P → List (Event C R) → Event C R → Prop

/-- One command more. -/
def History.add (H : History P C R) (who : P) (before : List (Event C R)) (ev : Event C R) :
    History P C R :=
  fun who' before' ev' => H who' before' ev' ∨ who' = who ∧ before' = before ∧ ev' = ev

/-- The history has all of this past of `who`, and each command of it rested on what came before. -/
def History.Covers (H : History P C R) (J : P → List (Event C R) → C → Prop) (who : P)
    (past : List (Event C R)) : Prop :=
  ∀ ev ∈ past, ∃ before, before ⊆ past ∧ H who before ev ∧ J who before ev.1

/-- The entries of a task. -/
def Task.history (t : Task P C R α) : History P C R :=
  fun who before ev => t.who = who ∧ ∃ after, t.log = before ++ ev :: after

/-- The history of a pool, read off the logs of its tasks. -/
def Pool.history (pool : Pool P C R S α) : History P C R :=
  fun who before ev => ∃ t ∈ pool.tasks, t.history who before ev

section Runs

variable {M : System P C R S E X α} {J : P → List (Event C R) → C → Prop}

/-- What a task does next rests on its log. -/
abbrev Task.Grounded (J : P → List (Event C R) → C → Prop) (t : Task P C R α) : Prop :=
  t.prog.Grounded (J t.who) (fun _ _ => True) t.log

theorem Task.history_snoc {who : P} {p q : Prog C R α} {log : List (Event C R)} {ev : Event C R} :
    Task.history { who, prog := p, log := log ++ [ev] } =
      (Task.history { who, prog := q, log }).add who log ev := by
  funext who' before ev'
  refine propext ⟨?_, ?_⟩
  · rintro ⟨rfl, after, hlog⟩
    rcases List.eq_nil_or_concat after with rfl | ⟨rest, last, rfl⟩
    · obtain ⟨rfl, hev⟩ := List.append_inj' hlog rfl
      exact .inr ⟨rfl, rfl, (List.cons.inj hev).1.symm⟩
    · have hlog' : log ++ [ev] = (before ++ ev' :: rest) ++ [last] := by simpa using hlog
      exact .inl ⟨rfl, rest, (List.append_inj' hlog' rfl).1⟩
  · rintro (⟨hwho, after, hlog⟩ | ⟨rfl, rfl, rfl⟩)
    · refine ⟨hwho, after ++ [ev], ?_⟩
      show log ++ [ev] = _
      rw [show log = before ++ ev' :: after from hlog, List.append_assoc, List.cons_append]
    · exact ⟨rfl, [], rfl⟩

/-- Replacing a task by one with the same history, and perhaps more. -/
theorem Pool.history_set {tasks : List (Task P C R α)} {i : Nat} {t u : Task P C R α} {s s' : S}
    (hi : tasks[i]? = some t) {H : History P C R}
    (hu : ∀ who before ev, u.history who before ev ↔ t.history who before ev ∨ H who before ev) :
    Pool.history { shared := s', tasks := tasks.set i u } = fun who before ev =>
      Pool.history { shared := s, tasks } who before ev ∨ H who before ev := by
  funext who before ev
  refine propext ⟨?_, ?_⟩
  · rintro ⟨v, hv, h⟩
    rcases List.mem_or_eq_of_mem_set hv with hv | rfl
    · exact .inl ⟨v, hv, h⟩
    · exact ((hu who before ev).mp h).imp_left fun h => ⟨t, List.mem_of_getElem? hi, h⟩
  · have hmem : u ∈ tasks.set i u := List.mem_set (List.getElem?_eq_some_iff.mp hi).1 u
    rintro (⟨v, hv, h⟩ | h)
    · obtain ⟨j, hj⟩ := List.mem_iff_getElem?.mp hv
      by_cases hij : i = j
      · subst hij
        obtain rfl := Option.some.inj (hi.symm.trans hj)
        exact ⟨u, hmem, (hu who before ev).mpr (.inl h)⟩
      · refine ⟨v, List.mem_iff_getElem?.mpr ⟨j, ?_⟩, h⟩
        rw [List.getElem?_set_ne hij]
        exact hj
    · exact ⟨u, hmem, (hu who before ev).mpr (.inr h)⟩

theorem Pool.history_nil (s : S) :
    Pool.history ({ shared := s } : Pool P C R S α) = fun _ _ _ => False := by
  funext who before ev
  exact propext ⟨fun ⟨t, ht, _⟩ => absurd ht List.not_mem_nil, False.elim⟩

/-- What a task has done is in the history. -/
theorem Pool.history_covers {pool : Pool P C R S α}
    (hpast : ∀ who before ev, pool.history who before ev → J who before ev.1) {t : Task P C R α}
    (ht : t ∈ pool.tasks) : pool.history.Covers J t.who t.log := by
  intro ev hev
  obtain ⟨before, after, hlog⟩ := List.append_of_mem hev
  have hdid : pool.history t.who before ev := ⟨t, ht, rfl, after, hlog⟩
  refine ⟨before, ?_, hdid, hpast _ _ _ hdid⟩
  rw [hlog]
  exact List.subset_append_left _ _

theorem Pool.history_spawn (pool : Pool P C R S α) (p : P) (q : Prog C R α) :
    Pool.history { pool with tasks := pool.tasks ++ [{ who := p, prog := q }] } = pool.history := by
  funext who before ev
  refine propext ⟨?_, fun ⟨t, ht, h⟩ => ⟨t, List.mem_append_left _ ht, h⟩⟩
  rintro ⟨t, ht, h⟩
  rcases List.mem_append.mp ht with ht | ht
  · exact ⟨t, ht, h⟩
  · obtain rfl := List.mem_singleton.mp ht
    obtain ⟨-, after, hlog⟩ := h
    simp at hlog

/-- The answer to a command is one entry more. -/
theorem Pool.history_answer {pool : Pool P C R S α} {i : Nat} {who : P} {c : C}
    {k : R c → Prog C R α} {log : List (Event C R)}
    (hi : pool.tasks[i]? = some { who, prog := .call c k, log }) (r : R c) (s' : S) :
    Pool.history { shared := s',
                   tasks := pool.tasks.set i { who, prog := k r, log := log ++ [⟨c, r⟩] } } =
      pool.history.add who log ⟨c, r⟩ := by
  refine Pool.history_set (s := pool.shared) hi fun who' before ev => ?_
  rw [Task.history_snoc (q := .call c k)]
  exact Iff.rfl

theorem Pool.history_drop {pool : Pool P C R S α} {i : Nat} {who : P} {q : Prog C R α}
    {log : List (Event C R)} (hi : pool.tasks[i]? = some { who, prog := q, log }) :
    Pool.history { pool with
      tasks := pool.tasks.set i { who, prog := q, log, dropped := true } } = pool.history := by
  have hset : Pool.history { pool with
      tasks := pool.tasks.set i { who, prog := q, log, dropped := true } } = fun who' before ev =>
      pool.history who' before ev ∨ False :=
    Pool.history_set hi fun _ _ _ => (iff_of_eq (or_false _)).symm
  simpa only [or_false] using hset

/-- One action leaves every task grounded. -/
theorem System.step_grounded {allowed : P → Prop}
    (hcode : ∀ p, allowed p → (M.code p).Grounded (J p) (fun _ _ => True) [])
    {pool pool' : Pool P C R S α} {act : Act P E X}
    (htasks : ∀ t ∈ pool.tasks, allowed t.who ∧ t.Grounded J) (hact : SpawnOnly allowed pool act)
    (hstep : M.step pool act = some pool') : ∀ t ∈ pool'.tasks, allowed t.who ∧ t.Grounded J := by
  cases act with
  | spawn p =>
    simp only [System.step, Option.some.injEq] at hstep
    subst hstep
    intro t ht
    rcases List.mem_append.mp ht with ht | ht
    · exact htasks t ht
    · obtain rfl := List.mem_singleton.mp ht
      exact ⟨hact, hcode p hact⟩
  | step i e =>
    obtain ⟨who, c, k, log, r, s', hi, -, rfl⟩ := System.step_task hstep
    obtain ⟨hallowed, hground⟩ := htasks _ (List.mem_of_getElem? hi)
    intro t ht
    rcases List.mem_or_eq_of_mem_set ht with ht | rfl
    · exact htasks t ht
    · exact ⟨hallowed, hground.2 r⟩
  | cancel i =>
    obtain ⟨who, c, k, log, hi, -, rfl⟩ := System.step_cancel hstep
    intro t ht
    rcases List.mem_or_eq_of_mem_set ht with ht | rfl
    · exact htasks t ht
    · have htask := htasks _ (List.mem_of_getElem? hi)
      exact htask
  | env x =>
    simp only [System.step, Option.map_eq_some_iff] at hstep
    obtain ⟨s, -, rfl⟩ := hstep
    exact htasks

/-- In a pool of grounded programs the command a task is at rests on its log. -/
theorem runs_grounded (hcode : ∀ p, (M.code p).Grounded (J p) (fun _ _ => True) []) {s₀ : S}
    {acts : List (Act P E X)} {pool : Pool P C R S α}
    (hr : runs M.step { shared := s₀ } acts = some pool) {t : Task P C R α} (ht : t ∈ pool.tasks)
    {c : C} (hc : t.next? = some c) : J t.who t.log c := by
  have hall : ∀ t ∈ pool.tasks, True ∧ t.Grounded J :=
    runs_invariant (I := fun pool : Pool P C R S α => ∀ t ∈ pool.tasks, True ∧ t.Grounded J)
      (fun _ _ _ htasks hact hstep => System.step_grounded (fun p _ => hcode p) htasks hact hstep)
      (fun _ ht => absurd ht List.not_mem_nil) (along_spawnOnly (fun _ _ => trivial) _) hr
  obtain ⟨k, hprog⟩ := Task.call_of_next hc
  have hground := (hall t ht).2
  rw [Task.Grounded, hprog] at hground
  exact hground.1

/-- **Invariants of the history and the state.** A command is looked at once, when it is answered: it
rests on what its task has done before, and the history has all of that. -/
theorem runs_history {allowed : P → Prop}
    (hcode : ∀ p, allowed p → (M.code p).Grounded (J p) (fun _ _ => True) [])
    {I : History P C R → S → Prop}
    (hdev : ∀ H s who before c e r s', allowed who → I H s → H.Covers J who before →
      J who before c → M.dev who c s e = some (r, s') → I (H.add who before ⟨c, r⟩) s')
    (henv : ∀ H s x s', I H s → M.env s x = some s' → I H s')
    {s₀ : S} (h₀ : I (fun _ _ _ => False) s₀) {acts : List (Act P E X)} {pool : Pool P C R S α}
    (hg : Along M.step (SpawnOnly allowed) { shared := s₀ } acts)
    (hr : runs M.step { shared := s₀ } acts = some pool) : I pool.history pool.shared := by
  have hall : I pool.history pool.shared ∧
      (∀ who before ev, pool.history who before ev → J who before ev.1) ∧
      ∀ t ∈ pool.tasks, allowed t.who ∧ t.Grounded J := by
    refine runs_invariant (I := fun pool : Pool P C R S α => I pool.history pool.shared ∧
      (∀ who before ev, pool.history who before ev → J who before ev.1) ∧
      ∀ t ∈ pool.tasks, allowed t.who ∧ t.Grounded J) ?_ ?_ hg hr
    · intro pool act pool' hpool hact hstep
      obtain ⟨hI, hpast, htasks⟩ := hpool
      have htasks' := System.step_grounded hcode htasks hact hstep
      cases act with
      | spawn p =>
        simp only [System.step, Option.some.injEq] at hstep
        subst hstep
        rw [Pool.history_spawn]
        exact ⟨hI, hpast, htasks'⟩
      | step i e =>
        obtain ⟨who, c, k, log, r, s', hi, hd, rfl⟩ := System.step_task hstep
        have hmem := List.mem_of_getElem? hi
        obtain ⟨hallowed, hground⟩ := htasks _ hmem
        rw [Pool.history_answer hi]
        refine ⟨?_, ?_, htasks'⟩
        · exact hdev _ _ who log c e r s' hallowed hI (Pool.history_covers hpast hmem) hground.1 hd
        · intro who' before ev hdid
          rcases hdid with hdid | ⟨rfl, rfl, rfl⟩
          · exact hpast _ _ _ hdid
          · exact hground.1
      | cancel i =>
        obtain ⟨who, c, k, log, hi, -, rfl⟩ := System.step_cancel hstep
        rw [Pool.history_drop hi]
        exact ⟨hI, hpast, htasks'⟩
      | env x =>
        simp only [System.step, Option.map_eq_some_iff] at hstep
        obtain ⟨s, hs, rfl⟩ := hstep
        exact ⟨henv _ _ x s hI hs, hpast, htasks'⟩
    · rw [Pool.history_nil]
      exact ⟨h₀, fun _ _ _ h => h.elim, fun _ ht => absurd ht List.not_mem_nil⟩
  exact hall.1

end Runs

end Lib
