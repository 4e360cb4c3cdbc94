import Sceau.Lib.Prog
import Sceau.Lib.Run

/-!
# Pools of command programs

Any number of tasks, each a command program, over one shared state. One action of the pool is one
command of one task, so a run of the pool is an interleaving at the granularity of single
commands. Besides stepping a task, the surroundings may spawn one, drop one that is suspended at
an await point, or move the shared state on their own.

Every task keeps the log of its own commands and answers. The log is ghost — no step reads it —
and it is what statements about a task's past are written over.

`Safe` is the rely–guarantee reading of a program: at each command the shared state may have been
moved along `le` by everybody else, and the command has to move it along `le` itself. `runs_safe`
then says that a pool of safe tasks only ever moves along `le`.
-/

set_option autoImplicit false

namespace Lib

variable {P C : Type} {R : C → Type} {S E X α : Type}

/-- A task: who it is, what is left of its program, what it has done, whether it was dropped. -/
structure Task (P C : Type) (R : C → Type) (α : Type) where
  who : P
  prog : Prog C R α
  log : List (Event C R) := []
  dropped : Bool := false

structure Pool (P C : Type) (R : C → Type) (S α : Type) where
  shared : S
  tasks : List (Task P C R α) := []

/-- What tasks run, what their commands do, where they can be dropped, and what the surroundings
can do to the shared state. -/
structure System (P C : Type) (R : C → Type) (S E X α : Type) where
  code : P → Prog C R α
  dev : P → Device C R S E
  await : C → Bool
  env : S → X → Option S

inductive Act (P E X : Type) where
  | spawn (p : P)
  | step (i : Nat) (e : E)
  | cancel (i : Nat)
  | env (x : X)

namespace Task

/-- The command a task issues next, unless it has ended or was dropped. -/
def next? (t : Task P C R α) : Option C :=
  match t.dropped, t.prog with
  | false, .call c _ => some c
  | _, _ => none

/-- The result of a task that has ended. -/
def result? (t : Task P C R α) : Option α :=
  match t.dropped, t.prog with
  | false, .ret a => some a
  | _, _ => none

/-- Neither ended nor dropped. -/
def inFlight (t : Task P C R α) : Bool := t.next?.isSome

theorem call_of_next {t : Task P C R α} {c : C} (h : t.next? = some c) :
    ∃ k, t.prog = .call c k := by
  unfold next? at h
  split at h
  · rename_i c' k _ hprog
    obtain rfl := Option.some.inj h
    exact ⟨k, hprog⟩
  · cases h

theorem ret_of_result {t : Task P C R α} {a : α} (h : t.result? = some a) : t.prog = .ret a := by
  unfold result? at h
  split at h
  · rename_i b _ hprog
    obtain rfl := Option.some.inj h
    exact hprog
  · cases h

end Task

namespace System

variable (M : System P C R S E X α)

def step (pool : Pool P C R S α) : Act P E X → Option (Pool P C R S α)
  | .spawn p => some { pool with tasks := pool.tasks ++ [{ who := p, prog := M.code p }] }
  | .step i e =>
    match pool.tasks[i]? with
    | some { who, prog := .call c k, log, dropped := false } =>
      (M.dev who c pool.shared e).map fun x =>
        { shared := x.2
          tasks := pool.tasks.set i { who, prog := k x.1, log := log ++ [⟨c, x.1⟩] } }
    | _ => none
  | .cancel i =>
    match pool.tasks[i]? with
    | some { who, prog := .call c k, log, dropped := false } =>
      if M.await c then
        some { pool with
          tasks := pool.tasks.set i { who, prog := .call c k, log, dropped := true } }
      else none
    | _ => none
  | .env x => (M.env pool.shared x).map fun s => { pool with shared := s }

variable {M}

/-- What stepping a task does, said once. -/
theorem step_task {pool pool' : Pool P C R S α} {i : Nat} {e : E}
    (h : M.step pool (.step i e) = some pool') :
    ∃ who c k log r s', pool.tasks[i]? = some { who, prog := .call c k, log } ∧
      M.dev who c pool.shared e = some (r, s') ∧
      pool' = { shared := s',
                tasks := pool.tasks.set i { who, prog := k r, log := log ++ [⟨c, r⟩] } } := by
  simp only [step] at h
  split at h
  · rename_i who c k log hi
    obtain ⟨⟨r, s'⟩, hd, rfl⟩ := Option.map_eq_some_iff.mp h
    exact ⟨who, c, k, log, r, s', hi, hd, rfl⟩
  · cases h

/-- The converse: a task whose command the device answers can be stepped. -/
theorem step_of_dev {pool : Pool P C R S α} {i : Nat} {e : E} {who : P} {c : C}
    {k : R c → Prog C R α} {log : List (Event C R)} {r : R c} {s' : S}
    (hi : pool.tasks[i]? = some { who, prog := .call c k, log })
    (hd : M.dev who c pool.shared e = some (r, s')) :
    M.step pool (.step i e) = some
      { shared := s'
        tasks := pool.tasks.set i { who, prog := k r, log := log ++ [⟨c, r⟩] } } := by
  simp only [step, hi, hd]
  rfl

theorem step_cancel {pool pool' : Pool P C R S α} {i : Nat}
    (h : M.step pool (.cancel i) = some pool') :
    ∃ who c k log, pool.tasks[i]? = some { who, prog := .call c k, log } ∧ M.await c = true ∧
      pool' = { pool with
                tasks := pool.tasks.set i { who, prog := .call c k, log, dropped := true } } := by
  simp only [step] at h
  split at h
  · rename_i who c k log hi
    split at h
    · rename_i ha
      exact ⟨who, c, k, log, hi, ha, by simpa using h.symm⟩
    · cases h
  · cases h

/-- The log of a task after an action: a new task has none, and who was stepped has one entry more. -/
theorem step_log {pool pool' : Pool P C R S α} {act : Act P E X} (h : M.step pool act = some pool')
    {i : Nat} {t : Task P C R α} (ht : pool'.tasks[i]? = some t) :
    t.log = [] ∨ (∃ u, pool.tasks[i]? = some u ∧ t.log = u.log) ∨
      ∃ u e c r, pool.tasks[i]? = some u ∧ M.dev u.who c pool.shared e = some (r, pool'.shared) ∧
        t.log = u.log ++ [⟨c, r⟩] := by
  cases act with
  | spawn p =>
    simp only [step, Option.some.injEq] at h
    subst h
    simp only [List.getElem?_append] at ht
    split at ht
    · exact .inr (.inl ⟨t, ht, rfl⟩)
    · obtain rfl := List.mem_singleton.mp (List.mem_of_getElem? ht)
      exact .inl rfl
  | step k e =>
    obtain ⟨who, c, q, log, r, s', hk, hd, rfl⟩ := step_task h
    by_cases hki : k = i
    · subst hki
      rw [List.getElem?_set_self (List.getElem?_eq_some_iff.mp hk).1] at ht
      obtain rfl := Option.some.inj ht
      exact .inr (.inr ⟨_, e, c, r, hk, hd, rfl⟩)
    · rw [List.getElem?_set_ne hki] at ht
      exact .inr (.inl ⟨t, ht, rfl⟩)
  | cancel k =>
    obtain ⟨who, c, q, log, hk, -, rfl⟩ := step_cancel h
    by_cases hki : k = i
    · subst hki
      rw [List.getElem?_set_self (List.getElem?_eq_some_iff.mp hk).1] at ht
      obtain rfl := Option.some.inj ht
      exact .inr (.inl ⟨_, hk, rfl⟩)
    · rw [List.getElem?_set_ne hki] at ht
      exact .inr (.inl ⟨t, ht, rfl⟩)
  | env x =>
    simp only [step, Option.map_eq_some_iff] at h
    obtain ⟨s, -, rfl⟩ := h
    exact .inr (.inl ⟨t, ht, rfl⟩)

end System

/-! ## One task at a time

A task that is spawned only when the others have ended or were dropped has the state to itself. -/

namespace Pool

variable (pool : Pool P C R S α)

/-- No task is in flight. -/
def quiescent : Prop := ∀ t ∈ pool.tasks, t.inFlight = false

instance : Decidable pool.quiescent := inferInstanceAs (Decidable (∀ t ∈ pool.tasks, _))

/-- At most one task is in flight. -/
def solo : Prop := ∀ (i j : Nat) (t u : Task P C R α), pool.tasks[i]? = some t →
  pool.tasks[j]? = some u → t.inFlight = true → u.inFlight = true → i = j

/-- Tasks do not overlap: one is spawned only when none is in flight. -/
def spawnsAlone : Act P E X → Prop
  | .spawn _ => pool.quiescent
  | _ => True

instance (act : Act P E X) : Decidable (pool.spawnsAlone act) := by
  cases act with
  | spawn p => exact inferInstanceAs (Decidable pool.quiescent)
  | step i e => exact .isTrue trivial
  | cancel i => exact .isTrue trivial
  | env x => exact .isTrue trivial

variable {pool}

/-- Replacing a task in flight keeps at most one in flight. -/
theorem solo.set (h : pool.solo) {i : Nat} {t u : Task P C R α} {s : S}
    (hi : pool.tasks[i]? = some t) (ht : t.inFlight = true) :
    ({ shared := s, tasks := pool.tasks.set i u } : Pool P C R S α).solo := by
  -- whatever flies afterwards sits at an index where something flew before
  have hback : ∀ (j : Nat) (v : Task P C R α), (pool.tasks.set i u)[j]? = some v →
      v.inFlight = true → ∃ w : Task P C R α, pool.tasks[j]? = some w ∧ w.inFlight = true := by
    intro j v hj hv
    by_cases hij : i = j
    · exact ⟨t, hij ▸ hi, ht⟩
    · rw [List.getElem?_set_ne hij] at hj
      exact ⟨v, hj, hv⟩
  intro j k v w hj hk hv hw
  obtain ⟨v', hj', hv'⟩ := hback j v hj hv
  obtain ⟨w', hk', hw'⟩ := hback k w hk hw
  exact h j k v' w' hj' hk' hv' hw'

end Pool

theorem System.step_solo {M : System P C R S E X α} {pool pool' : Pool P C R S α}
    {act : Act P E X} (h : pool.solo) (hg : pool.spawnsAlone act)
    (hstep : M.step pool act = some pool') : pool'.solo := by
  cases act with
  | spawn p =>
    simp only [System.step, Option.some.injEq] at hstep
    subst hstep
    -- everything but the new task is at rest
    have hlast : ∀ i t, (pool.tasks ++ [{ who := p, prog := M.code p }])[i]? = some t →
        t.inFlight = true → i = pool.tasks.length := by
      intro i t hi ht
      rcases Nat.lt_or_ge i pool.tasks.length with hlt | hge
      · rw [List.getElem?_append_left hlt] at hi
        rw [hg t (List.mem_of_getElem? hi)] at ht
        cases ht
      · rw [List.getElem?_append_right hge] at hi
        have hbound := (List.getElem?_eq_some_iff.mp hi).1
        simp at hbound
        omega
    intro i j t u hi hj ht hu
    rw [hlast i t hi ht, hlast j u hj hu]
  | step i e =>
    obtain ⟨who, c, k, log, r, s', hi, -, rfl⟩ := System.step_task hstep
    exact h.set hi rfl
  | cancel i =>
    obtain ⟨who, c, k, log, hi, -, rfl⟩ := System.step_cancel hstep
    exact h.set hi rfl
  | env x =>
    simp only [System.step, Option.map_eq_some_iff] at hstep
    obtain ⟨s, -, rfl⟩ := hstep
    exact h

/-- What holds of every task still does after one is replaced, if it holds of the new one. -/
theorem forall_set {D : Nat → α → Prop} {l : List α} {i : Nat} {a b : α} (hi : l[i]? = some a)
    (h : ∀ j c, l[j]? = some c → D j c) (hb : D i b) : ∀ j c, (l.set i b)[j]? = some c → D j c := by
  intro j c hj
  by_cases hij : i = j
  · subst hij
    rw [List.getElem?_set_self (List.getElem?_eq_some_iff.mp hi).1] at hj
    exact Option.some.inj hj ▸ hb
  · rw [List.getElem?_set_ne hij] at hj
    exact h j c hj

/-- Replacing one element changes a count by that element's share. -/
theorem countP_set_add {T : Type} {p : T → Bool} {l : List T} {i : Nat} {a b : T}
    (h : l[i]? = some b) : (l.set i a).countP p + (p b).toNat = l.countP p + (p a).toNat := by
  obtain ⟨hi, rfl⟩ := List.getElem?_eq_some_iff.mp h
  rw [List.countP_set hi]
  cases hb : p l[i] with
  | false => cases ha : p a <;> simp
  | true =>
    have hpos : 0 < l.countP p := List.countP_pos_iff.mpr ⟨l[i], List.getElem_mem hi, hb⟩
    cases ha : p a <;> simp only [if_true, Bool.toNat_true, Bool.toNat_false] <;> simp <;> omega

/-- A count splits as the property does, element by element. -/
theorem countP_eq_add {T : Type} {p q r : T → Bool} {l : List T}
    (h : ∀ t ∈ l, (p t).toNat = (q t).toNat + (r t).toNat) :
    l.countP p = l.countP q + l.countP r := by
  induction l with
  | nil => rfl
  | cons t l ih =>
    have ht := h t (by simp)
    have hrest := ih fun u hu => h u (by simp [hu])
    simp only [List.countP_cons, hrest]
    cases hp : p t <;> cases hq : q t <;> cases hr : r t <;> simp [hp, hq, hr] at ht ⊢ <;> omega

/-! ## How long a run can be

A bound on the commands of each program is one on every run, by the number of its tasks. -/

section Length

variable {M : System P C R S E X α} {pool pool' : Pool P C R S α}

def Act.isSpawn : Act P E X → Bool
  | .spawn _ => true
  | _ => false

def Act.isStep : Act P E X → Bool
  | .step _ _ => true
  | _ => false

/-- The commands issued by these tasks so far. -/
def issuedBy : List (Task P C R α) → Nat
  | [] => 0
  | t :: tasks => t.log.length + issuedBy tasks

/-- What a task has issued and what it may still issue are at most `n` commands. -/
def Task.Within (n : Nat) (t : Task P C R α) : Prop :=
  ∃ m, t.prog.Within m ∧ t.log.length + m ≤ n

theorem issuedBy_append (tasks tasks' : List (Task P C R α)) :
    issuedBy (tasks ++ tasks') = issuedBy tasks + issuedBy tasks' := by
  induction tasks with
  | nil => simp [issuedBy]
  | cons t tasks ih => simp [issuedBy, ih, Nat.add_assoc]

theorem issuedBy_set_add {tasks : List (Task P C R α)} {i : Nat} {t u : Task P C R α}
    (h : tasks[i]? = some t) :
    issuedBy (tasks.set i u) + t.log.length = issuedBy tasks + u.log.length := by
  induction tasks generalizing i with
  | nil => simp at h
  | cons v tasks ih =>
    cases i with
    | zero =>
      obtain rfl := Option.some.inj h
      simp only [List.set_cons_zero, issuedBy]
      omega
    | succ i =>
      have := ih (i := i) (by simpa using h)
      simp only [List.set_cons_succ, issuedBy]
      omega

theorem issuedBy_le {n : Nat} {tasks : List (Task P C R α)} (h : ∀ t ∈ tasks, t.Within n) :
    issuedBy tasks ≤ n * tasks.length := by
  induction tasks with
  | nil => simp [issuedBy]
  | cons t tasks ih =>
    obtain ⟨m, -, hle⟩ := h t (by simp)
    have hrest := ih fun u hu => h u (by simp [hu])
    simp only [issuedBy, List.length_cons, Nat.mul_succ]
    omega

theorem System.step_issued {act : Act P E X} (h : M.step pool act = some pool') :
    issuedBy pool'.tasks = issuedBy pool.tasks + act.isStep.toNat ∧
      pool'.tasks.length = pool.tasks.length + act.isSpawn.toNat := by
  cases act with
  | spawn p =>
    simp only [System.step, Option.some.injEq] at h
    subst h
    simp [issuedBy_append, issuedBy, Act.isStep, Act.isSpawn]
  | step i e =>
    obtain ⟨who, c, k, log, r, s', hi, -, rfl⟩ := System.step_task h
    have hset := issuedBy_set_add (u := { who, prog := k r, log := log ++ [⟨c, r⟩] }) hi
    simp only [List.length_append, List.length_singleton] at hset
    refine ⟨?_, by simp [Act.isSpawn]⟩
    show issuedBy (pool.tasks.set i _) = issuedBy pool.tasks + 1
    omega
  | cancel i =>
    obtain ⟨who, c, k, log, hi, -, rfl⟩ := System.step_cancel h
    have hset := issuedBy_set_add (u := { who, prog := .call c k, log, dropped := true }) hi
    dsimp only at hset
    refine ⟨?_, by simp [Act.isSpawn]⟩
    show issuedBy (pool.tasks.set i _) = issuedBy pool.tasks + 0
    omega
  | env x =>
    simp only [System.step, Option.map_eq_some_iff] at h
    obtain ⟨s, -, rfl⟩ := h
    exact ⟨rfl, rfl⟩

theorem System.runs_issued {acts : List (Act P E X)} (h : runs M.step pool acts = some pool') :
    issuedBy pool'.tasks = issuedBy pool.tasks + acts.countP Act.isStep ∧
      pool'.tasks.length = pool.tasks.length + acts.countP Act.isSpawn := by
  induction acts generalizing pool with
  | nil =>
    simp only [runs_nil, Option.some.injEq] at h
    subst h
    exact ⟨rfl, rfl⟩
  | cons act acts ih =>
    obtain ⟨pool₁, h₁, h₂⟩ := runs_cons.mp h
    have hstep := System.step_issued h₁
    have hrest := ih h₂
    simp only [List.countP_cons]
    cases hs : act.isStep <;> cases hp : act.isSpawn <;>
      simp only [hs, hp, Bool.toNat_true, Bool.toNat_false] at hstep <;>
      simp only [if_true, Bool.false_eq_true, if_false] <;> omega

theorem System.step_within {n : Nat} (hcode : ∀ p, (M.code p).Within n)
    (h : ∀ t ∈ pool.tasks, t.Within n) {act : Act P E X} (hstep : M.step pool act = some pool') :
    ∀ t ∈ pool'.tasks, t.Within n := by
  cases act with
  | spawn p =>
    simp only [System.step, Option.some.injEq] at hstep
    subst hstep
    intro t ht
    rcases List.mem_append.mp ht with ht | ht
    · exact h t ht
    · obtain rfl := List.mem_singleton.mp ht
      exact ⟨n, hcode p, by simp⟩
  | step i e =>
    obtain ⟨who, c, k, log, r, s', hi, -, rfl⟩ := System.step_task hstep
    intro t ht
    rcases List.mem_or_eq_of_mem_set ht with ht | rfl
    · exact h t ht
    · obtain ⟨m, hm, hle⟩ := h _ (List.mem_of_getElem? hi)
      cases m with
      | zero => exact hm.elim
      | succ m =>
        refine ⟨m, hm r, ?_⟩
        simp only [List.length_append, List.length_singleton] at hle ⊢
        omega
  | cancel i =>
    obtain ⟨who, c, k, log, hi, -, rfl⟩ := System.step_cancel hstep
    intro t ht
    rcases List.mem_or_eq_of_mem_set ht with ht | rfl
    · exact h t ht
    · exact h { who, prog := .call c k, log } (List.mem_of_getElem? hi)
  | env x =>
    simp only [System.step, Option.map_eq_some_iff] at hstep
    obtain ⟨s, -, rfl⟩ := hstep
    exact h

/-- **No schedule is long**: `n` steps for every task, at most. -/
theorem System.steps_le {n : Nat} (hcode : ∀ p, (M.code p).Within n) {s₀ : S}
    {acts : List (Act P E X)} (h : runs M.step { shared := s₀ } acts = some pool) :
    acts.countP Act.isStep ≤ n * acts.countP Act.isSpawn := by
  have hwithin : ∀ t ∈ pool.tasks, t.Within n :=
    runs_invariant (I := fun pool : Pool P C R S α => ∀ t ∈ pool.tasks, t.Within n)
      (fun _ _ _ hi _ hstep => System.step_within hcode hi hstep)
      (fun _ ht => absurd ht List.not_mem_nil) along_true h
  obtain ⟨hissued, hlength⟩ := System.runs_issued h
  have hle := issuedBy_le hwithin
  rw [hlength] at hle
  simp only [List.length_nil, Nat.zero_add, issuedBy] at hle hissued
  omega

end Length

/-! ## Rely and guarantee

For programs whose every command moves the state along one preorder. What a task knows is then kept
by the others if it is kept along the preorder. -/

/-- Whatever the others do along `le`, under `I`, every command of the program keeps `I` and moves
along `le`, and its result satisfies `Q` from then on. -/
def Prog.Safe (I : S → Prop) (le : S → S → Prop) (dev : Device C R S E) :
    Prog C R α → (α → S → Prop) → S → Prop
  | .ret a, Q, s => ∀ s', le s s' → I s' → Q a s'
  | .call c k, Q, s => ∀ s₁, le s s₁ → I s₁ → ∀ e r s₂, dev c s₁ e = some (r, s₂) →
      I s₂ ∧ le s₁ s₂ ∧ (k r).Safe I le dev Q s₂

section Safe

variable {β : Type} {I : S → Prop} {le : S → S → Prop} {dev : Device C R S E}

theorem Prog.Safe.later (htrans : ∀ a b c, le a b → le b c → le a c) {p : Prog C R α}
    {Q : α → S → Prop} {s s' : S} (hp : p.Safe I le dev Q s) (h : le s s') :
    p.Safe I le dev Q s' := by
  cases p with
  | ret a => exact fun s₁ h₁ => hp s₁ (htrans _ _ _ h h₁)
  | call c k => exact fun s₁ h₁ => hp s₁ (htrans _ _ _ h h₁)

/-- Being safe from every later state is being safe: the definition only ever looks at those. -/
theorem Prog.Safe.of_later (hrefl : ∀ a, le a a) {p : Prog C R α} {Q : α → S → Prop} {s : S}
    (h : ∀ s', le s s' → I s' → p.Safe I le dev Q s') : p.Safe I le dev Q s := by
  cases p with
  | ret a => exact fun s₁ h₁ hI => h s₁ h₁ hI s₁ (hrefl _) hI
  | call c k => exact fun s₁ h₁ hI => h s₁ h₁ hI s₁ (hrefl _) hI

theorem Prog.Safe.bind (hrefl : ∀ a, le a a) {p : Prog C R α} {f : α → Prog C R β}
    {Q : β → S → Prop} {s : S}
    (hp : p.Safe I le dev (fun a s' => (f a).Safe I le dev Q s') s) :
    (p.bind f).Safe I le dev Q s := by
  induction p generalizing s with
  | ret a => exact Prog.Safe.of_later hrefl hp
  | call c k ih =>
    intro s₁ h₁ hI e r s₂ hd
    obtain ⟨hI', hle, hk⟩ := hp s₁ h₁ hI e r s₂ hd
    exact ⟨hI', hle, ih r hk⟩

theorem Prog.Safe.mono {p : Prog C R α} {Q Q' : α → S → Prop} {s : S}
    (hQ : ∀ a s', Q a s' → Q' a s') (hp : p.Safe I le dev Q s) : p.Safe I le dev Q' s := by
  induction p generalizing s with
  | ret a => exact fun s₁ h₁ hI => hQ _ _ (hp s₁ h₁ hI)
  | call c k ih =>
    intro s₁ h₁ hI e r s₂ hd
    obtain ⟨hI', hle, hk⟩ := hp s₁ h₁ hI e r s₂ hd
    exact ⟨hI', hle, ih r hk⟩

/-- The result of a program comes later than its start. -/
theorem Prog.Safe.and_le (htrans : ∀ a b c, le a b → le b c → le a c) {p : Prog C R α}
    {Q : α → S → Prop} {s : S} (hp : p.Safe I le dev Q s) :
    p.Safe I le dev (fun a s' => Q a s' ∧ le s s') s := by
  induction p generalizing s with
  | ret a => exact fun s₁ h₁ hI => ⟨hp s₁ h₁ hI, h₁⟩
  | call c k ih =>
    intro s₁ h₁ hI e r s₂ hd
    obtain ⟨hI', hle, hk⟩ := hp s₁ h₁ hI e r s₂ hd
    refine ⟨hI', hle, (ih r hk).mono ?_⟩
    intro a s' hQ
    exact ⟨hQ.1, htrans _ _ _ h₁ (htrans _ _ _ hle hQ.2)⟩

/-- Sequencing of fallible programs, for a postcondition that asks nothing of an error. -/
theorem Prog.Safe.run_bind {ε : Type} (hrefl : ∀ a, le a a) {x : ExceptT ε (Prog C R) α}
    {f : α → ExceptT ε (Prog C R) β} {Q : Except ε β → S → Prop} {s : S}
    (herr : ∀ e s', Q (.error e) s')
    (hx : x.run.Safe I le dev (fun r s' => ∀ a, r = .ok a → (f a).run.Safe I le dev Q s') s) :
    (x >>= f).run.Safe I le dev Q s := by
  rw [Prog.run_bind]
  refine Prog.Safe.bind hrefl (hx.mono ?_)
  intro r s' h
  cases r with
  | error e => exact fun s'' _ _ => herr e s''
  | ok a => exact h a rfl

/-! Where nothing is asked of an error, only the value has to be followed. -/

/-- Safe, and a value it returns satisfies `Q` from then on. -/
abbrev Prog.SafeOk {ε : Type} (I : S → Prop) (le : S → S → Prop) (dev : Device C R S E)
    (x : ExceptT ε (Prog C R) α) (Q : α → S → Prop) (s : S) : Prop :=
  x.run.Safe I le dev (fun r s' => ∀ a, r = .ok a → Q a s') s

theorem Prog.SafeOk.bind {ε : Type} (hrefl : ∀ a, le a a) {x : ExceptT ε (Prog C R) α}
    {f : α → ExceptT ε (Prog C R) β} {Q : β → S → Prop} {s : S}
    (hx : SafeOk I le dev x (fun a s' => SafeOk I le dev (f a) Q s') s) :
    SafeOk I le dev (x >>= f) Q s := by
  refine Prog.Safe.run_bind hrefl ?_ hx
  intro e s' a ha
  cases ha

theorem Prog.SafeOk.pure {ε : Type} {a : α} {Q : α → S → Prop} {s : S}
    (h : ∀ s', le s s' → I s' → Q a s') :
    SafeOk I le dev (Pure.pure a : ExceptT ε (Prog C R) α) Q s :=
  fun s' hle hI _ hb => Except.ok.inj hb ▸ h s' hle hI

theorem Prog.SafeOk.mono {ε : Type} {x : ExceptT ε (Prog C R) α} {Q Q' : α → S → Prop} {s : S}
    (hQ : ∀ a s', Q a s' → Q' a s') (hx : SafeOk I le dev x Q s) : SafeOk I le dev x Q' s :=
  Prog.Safe.mono (fun _ _ h a ha => hQ _ _ (h a ha)) hx

theorem Prog.Safe.map {p : Prog C R α} {f : α → β} {Q : β → S → Prop} {s : S}
    (hp : p.Safe I le dev (fun a s' => Q (f a) s') s) :
    (p.bind fun a => .ret (f a)).Safe I le dev Q s := by
  induction p generalizing s with
  | ret a => exact hp
  | call c k ih =>
    intro s₁ h₁ hI e r s₂ hd
    obtain ⟨hI', hle, hk⟩ := hp s₁ h₁ hI e r s₂ hd
    exact ⟨hI', hle, ih r hk⟩

theorem Prog.SafeOk.mapErr {ε ε' : Type} {f : ε → ε'} {x : ExceptT ε (Prog C R) α}
    {Q : α → S → Prop} {s : S} (hx : SafeOk I le dev x Q s) :
    SafeOk I le dev (Prog.mapErr f x) Q s := by
  refine Prog.Safe.map (Prog.Safe.mono ?_ hx)
  intro r s' h a ha
  cases r with
  | ok b => exact h a (congrArg Except.ok (Except.ok.inj ha))
  | error e => cases ha

/-- A result that is looked at instead of being propagated. -/
theorem Prog.SafeOk.lift {ε : Type} {p : Prog C R α} {Q : α → S → Prop} {s : S}
    (hp : p.Safe I le dev Q s) : SafeOk I le dev (liftM p : ExceptT ε (Prog C R) α) Q s := by
  show (liftM p : ExceptT ε (Prog C R) α).run.Safe I le dev _ s
  rw [Prog.run_lift]
  refine Prog.Safe.map (Prog.Safe.mono ?_ hp)
  exact fun a s' h b hb => Except.ok.inj hb ▸ h

/-- Run without the others, a safe program keeps `I` and ends later than it began. -/
theorem Prog.Safe.wp (hrefl : ∀ a, le a a) (htrans : ∀ a b c, le a b → le b c → le a c)
    {p : Prog C R α} {Q : α → S → Prop} {s : S} (hp : p.Safe I le dev Q s) (hI : I s) :
    p.wp dev (fun _ a s' => I s' ∧ le s s' ∧ Q a s') s := by
  induction p generalizing s with
  | ret a => exact ⟨hI, hrefl s, hp s (hrefl s) hI⟩
  | call c k ih =>
    intro e r s₁ hd
    obtain ⟨hI₁, hle, hk⟩ := hp s (hrefl s) hI e r s₁ hd
    refine Prog.wp_mono ?_ (ih r hk hI₁)
    intro tr a s₂ h
    exact ⟨h.1, htrans _ _ _ hle h.2.1, h.2.2⟩

/-- A program all of whose commands keep `I` and `le` by themselves is safe. -/
theorem Prog.Only.safe {Y : C → Prop}
    (hdev : ∀ c s e r s', Y c → I s → dev c s e = some (r, s') → I s' ∧ le s s')
    {p : Prog C R α} (hp : p.Only Y) (s : S) : p.Safe I le dev (fun _ _ => True) s := by
  induction p generalizing s with
  | ret a => exact fun _ _ _ => trivial
  | call c k ih =>
    intro s₁ _ hI e r s₂ hd
    obtain ⟨hI', hle⟩ := hdev c s₁ e r s₂ hp.1 hI hd
    exact ⟨hI', hle, ih r (hp.2 r) s₂⟩

end Safe

section Runs

variable {M : System P C R S E X α} {I : S → Prop} {le : S → S → Prop}
  {allowed : P → Prop} {Q : P → α → S → Prop}

/-- The shared state keeps the invariant and has only moved along `le`, and what is left of every
task is safe from here. -/
structure SafePool (M : System P C R S E X α) (I : S → Prop) (le : S → S → Prop)
    (Q : P → α → S → Prop) (s₀ : S) (pool : Pool P C R S α) : Prop where
  inv : I pool.shared
  moved : le s₀ pool.shared
  tasks : ∀ t ∈ pool.tasks, t.prog.Safe I le (M.dev t.who) (Q t.who) pool.shared

/-- Only the allowed tasks are spawned. -/
def SpawnOnly (allowed : P → Prop) : Pool P C R S α → Act P E X → Prop
  | _, .spawn p => allowed p
  | _, _ => True

/-- The task an action starts. -/
def Act.spawned? : Act P E X → Option P
  | .spawn p => some p
  | _ => none

theorem along_spawnOnly {acts : List (Act P E X)} (h : ∀ p ∈ acts.filterMap Act.spawned?, allowed p)
    (pool : Pool P C R S α) : Along M.step (SpawnOnly allowed) pool acts := by
  induction acts generalizing pool with
  | nil => trivial
  | cons a acts ih =>
    have hrest : ∀ p ∈ acts.filterMap Act.spawned?, allowed p := by
      intro p hp
      obtain ⟨b, hb, hspawned⟩ := List.mem_filterMap.mp hp
      exact h p (List.mem_filterMap.mpr ⟨b, List.mem_cons_of_mem a hb, hspawned⟩)
    constructor
    · cases a with
      | spawn p => exact h p (List.mem_filterMap.mpr ⟨_, List.mem_cons_self, rfl⟩)
      | _ => trivial
    · split
      · exact ih hrest _
      · trivial

/-- Moving is counted from any state on. -/
theorem SafePool.rebase (hrefl : ∀ s, le s s) {s₀ : S} {pool : Pool P C R S α}
    (h : SafePool M I le Q s₀ pool) : SafePool M I le Q pool.shared pool :=
  ⟨h.inv, hrefl _, h.tasks⟩

theorem SafePool.start (hrefl : ∀ s, le s s) {s₀ : S} (hI : I s₀) :
    SafePool M I le Q s₀ { shared := s₀ } :=
  ⟨hI, hrefl _, fun t ht => absurd ht (by simp)⟩

/-- **A pool of safe tasks is safe**, under every interleaving, every choice of the environment and
every dropping of tasks. -/
theorem runs_safe (hrefl : ∀ s, le s s) (htrans : ∀ a b c, le a b → le b c → le a c)
    (hcode : ∀ p s, allowed p → (M.code p).Safe I le (M.dev p) (Q p) s)
    (henv : ∀ s x s', I s → M.env s x = some s' → I s' ∧ le s s')
    {s₀ : S} {pool₀ : Pool P C R S α} (h₀ : SafePool M I le Q s₀ pool₀)
    {acts : List (Act P E X)} {pool : Pool P C R S α}
    (hg : Along M.step (SpawnOnly allowed) pool₀ acts)
    (hr : runs M.step pool₀ acts = some pool) : SafePool M I le Q s₀ pool := by
  refine runs_invariant (I := SafePool M I le Q s₀) ?_ ?_ hg hr
  · intro pool a pool' hs ha hstep
    cases a with
    | spawn p =>
      simp only [System.step, Option.some.injEq] at hstep
      subst hstep
      refine ⟨hs.inv, hs.moved, fun t ht => ?_⟩
      rcases List.mem_append.mp ht with ht | ht
      · exact hs.tasks t ht
      · simp only [List.mem_singleton] at ht
        subst ht
        exact hcode p _ ha
    | step i e =>
      obtain ⟨who, c, k, log, r, s', hi, hd, rfl⟩ := System.step_task hstep
      have hmem := List.mem_of_getElem? hi
      obtain ⟨hI', hle, hk⟩ := hs.tasks _ hmem _ (hrefl _) hs.inv e r s' hd
      refine ⟨hI', htrans _ _ _ hs.moved hle, fun t ht => ?_⟩
      rcases List.mem_or_eq_of_mem_set ht with ht | rfl
      · exact (hs.tasks t ht).later htrans hle
      · exact hk
    | cancel i =>
      obtain ⟨who, c, k, log, hi, -, rfl⟩ := System.step_cancel hstep
      have hmem := List.mem_of_getElem? hi
      refine ⟨hs.inv, hs.moved, fun t ht => ?_⟩
      rcases List.mem_or_eq_of_mem_set ht with ht | rfl
      · exact hs.tasks t ht
      · have hsafe := hs.tasks _ hmem
        exact hsafe
    | env x =>
      simp only [System.step, Option.map_eq_some_iff] at hstep
      obtain ⟨s', hx, rfl⟩ := hstep
      obtain ⟨hI', hle⟩ := henv _ _ _ hs.inv hx
      exact ⟨hI', htrans _ _ _ hs.moved hle, fun t ht => (hs.tasks t ht).later htrans hle⟩
  · exact h₀

end Runs

end Lib
