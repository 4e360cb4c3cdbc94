import Mathlib.Data.List.Forall2
import Sceau.Lib.Lock

/-!
# Critical sections, one after the other

Requests that each do their work in one critical section, whatever else they lock on the way. Where
the locks guard parts of the state that do not see each other, the answers of any interleaving are
those of a run in which the requests come one after the other, in the order in which they are
answered.

The two runs need not go through the same states: `Parts.sim` says when two states are the same to
a section, and `Tracks` compares a program under interference with the same program, or one like it,
on its own. A section that is half way through has been run, on the choices made so far, from
*every* state the others can have left its part in; so it does not matter which of them answer
before it does.
-/

set_option autoImplicit false

namespace Lib

variable {P L C : Type} {R : C → Type} {S T E X α α' β β' ε : Type}

/-! ## A program under interference, and one without

`Tracks` for a program as such, `Follows` for one that is inside its critical section and is compared
with a program that takes no locks. Both give the second program the choices of the first, so what is
compared is two runs on the same surroundings. -/

namespace Prog

/-- On the choices of any run of the first program, interrupted along `rely`, the second runs too,
uninterrupted, and `Q` relates the two results and the two states. -/
def Tracks (dev : Device C R S E) (dev' : Device C R T E) (rely : S → S → Prop) :
    Prog C R α → Prog C R β → (α → S → β → T → Prop) → S → T → Prop
  | .ret a, .ret b, Q, s, t => Q a s b t
  | .call c k, .call c' k', Q, s, t => ∀ s₁, rely s s₁ → ∀ e r s₂, dev c s₁ e = some (r, s₂) →
      ∃ r' t₁, dev' c' t e = some (r', t₁) ∧ Tracks dev dev' rely (k r) (k' r') Q s₂ t₁
  | _, _, _, _, _ => False

section Tracks

variable {dev : Device C R S E} {dev' : Device C R T E} {rely : S → S → Prop} {s : S} {t : T}

theorem Tracks.mono {p : Prog C R α} {q : Prog C R β} {Q Q' : α → S → β → T → Prop}
    (hQ : ∀ a s' b t', Q a s' b t' → Q' a s' b t') (h : Tracks dev dev' rely p q Q s t) :
    Tracks dev dev' rely p q Q' s t := by
  induction p generalizing q s t with
  | ret a =>
    cases q with
    | ret b => exact hQ _ _ _ _ h
    | call c' k' => exact h.elim
  | call c k ih =>
    cases q with
    | ret b => exact h.elim
    | call c' k' =>
      intro s₁ hs e r s₂ hd
      obtain ⟨r', t₁, hd', hk⟩ := h s₁ hs e r s₂ hd
      exact ⟨r', t₁, hd', ih r hk⟩

/-- Less interference. -/
theorem Tracks.calmer {rely' : S → S → Prop} (hrely : ∀ s s', rely' s s' → rely s s')
    {p : Prog C R α} {q : Prog C R β} {Q : α → S → β → T → Prop}
    (h : Tracks dev dev' rely p q Q s t) : Tracks dev dev' rely' p q Q s t := by
  induction p generalizing q s t with
  | ret a =>
    cases q with
    | ret b => exact h
    | call c' k' => exact h.elim
  | call c k ih =>
    cases q with
    | ret b => exact h.elim
    | call c' k' =>
      intro s₁ hs e r s₂ hd
      obtain ⟨r', t₁, hd', hk⟩ := h s₁ (hrely _ _ hs) e r s₂ hd
      exact ⟨r', t₁, hd', ih r hk⟩

theorem Tracks.bind {p : Prog C R α} {q : Prog C R β} {f : α → Prog C R α'} {g : β → Prog C R β'}
    {Q : α' → S → β' → T → Prop}
    (h : Tracks dev dev' rely p q
      (fun a s' b t' => Tracks dev dev' rely (f a) (g b) Q s' t') s t) :
    Tracks dev dev' rely (p.bind f) (q.bind g) Q s t := by
  induction p generalizing q s t with
  | ret a =>
    cases q with
    | ret b => exact h
    | call c' k' => exact h.elim
  | call c k ih =>
    cases q with
    | ret b => exact h.elim
    | call c' k' =>
      intro s₁ hs e r s₂ hd
      obtain ⟨r', t₁, hd', hk⟩ := h s₁ hs e r s₂ hd
      exact ⟨r', t₁, hd', ih r hk⟩

/-- The sequencing rule for fallible code: both go on, or both end with an error. -/
theorem Tracks.run_bind {x : ExceptT ε (Prog C R) α} {y : ExceptT ε (Prog C R) β}
    {f : α → ExceptT ε (Prog C R) α'} {g : β → ExceptT ε (Prog C R) β'}
    {Q : Except ε α' → S → Except ε β' → T → Prop}
    (h : Tracks dev dev' rely x.run y.run (fun r s' r' t' =>
      match r, r' with
      | .ok a, .ok b => Tracks dev dev' rely (f a).run (g b).run Q s' t'
      | .error e, .error e' => Q (.error e) s' (.error e') t'
      | _, _ => False) s t) :
    Tracks dev dev' rely (x >>= f).run (y >>= g).run Q s t := by
  rw [Prog.run_bind, Prog.run_bind]
  refine Tracks.bind (h.mono ?_)
  intro r s' r' t' hr
  cases r with
  | ok a =>
    cases r' with
    | ok b => exact hr
    | error e' => exact hr.elim
  | error e =>
    cases r' with
    | ok b => exact hr.elim
    | error e' => exact hr

theorem Tracks.run_lift {p : Prog C R α} {q : Prog C R β}
    {Q : Except ε α → S → Except ε β → T → Prop}
    (h : Tracks dev dev' rely p q (fun a s' b t' => Q (.ok a) s' (.ok b) t') s t) :
    Tracks dev dev' rely (liftM p : ExceptT ε (Prog C R) α).run
      (liftM q : ExceptT ε (Prog C R) β).run Q s t := by
  rw [Prog.run_lift, Prog.run_lift]
  exact Tracks.bind h

end Tracks

/-- The rest of a section, its lock `l` held: commands of its own part, then the lock is given back
in good order and the request is answered. `q` is what is left of the program it is compared with. -/
def Follows (dev : Device C R S E) (mine : C → Prop) (l : L) (rely : S → S → Prop)
    (Q : α → S → β → S → Prop) : LockProg L C R α → Prog C R β → S → S → Prop
  | .call (.unlock l' poison) k, q, s, t => l' = l ∧ poison = false ∧
      ∃ a b, k () = .ret a ∧ q = .ret b ∧ ∀ s', rely s s' → Q a s' b t
  | .call (.run c) k, .call c' k', s, t => mine c ∧ ∀ s₁, rely s s₁ → ∀ e r s₂,
      dev c s₁ e = some (r, s₂) → ∃ r' t₁, dev c' t e = some (r', t₁) ∧
        Follows dev mine l rely Q (k r) (k' r') s₂ t₁
  | _, _, _, _ => False

section Follows

variable {dev : Device C R S E} {mine : C → Prop} {l : L} {rely : S → S → Prop}
  {Q : α → S → β → S → Prop} {s t : S}

/-- Interference by the others is what it is made for. -/
theorem Follows.later (htrans : ∀ a b c, rely a b → rely b c → rely a c) {p : LockProg L C R α}
    {q : Prog C R β} {s' : S} (h : Follows dev mine l rely Q p q s t) (hs : rely s s') :
    Follows dev mine l rely Q p q s' t := by
  cases p with
  | ret a => exact h.elim
  | call c k =>
    cases c with
    | lock l' => exact h.elim
    | unlock l' poison =>
      obtain ⟨hl, hp, a, b, hk, hq, hQ⟩ := h
      exact ⟨hl, hp, a, b, hk, hq, fun s₁ h₁ => hQ s₁ (htrans _ _ _ hs h₁)⟩
    | run c =>
      cases q with
      | ret b => exact h.elim
      | call c' k' => exact ⟨h.1, fun s₁ h₁ => h.2 s₁ (htrans _ _ _ hs h₁)⟩

/-- A section from its body. -/
theorem Follows.of_tracks {p : Prog C R α'} {q : Prog C R β'} {f : α' → LockProg L C R α}
    {g : β' → Prog C R β} (hp : p.Only mine)
    (h : Tracks dev dev rely p q (fun a s' b t' => Follows dev mine l rely Q (f a) (g b) s' t')
      s t) : Follows dev mine l rely Q (p.inside.bind f) (q.bind g) s t := by
  induction p generalizing q s t with
  | ret a =>
    cases q with
    | ret b => exact h
    | call c' k' => exact h.elim
  | call c k ih =>
    cases q with
    | ret b => exact h.elim
    | call c' k' =>
      refine ⟨hp.1, fun s₁ hs e r s₂ hd => ?_⟩
      obtain ⟨r', t₁, hd', hk⟩ := h s₁ hs e r s₂ hd
      exact ⟨r', t₁, hd', ih r (hp.2 r) hk⟩

theorem Follows.ne_ret {p : LockProg L C R α} {q : Prog C R β}
    (h : Follows dev mine l rely Q p q s t) (a : α) : p ≠ .ret a := by
  intro hp
  rw [hp] at h
  exact h

end Follows

/-- Before its own section, a request may take other locks, each for nothing but to give it back in
good order. -/
def Awaits (l : L) (ready : LockProg L C R α → Prop) : Option L → LockProg L C R α → Prop
  | none, .call (.lock l') k =>
    (l' = l ∧ ready (k false)) ∨ (l' ≠ l ∧ Awaits l ready (some l') (k false))
  | some l', .call (.unlock l'' poison) k =>
    l'' = l' ∧ poison = false ∧ Awaits l ready none (k ())
  | _, _ => False

theorem Awaits.ne_ret {l : L} {ready : LockProg L C R α → Prop} {h : Option L}
    {p : LockProg L C R α} (hp : p.Awaits l ready h) (a : α) : p ≠ .ret a := by
  intro hret
  rw [hret] at hp
  cases h <;> exact hp

end Prog

/-! ## One after the other

The run that is compared with, and the answers of a pool in the order in which its tasks end. -/

/-- Run programs one after the other, each on its own choices. -/
def inTurn (dev : Device C R S E) (q : P → Prog C R β) :
    S → List (P × List E) → Option (List β × S)
  | s, [] => some ([], s)
  | s, (p, es) :: rest =>
    ((q p).exec dev s es).bind fun x =>
      (inTurn dev q x.2.1 rest).map fun y => (x.1 :: y.1, y.2)

theorem inTurn_snoc {dev : Device C R S E} {q : P → Prog C R β} {s t t' : S}
    {script : List (P × List E)} {bs : List β} {p : P} {es : List E} {b : β}
    {tr : List (Event C R)} (h : inTurn dev q s script = some (bs, t))
    (hx : (q p).exec dev t es = some (b, t', tr)) :
    inTurn dev q s (script ++ [(p, es)]) = some (bs ++ [b], t') := by
  induction script generalizing s bs with
  | nil =>
    simp only [inTurn, Option.some.injEq, Prod.mk.injEq] at h
    obtain ⟨rfl, rfl⟩ := h
    simp [inTurn, hx]
  | cons x script ih =>
    obtain ⟨p₀, es₀⟩ := x
    simp only [inTurn, Option.bind_eq_some_iff, Option.map_eq_some_iff, Prod.mk.injEq] at h
    obtain ⟨⟨b₀, s₁, tr₀⟩, hx₀, ⟨bs₁, t₁⟩, hrest, rfl, rfl⟩ := h
    simp [inTurn, hx₀, ih hrest]

/-- Who ended by this action, which has led to `pool`, and with what. -/
def Pool.ended (pool : Pool P C R S α) : Act P E X → Option (P × α)
  | .step i _ => pool.tasks[i]?.bind fun t => t.result?.map fun a => (t.who, a)
  | _ => none

/-- The answers of a run, in the order in which they are given. -/
def System.endings (M : System P C R S E X α) : Pool P C R S α → List (Act P E X) → List (P × α)
  | _, [] => []
  | pool, act :: acts =>
    match M.step pool act with
    | none => []
    | some pool' => (pool'.ended act).toList ++ endings M pool' acts

theorem System.endings_snoc {M : System P C R S E X α} {pool pool₁ pool₂ : Pool P C R S α}
    {acts : List (Act P E X)} {act : Act P E X} (h : runs M.step pool acts = some pool₁)
    (hstep : M.step pool₁ act = some pool₂) :
    M.endings pool (acts ++ [act]) = M.endings pool acts ++ (pool₂.ended act).toList := by
  induction acts generalizing pool with
  | nil =>
    simp only [runs_nil, Option.some.injEq] at h
    subst h
    simp [System.endings, hstep]
  | cons a acts ih =>
    obtain ⟨pool', h₁, h₂⟩ := runs_cons.mp h
    simp [System.endings, h₁, ih h₂]

/-- The result of the task that was stepped. -/
theorem ended_set {tasks : List (Task P C R α)} {s : S} {i : Nat} {e : E} {t v : Task P C R α}
    (hi : tasks[i]? = some v) :
    Pool.ended (X := X) { shared := s, tasks := tasks.set i t } (.step i e) =
      t.result?.map fun a => (t.who, a) := by
  show (tasks.set i t)[i]?.bind _ = _
  rw [List.getElem?_set_self (List.getElem?_eq_some_iff.mp hi).1]
  rfl

theorem result_of_ne_ret {t : Task P C R α} (h : ∀ a, t.prog ≠ .ret a) : t.result? = none := by
  unfold Task.result?
  split
  · rename_i hprog
    exact absurd hprog (h _)
  · rfl

/-- The answers of a pool, by task. -/
def Pool.answered (pool : Pool P C R S α) : List (P × α) :=
  pool.tasks.filterMap fun t => t.result?.map fun a => (t.who, a)

theorem perm_filterMap_set {A B : Type} {f : A → Option B} {l : List A} {i : Nat} {x y : A}
    (hi : l[i]? = some x) (hx : f x = none) :
    ((l.set i y).filterMap f).Perm (l.filterMap f ++ (f y).toList) := by
  induction l generalizing i with
  | nil => cases hi
  | cons z l ih =>
    cases i with
    | zero =>
      obtain rfl := Option.some.inj hi
      rw [List.set_cons_zero, List.filterMap_cons_none hx]
      cases hy : f y with
      | none => simp [List.filterMap_cons_none hy]
      | some b =>
        rw [List.filterMap_cons_some hy]
        exact (List.perm_append_singleton b _).symm
    | succ i =>
      have hrest := ih (List.getElem?_cons_succ ▸ hi)
      cases hz : f z with
      | none =>
        rw [List.set_cons_succ, List.filterMap_cons_none hz, List.filterMap_cons_none hz]
        exact hrest
      | some b =>
        rw [List.set_cons_succ, List.filterMap_cons_some hz, List.filterMap_cons_some hz]
        exact hrest.cons b

/-- Where no request is answered before it has done anything, the answers given along a run are the
answers there are at its end. -/
theorem answered_perm [DecidableEq L] {code : P → LockProg L C R α} {dev : Device C R S E}
    (hcode : ∀ p a, code p ≠ .ret a) {g : Guarded L S} {acts : List (Act P (Option E) Empty)}
    {pool : Pool P (LockCmd L C) (LockCmd.Res R) (Guarded L S) α}
    (hrun : runs (lockSystem code dev).step { shared := g } acts = some pool) :
    pool.answered.Perm ((lockSystem code dev).endings { shared := g } acts) := by
  refine runs_invariant_past
    (I := fun past pool => pool.answered.Perm ((lockSystem code dev).endings { shared := g } past))
    .nil ?_ along_true hrun
  intro past pool₁ act pool₂ hpast hperm _ hstep
  rw [System.endings_snoc hpast hstep]
  cases act with
  | spawn p =>
    simp only [System.step, Option.some.injEq] at hstep
    subst hstep
    have hnone : Task.result? { who := p, prog := code p } = none := result_of_ne_ret (hcode p)
    show (List.filterMap _ (pool₁.tasks ++ [{ who := p, prog := code p }])).Perm (_ ++ [])
    rw [List.filterMap_append, List.filterMap_cons_none (by rw [hnone]; rfl), List.filterMap_nil,
      List.append_nil, List.append_nil]
    exact hperm
  | cancel i =>
    obtain ⟨_, _, _, _, _, hawait, _⟩ := System.step_cancel hstep
    cases hawait
  | env x => exact x.elim
  | step i e =>
    obtain ⟨who, c, k, log, r, g', hi, hd, rfl⟩ := System.step_task hstep
    refine (perm_filterMap_set hi rfl).trans ?_
    rw [ended_set hi]
    exact hperm.append_right _

/-! ## The parts of the state

What has to be shown of a system for its requests to be sequential: what each lock guards, and for
each request which lock it works under and which program it is alone. -/

/-- What each lock guards. `rely l` is what the others do as far as `l`'s part is concerned; two
states that `sim l` relates are the same to a section of `l`. -/
structure Parts (dev : Device C R S E) (guards : L → C → Prop) where
  inv : S → Prop
  rely : L → S → S → Prop
  sim : L → S → S → Prop
  rely_refl : ∀ l s, rely l s s
  rely_trans : ∀ l s₁ s₂ s₃, rely l s₁ s₂ → rely l s₂ s₃ → rely l s₁ s₃
  sim_left : ∀ l s s' t, sim l s t → rely l s s' → sim l s' t
  sim_right : ∀ l s t t', sim l s t → rely l t t' → sim l s t'
  inv_step : ∀ l c s e r s', guards l c → inv s → dev c s e = some (r, s') → inv s'
  frame : ∀ l l' c s e r s', guards l c → l' ≠ l → inv s → dev c s e = some (r, s') → rely l' s s'

namespace Parts

variable {dev : Device C R S E} {guards : L → C → Prop} (parts : Parts dev guards)

/-- A section of `l` about to start, to be compared with `q`. -/
def Ready (l : L) (good : α → β → Prop) (q : Prog C R β) (p : LockProg L C R α) : Prop :=
  ∀ s t, parts.sim l s t → Prog.Follows dev (guards l) l (parts.rely l)
    (fun a s' b t' => good a b ∧ parts.sim l s' t') p q s t

/-- Requests with one section each, and the programs they are compared with. -/
structure Requests (code : P → LockProg L C R α) (q : P → Prog C R β) (good : α → β → Prop) where
  own : P → L
  disciplined : ∀ p, (code p).Disciplined guards none
  awaits : ∀ p, (code p).Awaits (own p) (parts.Ready (own p) good (q p)) none
  only : ∀ p, (q p).Only (guards (own p))

variable {parts} {code : P → LockProg L C R α} {q : P → Prog C R β} {good : α → β → Prop}

/-- The beginning of a program of one part keeps the invariant and leaves the other parts alone. -/
theorem advance_rely {l : L} {p p' : Prog C R β} {s s' : S} {es : List E} {tr : List (Event C R)}
    (hp : p.Only (guards l)) (hinv : parts.inv s)
    (h : p.advance dev s es = some (p', s', tr)) :
    parts.inv s' ∧ ∀ l', l' ≠ l → parts.rely l' s s' := by
  induction es generalizing p s tr with
  | nil =>
    simp only [Prog.advance_nil, Option.some.injEq, Prod.mk.injEq] at h
    obtain ⟨rfl, rfl, rfl⟩ := h
    exact ⟨hinv, fun l' _ => parts.rely_refl l' _⟩
  | cons e es ih =>
    cases p with
    | ret a => simp [Prog.advance] at h
    | call c k =>
      simp only [Prog.advance, Option.bind_eq_some_iff, Option.map_eq_some_iff,
        Prod.mk.injEq] at h
      obtain ⟨⟨r, s₁⟩, hd, ⟨p₁, s₂, tr₁⟩, hx, rfl, rfl, rfl⟩ := h
      obtain ⟨hinv₂, hrely⟩ := ih (hp.2 r) (parts.inv_step l c s e r s₁ hp.1 hinv hd) hx
      refine ⟨hinv₂, fun l' hl => ?_⟩
      have hframe := parts.frame l l' c s e r s₁ hp.1 hl hinv hd
      exact parts.rely_trans _ _ _ _ hframe (hrely l' hl)

/-- Where a request is: answered, before its section, or in it. In it, its program has been run on
the choices made so far from every state that the others can have left its part in. -/
inductive Phase (reqs : parts.Requests code q good) (s u : S)
    (t : Task P (LockCmd L C) (LockCmd.Res R) α) : Prop where
  | answered (a : α) (prog : t.prog = .ret a)
  | before (out : t.holds ≠ some (reqs.own t.who))
      (awaits : t.prog.Awaits (reqs.own t.who)
        (parts.Ready (reqs.own t.who) good (q t.who)) t.holds)
      (same : ∀ l, t.holds = some l → parts.sim l s u)
  | during (inside : t.holds = some (reqs.own t.who)) (es : List E)
      (run : ∀ u', parts.rely (reqs.own t.who) u u' → ∃ q' u'' tr,
        (q t.who).advance dev u' es = some (q', u'', tr) ∧
        t.prog.Follows dev (guards (reqs.own t.who)) (reqs.own t.who)
          (parts.rely (reqs.own t.who))
          (fun a s' b t' => good a b ∧ parts.sim (reqs.own t.who) s' t') q' s u'')

/-- A step that leaves a holder's part alone leaves it where it is. -/
theorem Phase.later {reqs : parts.Requests code q good} {s s' u u' : S}
    {t : Task P (LockCmd L C) (LockCmd.Res R) α} (h : Phase reqs s u t)
    (hrely : ∀ l, t.holds = some l → parts.rely l s s' ∧ parts.rely l u u') :
    Phase reqs s' u' t := by
  cases h with
  | answered a prog => exact .answered a prog
  | before out awaits same =>
    refine .before out awaits fun l hl => ?_
    obtain ⟨hs, hu⟩ := hrely l hl
    exact parts.sim_right _ _ _ _ (parts.sim_left _ _ _ _ (same l hl) hs) hu
  | during inside es run =>
    obtain ⟨hs, hu⟩ := hrely _ inside
    refine .during inside es fun v hv => ?_
    obtain ⟨q', v', tr, hadv, hf⟩ := run v (parts.rely_trans _ _ _ _ hu hv)
    exact ⟨q', v', tr, hadv, hf.later (parts.rely_trans _) hs⟩

/-- The requests answered so far, one after the other, end in a state `u`; the locks that are free
guard what is there too, and every request under way is where it would be from there. -/
structure Linear [DecidableEq L] (reqs : parts.Requests code q good) (s₀ : S)
    (answers : List (P × α))
    (pool : Pool P (LockCmd L C) (LockCmd.Res R) (Guarded L S) α) (u : S) : Prop where
  orderly : Orderly guards pool
  sound : ∀ l, pool.shared.poisoned l = false
  inv : parts.inv pool.shared.state
  script : ∃ script bs, inTurn dev q s₀ script = some (bs, u) ∧
    script.map Prod.fst = answers.map Prod.fst ∧ List.Forall₂ good (answers.map Prod.snd) bs
  inv_alone : parts.inv u
  idle : ∀ l, pool.shared.held l = false → parts.sim l pool.shared.state u
  phase : ∀ t ∈ pool.tasks, Phase reqs pool.shared.state u t

/-! ## The invariant

`Linear` relates a pool to the run of those that have been answered, one after the other, and to its
last state. A request is in that run from the moment it is answered; until then its phase says how far
it is. The order of that run is not chosen ahead: whoever is answered next is put at its end. -/

section Invariant

variable [DecidableEq L] {reqs : parts.Requests code q good} {s₀ u : S} {answers : List (P × α)}
  {pool pool' : Pool P (LockCmd L C) (LockCmd.Res R) (Guarded L S) α} {i : Nat}
  {t v : Task P (LockCmd L C) (LockCmd.Res R) α} {g : Guarded L S}

theorem Linear.start {s₀ : S} (hinv : parts.inv s₀) (hsim : ∀ l, parts.sim l s₀ s₀) :
    Linear reqs s₀ [] { shared := { state := s₀ } } s₀ where
  orderly := .start s₀
  sound := fun _ => rfl
  inv := hinv
  script := ⟨[], [], rfl, rfl, .nil⟩
  inv_alone := hinv
  idle := fun l _ => hsim l
  phase := fun _ ht => absurd ht List.not_mem_nil

theorem Linear.spawn (h : Linear reqs s₀ answers pool u) (p : P) :
    Linear reqs s₀ answers { pool with tasks := pool.tasks ++ [{ who := p, prog := code p }] } u :=
  { h with
    orderly := h.orderly.spawn (reqs.disciplined p)
    phase := by
      intro t ht
      rcases List.mem_append.mp ht with ht | ht
      · exact h.phase t ht
      · obtain rfl := List.mem_singleton.mp ht
        exact .before nofun (reqs.awaits p) nofun }

/-- One task goes on; the parts of the other holders are left alone. -/
theorem Linear.phase_set (h : Linear reqs s₀ answers pool u) {s' u' : S}
    (hother : ∀ j w l, j ≠ i → pool.tasks[j]? = some w → Task.holds w = some l →
      parts.rely l pool.shared.state s' ∧ parts.rely l u u') (ht : Phase reqs s' u' t) :
    ∀ w ∈ pool.tasks.set i t, Phase reqs s' u' w := by
  intro w hw
  obtain ⟨j, hj⟩ := List.mem_iff_getElem?.mp hw
  by_cases hij : j = i
  · subst hij
    have hlt : j < pool.tasks.length := by
      have := (List.getElem?_eq_some_iff.mp hj).1
      rwa [List.length_set] at this
    rw [List.getElem?_set_self hlt] at hj
    exact Option.some.inj hj ▸ ht
  · rw [List.getElem?_set_ne (Ne.symm hij)] at hj
    exact (h.phase w (List.mem_of_getElem? hj)).later fun l hl => hother j w l hij hj hl

/-- A step that changes locks only: a request that is not in its section, or has just come there. -/
theorem Linear.pass (h : Linear reqs s₀ answers pool u)
    (horderly : Orderly guards { shared := g, tasks := pool.tasks.set i t })
    (hstate : g.state = pool.shared.state) (hpoison : g.poisoned = pool.shared.poisoned)
    (hidle : ∀ l, g.held l = false → parts.sim l pool.shared.state u)
    (ht : Phase reqs pool.shared.state u t) :
    Linear reqs s₀ answers { shared := g, tasks := pool.tasks.set i t } u where
  orderly := horderly
  sound := hpoison ▸ h.sound
  inv := hstate ▸ h.inv
  script := h.script
  inv_alone := h.inv_alone
  idle := hstate ▸ hidle
  phase := by
    show ∀ w ∈ pool.tasks.set i t, Phase reqs g.state u w
    rw [hstate]
    exact h.phase_set (fun _ _ _ _ _ _ => ⟨parts.rely_refl _ _, parts.rely_refl _ _⟩) ht

/-- Whoever holds a lock besides `i` holds another one. -/
theorem Linear.other (h : Linear reqs s₀ answers pool u) {l : L} (hi : pool.tasks[i]? = some v)
    (hl : v.holds = some l) {j : Nat} {w : Task P (LockCmd L C) (LockCmd.Res R) α} {l' : L}
    (hij : j ≠ i) (hj : pool.tasks[j]? = some w) (hl' : w.holds = some l') : l' ≠ l := by
  intro heq
  subst heq
  exact hij (h.orderly.alone hj hi hl' hl)

/-- A command in the section of `l`. -/
theorem Linear.work (h : Linear reqs s₀ answers pool u) {l : L} {c : C} {e : E} {r : R c} {s' : S}
    (hi : pool.tasks[i]? = some v) (hl : v.holds = some l) (hc : guards l c)
    (hd : dev c pool.shared.state e = some (r, s'))
    (horderly : Orderly guards
      { shared := { pool.shared with state := s' }, tasks := pool.tasks.set i t })
    (ht : Phase reqs s' u t) :
    Linear reqs s₀ answers
      { shared := { pool.shared with state := s' }, tasks := pool.tasks.set i t } u := by
  have hframe : ∀ l', l' ≠ l → parts.rely l' pool.shared.state s' := fun l' hne =>
    parts.frame l l' c _ e r s' hc hne h.inv hd
  have hheld : pool.shared.held l = true := h.orderly.holder.mpr ⟨v, List.mem_of_getElem? hi, hl⟩
  refine ⟨horderly, h.sound, parts.inv_step l c _ e r s' hc h.inv hd, h.script, h.inv_alone, ?_, ?_⟩
  · intro l' hfree
    have hne : l' ≠ l := by
      intro heq
      subst heq
      exact Bool.noConfusion (hheld.symm.trans hfree)
    exact parts.sim_left _ _ _ _ (h.idle l' hfree) (hframe l' hne)
  · refine h.phase_set ?_ ht
    intro j w l' hij hj hl'
    exact ⟨hframe l' (h.other hi hl hij hj hl'), parts.rely_refl _ _⟩

/-- The end of the section of `l`: the whole request is run now, where it is run alone. -/
theorem Linear.leave (h : Linear reqs s₀ answers pool u) {l : L} {p : P} {a : α} {b : β} {u' : S}
    {es : List E} {tr : List (Event C R)} (hi : pool.tasks[i]? = some v) (hl : v.holds = some l)
    (hown : reqs.own p = l) (hadv : (q p).advance dev u es = some (.ret b, u', tr))
    (hgood : good a b) (hsim : parts.sim l pool.shared.state u')
    (hstate : g.state = pool.shared.state) (hpoison : g.poisoned = pool.shared.poisoned)
    (hheld : ∀ l', l' ≠ l → g.held l' = pool.shared.held l')
    (horderly : Orderly guards { shared := g, tasks := pool.tasks.set i t })
    (ht : Phase reqs pool.shared.state u' t) :
    Linear reqs s₀ (answers ++ [(p, a)]) { shared := g, tasks := pool.tasks.set i t } u' := by
  obtain ⟨script, bs, hseq, hwho, hanswers⟩ := h.script
  obtain ⟨hinv, hrely⟩ := advance_rely (hown ▸ reqs.only p) h.inv_alone hadv
  refine ⟨horderly, hpoison ▸ h.sound, hstate ▸ h.inv, ?_, hinv, ?_, ?_⟩
  · refine ⟨script ++ [(p, es)], bs ++ [b], inTurn_snoc hseq (Prog.exec_of_advance hadv), ?_, ?_⟩
    · simp [hwho]
    · rw [List.map_append]
      exact List.rel_append hanswers (.cons hgood .nil)
  · intro l' hfree
    show parts.sim l' g.state u'
    rw [hstate]
    by_cases hne : l' = l
    · exact hne ▸ hsim
    · exact parts.sim_right _ _ _ _ (h.idle l' (hheld l' hne ▸ hfree)) (hrely l' hne)
  · show ∀ w ∈ pool.tasks.set i t, Phase reqs g.state u' w
    rw [hstate]
    refine h.phase_set ?_ ht
    intro j w l' hij hj hl'
    exact ⟨parts.rely_refl _ _, hrely l' (h.other hi hl hij hj hl')⟩

section Step

variable {who : P} {c : LockCmd L C} {k : LockCmd.Res R c → LockProg L C R α}
  {log : List (Event (LockCmd L C) (LockCmd.Res R))} {r : LockCmd.Res R c} {e : Option E}

/-- A step before the section: a lock is taken or given back, and if it is the section's own, the
section starts. -/
theorem Linear.step_before (h : Linear reqs s₀ answers pool u)
    (hi : pool.tasks[i]? = some { who, prog := .call c k, log })
    (hd : lockDevice dev c pool.shared e = some (r, g))
    (horderly : Orderly guards
      { shared := g, tasks := pool.tasks.set i { who, prog := k r, log := log ++ [⟨c, r⟩] } })
    (hawaits : Prog.Awaits (reqs.own who) (parts.Ready (reqs.own who) good (q who))
      (log.foldl heldAfter none) (.call c k))
    (hsame : ∀ l, log.foldl heldAfter none = some l → parts.sim l pool.shared.state u) :
    Linear reqs s₀ answers
      { shared := g, tasks := pool.tasks.set i { who, prog := k r, log := log ++ [⟨c, r⟩] } } u ∧
      ∀ a, k r ≠ .ret a := by
  have hholds : Task.holds { who, prog := k r, log := log ++ [⟨c, r⟩] } =
      heldAfter (log.foldl heldAfter none) ⟨c, r⟩ := Task.holds_snoc (q := .call c k)
  cases hnow : log.foldl heldAfter none with
  | none =>
    rw [hnow] at hawaits hholds
    cases c with
    | unlock l poison => exact hawaits.elim
    | run c => exact hawaits.elim
    | lock l =>
      obtain ⟨hfree, ⟨hpoisoned, -, -⟩ | ⟨-, rfl, rfl⟩⟩ := lockDevice_lock hd
      · rw [h.sound l] at hpoisoned
        cases hpoisoned
      have hidle : ∀ l', Function.update pool.shared.held l true l' = false →
          parts.sim l' pool.shared.state u := by
        intro l' hl'
        refine h.idle l' ?_
        by_cases hne : l' = l
        · subst hne
          simp at hl'
        · rwa [Function.update_of_ne hne] at hl'
      rcases hawaits with ⟨rfl, hready⟩ | ⟨hne, hrest⟩
      · have hfollows : ∀ u', parts.rely (reqs.own who) u u' →
            (k false).Follows dev (guards (reqs.own who)) (reqs.own who)
              (parts.rely (reqs.own who))
              (fun a s' b t' => good a b ∧ parts.sim (reqs.own who) s' t') (q who)
              pool.shared.state u' := fun u' hu' =>
          hready _ _ (parts.sim_right _ _ _ _ (h.idle _ hfree) hu')
        refine ⟨h.pass horderly rfl rfl hidle (.during hholds [] fun u' hu' => ?_),
          (hfollows u (parts.rely_refl _ _)).ne_ret⟩
        exact ⟨q who, u', [], Prog.advance_nil _ _ _, hfollows u' hu'⟩
      · have hnow' : Task.holds { who, prog := k false, log := log ++ [⟨.lock l, false⟩] } =
            some l := hholds
        refine ⟨h.pass horderly rfl rfl hidle (.before ?_ ?_ ?_), hrest.ne_ret⟩
        · rw [hnow']
          exact fun heq => hne (Option.some.inj heq)
        · rw [hnow']
          exact hrest
        · intro l' hl'
          obtain rfl := Option.some.inj (hnow'.symm.trans hl')
          exact h.idle l hfree
  | some l =>
    rw [hnow] at hawaits hholds
    cases c with
    | lock l' => exact hawaits.elim
    | run c => exact hawaits.elim
    | unlock l' poison =>
      obtain ⟨rfl, rfl, hrest⟩ := hawaits
      obtain rfl := lockDevice_unlock hd
      refine ⟨h.pass horderly rfl rfl ?_ (.before ?_ ?_ ?_), hrest.ne_ret⟩
      · intro l hl
        by_cases hne : l = l'
        · exact hne ▸ hsame l' hnow
        · refine h.idle l ?_
          dsimp only at hl
          rwa [Function.update_of_ne hne] at hl
      · rw [hholds]
        exact nofun
      · rw [hholds]
        exact hrest
      · rw [hholds]
        exact nofun

/-- A step in the section: a command of its part, or the end of it, which answers the request. -/
theorem Linear.step_during (h : Linear reqs s₀ answers pool u)
    (hi : pool.tasks[i]? = some { who, prog := .call c k, log })
    (hd : lockDevice dev c pool.shared e = some (r, g))
    (horderly : Orderly guards
      { shared := g, tasks := pool.tasks.set i { who, prog := k r, log := log ++ [⟨c, r⟩] } })
    (hinside : log.foldl heldAfter none = some (reqs.own who)) {es : List E}
    (hrun : ∀ u', parts.rely (reqs.own who) u u' → ∃ q' u'' tr,
      (q who).advance dev u' es = some (q', u'', tr) ∧
      Prog.Follows dev (guards (reqs.own who)) (reqs.own who) (parts.rely (reqs.own who))
        (fun a s' b t' => good a b ∧ parts.sim (reqs.own who) s' t') (.call c k) q'
        pool.shared.state u'') :
    ∃ u', Linear reqs s₀
      (answers ++ ((Task.result? { who, prog := k r, log := log ++ [⟨c, r⟩] }).map
        fun a => (who, a)).toList)
      { shared := g, tasks := pool.tasks.set i { who, prog := k r, log := log ++ [⟨c, r⟩] } }
      u' := by
  have hholds : Task.holds { who, prog := k r, log := log ++ [⟨c, r⟩] } =
      heldAfter (log.foldl heldAfter none) ⟨c, r⟩ := Task.holds_snoc (q := .call c k)
  obtain ⟨q', u'', tr, hadv, hf⟩ := hrun u (parts.rely_refl _ _)
  cases c with
  | lock l => exact hf.elim
  | unlock l poison =>
    obtain ⟨rfl, rfl, a, b, hk, rfl, hQ⟩ := hf
    obtain rfl := lockDevice_unlock hd
    obtain ⟨hgood, hsim⟩ := hQ _ (parts.rely_refl _ _)
    refine ⟨u'', ?_⟩
    have hresult : Task.result? { who, prog := k r, log := log ++ [⟨.unlock (reqs.own who) false, r⟩] } =
        some a := by
      have hkr : k r = .ret a := hk
      simp [Task.result?, hkr]
    rw [hresult]
    refine h.leave hi hinside rfl hadv hgood hsim rfl rfl ?_ horderly (.answered a hk)
    intro l' hne
    exact Function.update_of_ne hne _ _
  | run c =>
    obtain ⟨e', s', rfl, hdev, rfl⟩ := lockDevice_run hd
    have hmine : guards (reqs.own who) c := by
      cases q' with
      | ret b => exact hf.elim
      | call c' k' => exact hf.1
    have hnext : ∀ u', parts.rely (reqs.own who) u u' → ∃ q' u'' tr,
        (q who).advance dev u' (es ++ [e']) = some (q', u'', tr) ∧
        Prog.Follows dev (guards (reqs.own who)) (reqs.own who) (parts.rely (reqs.own who))
          (fun a s' b t' => good a b ∧ parts.sim (reqs.own who) s' t') (k r) q' s' u'' := by
      intro u' hu'
      obtain ⟨q', u'', tr, hadv, hf⟩ := hrun u' hu'
      cases q' with
      | ret b => exact hf.elim
      | call c' k' =>
        obtain ⟨r', u₃, hd', hk⟩ := hf.2 _ (parts.rely_refl _ _) e' r s' hdev
        exact ⟨k' r', u₃, _, Prog.advance_snoc hadv hd', hk⟩
    obtain ⟨_, _, _, _, hf'⟩ := hnext u (parts.rely_refl _ _)
    refine ⟨u, ?_⟩
    rw [result_of_ne_ret hf'.ne_ret, Option.map_none, Option.toList_none, List.append_nil]
    exact h.work hi hinside hmine hdev horderly (.during (hholds.trans hinside) (es ++ [e']) hnext)

end Step

/-- **One step**, of whatever request: the answers given so far are those of the requests alone. -/
theorem Linear.step (h : Linear reqs s₀ answers pool u) {act : Act P (Option E) Empty}
    (hstep : (lockSystem code dev).step pool act = some pool') :
    ∃ u', Linear reqs s₀ (answers ++ (pool'.ended act).toList) pool' u' := by
  have horderly := h.orderly.step reqs.disciplined hstep
  cases act with
  | spawn p =>
    simp only [System.step, Option.some.injEq] at hstep
    subst hstep
    refine ⟨u, ?_⟩
    rw [show (Pool.ended _ (.spawn p : Act P (Option E) Empty)).toList = [] from rfl,
      List.append_nil]
    exact h.spawn p
  | cancel i =>
    obtain ⟨_, _, _, _, _, hawait, _⟩ := System.step_cancel hstep
    cases hawait
  | env x => exact x.elim
  | step i e =>
    obtain ⟨who, c, k, log, r, g, hi, hd, rfl⟩ := System.step_task hstep
    rw [ended_set hi]
    cases h.phase _ (List.mem_of_getElem? hi) with
    | answered a prog => cases prog
    | before out awaits same =>
      obtain ⟨hlinear, hne⟩ := h.step_before hi hd horderly awaits same
      refine ⟨u, ?_⟩
      rw [result_of_ne_ret hne, Option.map_none, Option.toList_none, List.append_nil]
      exact hlinear
    | during inside es run => exact h.step_during hi hd horderly inside run

/-- **Every interleaving is a sequence**: the answers of a run, in the order in which they are
given, are those of running the requests alone in that order. -/
theorem linear_run (hinv : parts.inv s₀) (hsim : ∀ l, parts.sim l s₀ s₀)
    {acts : List (Act P (Option E) Empty)}
    (hrun : runs (lockSystem code dev).step { shared := { state := s₀ } } acts = some pool) :
    ∃ u, Linear reqs s₀
      ((lockSystem code dev).endings { shared := { state := s₀ } } acts) pool u := by
  refine runs_invariant_past
    (I := fun past pool => ∃ u, Linear reqs s₀
      ((lockSystem code dev).endings { shared := { state := s₀ } } past) pool u)
    ⟨s₀, .start hinv hsim⟩ ?_ along_true hrun
  intro past pool₁ act pool₂ hpast hlinear _ hstep
  obtain ⟨u, hu⟩ := hlinear
  rw [System.endings_snoc hpast hstep]
  exact hu.step hstep

end Invariant

end Parts

end Lib
