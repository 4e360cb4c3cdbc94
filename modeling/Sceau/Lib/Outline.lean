import Sceau.Lib.Pool

/-!
# Proof outlines

`Meets` is a program annotated: an assertion about the state at every command it can come to, and one
at its end. Between two of its commands the others may move the state along `rely`, and the
assertions have to stand that. Two readings for pools: any number of tasks at once, where `rely` is
what all their commands do, and tasks that do not overlap but may be dropped anywhere, where `rely` is
equality and whatever a dropped task leaves behind is what the next one finds.
-/

set_option autoImplicit false

namespace Lib

variable {P C : Type} {R : C → Type} {S E X α β ε : Type}

namespace Prog

def Meets (dev : Device C R S E) (rely : S → S → Prop) (A : C → S → Prop) :
    Prog C R α → (α → S → Prop) → S → Prop
  | .ret a, B, s => ∀ s', rely s s' → B a s'
  | .call c k, B, s => ∀ s₁, rely s s₁ → A c s₁ ∧
      ∀ e r s₂, dev c s₁ e = some (r, s₂) → (k r).Meets dev rely A B s₂

section Rules

variable {dev : Device C R S E} {rely : S → S → Prop} {A : C → S → Prop} {s s' : S}

theorem Meets.later (htrans : ∀ a b c, rely a b → rely b c → rely a c) {p : Prog C R α}
    {B : α → S → Prop} (hp : p.Meets dev rely A B s) (h : rely s s') : p.Meets dev rely A B s' := by
  cases p with
  | ret a => exact fun s₁ h₁ => hp s₁ (htrans _ _ _ h h₁)
  | call c k => exact fun s₁ h₁ => hp s₁ (htrans _ _ _ h h₁)

/-- The assertions only ever look at later states. -/
theorem Meets.of_later (hrefl : ∀ a, rely a a) {p : Prog C R α} {B : α → S → Prop}
    (h : ∀ s', rely s s' → p.Meets dev rely A B s') : p.Meets dev rely A B s := by
  cases p with
  | ret a => exact fun s₁ h₁ => h s₁ h₁ s₁ (hrefl _)
  | call c k => exact fun s₁ h₁ => h s₁ h₁ s₁ (hrefl _)

theorem Meets.bind (hrefl : ∀ a, rely a a) {p : Prog C R α} {f : α → Prog C R β}
    {B : β → S → Prop} (hp : p.Meets dev rely A (fun a s' => (f a).Meets dev rely A B s') s) :
    (p.bind f).Meets dev rely A B s := by
  induction p generalizing s with
  | ret a => exact Meets.of_later hrefl hp
  | call c k ih =>
    intro s₁ h₁
    obtain ⟨hA, hk⟩ := hp s₁ h₁
    exact ⟨hA, fun e r s₂ hd => ih r (hk e r s₂ hd)⟩

theorem Meets.mono {p : Prog C R α} {B B' : α → S → Prop} (hB : ∀ a s', B a s' → B' a s')
    (hp : p.Meets dev rely A B s) : p.Meets dev rely A B' s := by
  induction p generalizing s with
  | ret a => exact fun s₁ h₁ => hB _ _ (hp s₁ h₁)
  | call c k ih =>
    intro s₁ h₁
    obtain ⟨hA, hk⟩ := hp s₁ h₁
    exact ⟨hA, fun e r s₂ hd => ih r (hk e r s₂ hd)⟩

theorem Meets.map {p : Prog C R α} {f : α → β} {B : β → S → Prop}
    (hp : p.Meets dev rely A (fun a s' => B (f a) s') s) :
    (p.bind fun a => .ret (f a)).Meets dev rely A B s := by
  induction p generalizing s with
  | ret a => exact hp
  | call c k ih =>
    intro s₁ h₁
    obtain ⟨hA, hk⟩ := hp s₁ h₁
    exact ⟨hA, fun e r s₂ hd => ih r (hk e r s₂ hd)⟩

theorem Meets.run_lift {p : Prog C R α} {B : Except ε α → S → Prop}
    (hp : p.Meets dev rely A (fun a s' => B (.ok a) s') s) :
    (liftM p : ExceptT ε (Prog C R) α).run.Meets dev rely A B s := by
  rw [Prog.run_lift]
  exact hp.map

/-- Sequencing of fallible programs. -/
theorem Meets.run_bind (hrefl : ∀ a, rely a a) {x : ExceptT ε (Prog C R) α}
    {f : α → ExceptT ε (Prog C R) β} {B : Except ε β → S → Prop}
    (hx : x.run.Meets dev rely A (fun r s' =>
      match r with
      | .ok a => (f a).run.Meets dev rely A B s'
      | .error e => (ret (Except.error e) : Prog C R (Except ε β)).Meets dev rely A B s') s) :
    (x >>= f).run.Meets dev rely A B s := by
  rw [Prog.run_bind]
  refine Meets.bind hrefl (hx.mono ?_)
  intro r s' h
  cases r with
  | ok a => exact h
  | error e => exact h

/-- A program that keeps `I`, at whose commands `I` is assertion enough. -/
theorem Only.meets {Y : C → Prop} {I : S → Prop} (hA : ∀ c s, Y c → I s → A c s)
    (hdev : ∀ c s e r s', Y c → I s → dev c s e = some (r, s') → I s')
    (hrely : ∀ s s', I s → rely s s' → I s') {p : Prog C R α} (hp : p.Only Y) (hI : I s) :
    p.Meets dev rely A (fun _ s' => I s') s := by
  induction p generalizing s with
  | ret a => exact fun s' h => hrely _ _ hI h
  | call c k ih =>
    intro s₁ h₁
    have hI₁ := hrely _ _ hI h₁
    exact ⟨hA c s₁ hp.1 hI₁, fun e r s₂ hd => ih r (hp.2 r) (hdev c s₁ e r s₂ hp.1 hI₁ hd)⟩

end Rules

end Prog

section Runs

variable {M : System P C R S E X α} {A : C → S → Prop} {B : α → S → Prop}
  {pool : Pool P C R S α}

/-- **Tasks at once**: where every command, its assertion holding, moves the state along `rely`, each
task's assertion holds at the command it is at. -/
theorem runs_meets {I : S → Prop} {rely : S → S → Prop} (hrefl : ∀ a, rely a a)
    (htrans : ∀ a b c, rely a b → rely b c → rely a c)
    (hdev : ∀ p c s e r s', A c s → I s → M.dev p c s e = some (r, s') → I s' ∧ rely s s')
    (henv : ∀ s x, M.env s x = none)
    (hcode : ∀ p s, I s → (M.code p).Meets (M.dev p) rely A B s) {s₀ : S} (hI : I s₀)
    {acts : List (Act P E X)} (hrun : runs M.step { shared := s₀ } acts = some pool) :
    I pool.shared ∧ ∀ t ∈ pool.tasks, ∀ c, t.next? = some c → A c pool.shared := by
  have hall : I pool.shared ∧
      ∀ t ∈ pool.tasks, t.prog.Meets (M.dev t.who) rely A B pool.shared := by
    refine runs_invariant (I := fun pool : Pool P C R S α => I pool.shared ∧
      ∀ t ∈ pool.tasks, t.prog.Meets (M.dev t.who) rely A B pool.shared) ?_
      ⟨hI, fun _ ht => absurd ht List.not_mem_nil⟩ along_true hrun
    intro pool act pool' hpool _ hstep
    obtain ⟨hI, htasks⟩ := hpool
    cases act with
    | spawn p =>
      simp only [System.step, Option.some.injEq] at hstep
      subst hstep
      refine ⟨hI, fun t ht => ?_⟩
      rcases List.mem_append.mp ht with ht | ht
      · exact htasks t ht
      · obtain rfl := List.mem_singleton.mp ht
        exact hcode p _ hI
    | step i e =>
      obtain ⟨who, c, k, log, r, s', hi, hd, rfl⟩ := System.step_task hstep
      have hmeets := htasks _ (List.mem_of_getElem? hi)
      obtain ⟨hI', hrely⟩ := hdev who c _ e r s' (hmeets _ (hrefl _)).1 hI hd
      refine ⟨hI', fun t ht => ?_⟩
      rcases List.mem_or_eq_of_mem_set ht with ht | rfl
      · exact (htasks t ht).later htrans hrely
      · exact (hmeets _ (hrefl _)).2 e r s' hd
    | cancel i =>
      obtain ⟨who, c, k, log, hi, -, rfl⟩ := System.step_cancel hstep
      have hmeets := htasks _ (List.mem_of_getElem? hi)
      refine ⟨hI, fun t ht => ?_⟩
      rcases List.mem_or_eq_of_mem_set ht with ht | rfl
      · exact htasks t ht
      · exact hmeets
    | env x =>
      simp only [System.step, henv, Option.map_none] at hstep
      cases hstep
  refine ⟨hall.1, fun t ht c hc => ?_⟩
  obtain ⟨k, hprog⟩ := Task.call_of_next hc
  have hmeets := hall.2 t ht
  rw [hprog] at hmeets
  exact (hmeets _ (hrefl _)).1

/-- **Tasks that do not overlap**, dropped anywhere: each starts from what the one before has left,
and that is `I`, wherever it was dropped. -/
theorem runs_alone {I : S → Prop} (hA : ∀ c s, A c s → I s) (hB : ∀ a s, B a s → I s)
    (henv : ∀ s x, M.env s x = none)
    (hcode : ∀ p s, I s → (M.code p).Meets (M.dev p) Eq A B s) {s₀ : S} (hrest : I s₀)
    {acts : List (Act P E X)} (hg : Along M.step Pool.spawnsAlone { shared := s₀ } acts)
    (hrun : runs M.step { shared := s₀ } acts = some pool) :
    I pool.shared ∧ ∀ t ∈ pool.tasks, ∀ c, t.next? = some c → A c pool.shared := by
  -- what is at a command or at its end is at rest
  have hleaves : ∀ {p : Prog C R α} {dev : Device C R S E} {s : S}, p.Meets dev Eq A B s →
      I s := by
    intro p dev s hp
    cases p with
    | ret a => exact hB a s (hp s rfl)
    | call c k => exact hA c s (hp s rfl).1
  have hall : pool.solo ∧ I pool.shared ∧ ∀ t ∈ pool.tasks, t.inFlight = true →
      t.prog.Meets (M.dev t.who) Eq A B pool.shared := by
    refine runs_invariant (I := fun pool : Pool P C R S α => pool.solo ∧ I pool.shared ∧
      ∀ t ∈ pool.tasks, t.inFlight = true → t.prog.Meets (M.dev t.who) Eq A B pool.shared) ?_
      ⟨fun _ _ _ _ hi => (by cases hi), hrest, fun _ ht => absurd ht List.not_mem_nil⟩ hg hrun
    intro pool act pool' hpool halone hstep
    obtain ⟨hsolo, hrest, htasks⟩ := hpool
    refine ⟨System.step_solo hsolo halone hstep, ?_⟩
    cases act with
    | spawn p =>
      simp only [System.step, Option.some.injEq] at hstep
      subst hstep
      refine ⟨hrest, fun t ht hflight => ?_⟩
      rcases List.mem_append.mp ht with ht | ht
      · exact htasks t ht hflight
      · obtain rfl := List.mem_singleton.mp ht
        exact hcode p _ hrest
    | step i e =>
      obtain ⟨who, c, k, log, r, s', hi, hd, rfl⟩ := System.step_task hstep
      have hmeets := htasks _ (List.mem_of_getElem? hi) rfl
      have hnew := (hmeets _ rfl).2 e r s' hd
      refine ⟨hleaves hnew, fun t ht hflight => ?_⟩
      obtain ⟨j, hj⟩ := List.mem_iff_getElem?.mp ht
      by_cases hij : j = i
      · subst hij
        rw [List.getElem?_set_self (List.getElem?_eq_some_iff.mp hi).1] at hj
        exact Option.some.inj hj ▸ hnew
      · rw [List.getElem?_set_ne (Ne.symm hij)] at hj
        exact absurd (hsolo j i t _ hj hi hflight rfl) hij
    | cancel i =>
      obtain ⟨who, c, k, log, hi, -, rfl⟩ := System.step_cancel hstep
      refine ⟨hrest, fun t ht hflight => ?_⟩
      rcases List.mem_or_eq_of_mem_set ht with ht | rfl
      · exact htasks t ht hflight
      · cases hflight
    | env x =>
      simp only [System.step, henv, Option.map_none] at hstep
      cases hstep
  refine ⟨hall.2.1, fun t ht c hc => ?_⟩
  obtain ⟨k, hprog⟩ := Task.call_of_next hc
  have hmeets := hall.2.2 t ht (by rw [Task.inFlight, hc]; rfl)
  rw [hprog] at hmeets
  exact (hmeets _ rfl).1

end Runs

end Lib
