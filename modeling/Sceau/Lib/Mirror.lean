import Sceau.Lib.Prog

/-!
# Two programs, one environment

A run is decided by the choices of the environment. `Mirrors` compares two programs, each on its
own device and from its own state, under the *same* choices: whatever the first can do, the second
can do too, command for command, and what they end with is related. The two need not issue the same
commands — one may name an object by another number — which is what makes the relation fit for
saying that a run does not depend on what somebody else left behind.

`Mirrors.exec` is what such a statement is for; `Mirrors.bind` and its reading through `run` are how
one is proved, along the text that both programs share.
-/

set_option autoImplicit false

namespace Lib

namespace Prog

variable {C : Type} {R : C → Type} {S T E α α' β β' ε : Type}

/-- On the choices of any run of the first program, the second runs too, and `Q` relates the two
results and the two final states. -/
def Mirrors (dev : Device C R S E) (dev' : Device C R T E) :
    Prog C R α → Prog C R β → (α → S → β → T → Prop) → S → T → Prop
  | .ret a, .ret b, Q, s, t => Q a s b t
  | .call c k, .call c' k', Q, s, t => ∀ e r s₁, dev c s e = some (r, s₁) →
      ∃ r' t₁, dev' c' t e = some (r', t₁) ∧ Mirrors dev dev' (k r) (k' r') Q s₁ t₁
  | _, _, _, _, _ => False

section Rules

variable {dev : Device C R S E} {dev' : Device C R T E} {s : S} {t : T}

theorem Mirrors.exec {p : Prog C R α} {q : Prog C R β} {Q : α → S → β → T → Prop}
    (h : Mirrors dev dev' p q Q s t) {es : List E} {a : α} {s' : S} {tr : List (Event C R)}
    (hx : Prog.exec dev p s es = some (a, s', tr)) :
    ∃ b t' tr', Prog.exec dev' q t es = some (b, t', tr') ∧ Q a s' b t' := by
  induction p generalizing q s t es tr with
  | ret a₀ =>
    cases q with
    | call c' k' => exact h.elim
    | ret b =>
      cases es with
      | cons e es => simp [Prog.exec] at hx
      | nil =>
        simp only [Prog.exec, Option.some.injEq, Prod.mk.injEq] at hx
        obtain ⟨rfl, rfl, rfl⟩ := hx
        exact ⟨b, t, [], rfl, h⟩
  | call c k ih =>
    cases q with
    | ret b => exact h.elim
    | call c' k' =>
      cases es with
      | nil => simp [Prog.exec] at hx
      | cons e es =>
        simp only [Prog.exec, Option.bind_eq_some_iff, Option.map_eq_some_iff,
          Prod.mk.injEq] at hx
        obtain ⟨⟨r, s₁⟩, hd, ⟨a₁, s₂, tr₁⟩, hx₁, rfl, rfl, rfl⟩ := hx
        obtain ⟨r', t₁, hd', hk⟩ := h e r s₁ hd
        obtain ⟨b, t', tr', hx', hQ⟩ := ih r hk hx₁
        exact ⟨b, t', ⟨c', r'⟩ :: tr', by simp [Prog.exec, hd', hx'], hQ⟩

theorem Mirrors.mono {p : Prog C R α} {q : Prog C R β} {Q Q' : α → S → β → T → Prop}
    (hQ : ∀ a s' b t', Q a s' b t' → Q' a s' b t') (h : Mirrors dev dev' p q Q s t) :
    Mirrors dev dev' p q Q' s t := by
  induction p generalizing q s t with
  | ret a =>
    cases q with
    | ret b => exact hQ _ _ _ _ h
    | call c' k' => exact h.elim
  | call c k ih =>
    cases q with
    | ret b => exact h.elim
    | call c' k' =>
      intro e r s₁ hd
      obtain ⟨r', t₁, hd', hk⟩ := h e r s₁ hd
      exact ⟨r', t₁, hd', ih r hk⟩

/-- The sequencing rule. -/
theorem Mirrors.bind {p : Prog C R α} {q : Prog C R β} {f : α → Prog C R α'}
    {g : β → Prog C R β'} {Q : α' → S → β' → T → Prop}
    (h : Mirrors dev dev' p q (fun a s' b t' => Mirrors dev dev' (f a) (g b) Q s' t') s t) :
    Mirrors dev dev' (p.bind f) (q.bind g) Q s t := by
  induction p generalizing q s t with
  | ret a =>
    cases q with
    | ret b => exact h
    | call c' k' => exact h.elim
  | call c k ih =>
    cases q with
    | ret b => exact h.elim
    | call c' k' =>
      intro e r s₁ hd
      obtain ⟨r', t₁, hd', hk⟩ := h e r s₁ hd
      exact ⟨r', t₁, hd', ih r hk⟩

/-- The sequencing rule for fallible code: both go on, or both end with an error. -/
theorem Mirrors.run_bind {x : ExceptT ε (Prog C R) α} {y : ExceptT ε (Prog C R) β}
    {f : α → ExceptT ε (Prog C R) α'} {g : β → ExceptT ε (Prog C R) β'}
    {Q : Except ε α' → S → Except ε β' → T → Prop}
    (h : Mirrors dev dev' x.run y.run (fun r s' r' t' =>
      match r, r' with
      | .ok a, .ok b => Mirrors dev dev' (f a).run (g b).run Q s' t'
      | .error e, .error e' => Q (.error e) s' (.error e') t'
      | _, _ => False) s t) :
    Mirrors dev dev' (x >>= f).run (y >>= g).run Q s t := by
  rw [Prog.run_bind, Prog.run_bind]
  refine Mirrors.bind (h.mono ?_)
  intro r s' r' t' hr
  cases r with
  | ok a =>
    cases r' with
    | ok b => exact hr
    | error e' => exact hr.elim
  | error e =>
    cases r' with
    | ok b => exact hr.elim
    | error e' => exact hr

theorem Mirrors.run_lift {p : Prog C R α} {q : Prog C R β}
    {Q : Except ε α → S → Except ε β → T → Prop}
    (h : Mirrors dev dev' p q (fun a s' b t' => Q (.ok a) s' (.ok b) t') s t) :
    Mirrors dev dev' (liftM p : ExceptT ε (Prog C R) α).run
      (liftM q : ExceptT ε (Prog C R) β).run Q s t := by
  rw [Prog.run_lift, Prog.run_lift]
  exact Mirrors.bind h

end Rules

/-- **Frame.** Programs that mirror each other on a device do so on one that hosts it: a device that
answers their commands as the first would, on the part of its state that `view` shows. -/
theorem Mirrors.host {S' E' : Type} {X : C → Prop} {dev : Device C R S E}
    {host : Device C R S' E'} (view : S' → S) (pick : E' → E) (put : S' → E' → S → S')
    (hhost : ∀ c s e, X c →
      host c s e = (dev c (view s) (pick e)).map fun x => (x.1, put s e x.2))
    (hview : ∀ s e u, view (put s e u) = u) {p : Prog C R α} {q : Prog C R β} (hp : p.Only X)
    (hq : q.Only X) {Q : α → S → β → S → Prop} {s t : S'}
    (h : Mirrors dev dev p q Q (view s) (view t)) :
    Mirrors host host p q (fun a s' b t' => Q a (view s') b (view t')) s t := by
  induction p generalizing q s t with
  | ret a =>
    cases q with
    | ret b => exact h
    | call c' k' => exact h.elim
  | call c k ih =>
    cases q with
    | ret b => exact h.elim
    | call c' k' =>
      intro e r s₁ hd
      rw [hhost c s e hp.1] at hd
      obtain ⟨⟨r₀, u⟩, hdev, heq⟩ := Option.map_eq_some_iff.mp hd
      simp only [Prod.mk.injEq] at heq
      obtain ⟨rfl, rfl⟩ := heq
      obtain ⟨r', u', hdev', hk⟩ := h (pick e) r₀ u hdev
      refine ⟨r', put t e u', ?_, ?_⟩
      · rw [hhost c' t e hq.1, hdev']
        rfl
      · refine ih r₀ (hp.2 r₀) (hq.2 r') ?_
        rw [hview, hview]
        exact hk

end Prog

end Lib
