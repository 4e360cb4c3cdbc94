import Mathlib.Data.List.Induction

/-!
# Runs of a labelled transition function

`step s a = some s'` is the only thing a system says here. `runs` takes a list of actions in
order, `Along` says that each of them was taken in a state where a guard allows it, and the two
invariant rules are the only inductions over runs a development should need: one for a property
of the state, one for a property of the state *and* of the actions that led to it.
-/

set_option autoImplicit false

namespace Lib

variable {S A : Type}

/-- Take the actions in order; `none` as soon as one of them is not possible. -/
def runs (step : S → A → Option S) : S → List A → Option S
  | s, [] => some s
  | s, a :: as => (step s a).bind fun s' => runs step s' as

/-- Every action of the run is taken in a state in which `guard` allows it. -/
def Along (step : S → A → Option S) (guard : S → A → Prop) : S → List A → Prop
  | _, [] => True
  | s, a :: as => guard s a ∧
    match step s a with
    | some s' => Along step guard s' as
    | none => True

/-- A run against a guard that can be evaluated can be evaluated. -/
def decideAlong (step : S → A → Option S) (guard : S → A → Prop)
    [∀ s a, Decidable (guard s a)] : (s : S) → (as : List A) → Decidable (Along step guard s as)
  | _, [] => .isTrue trivial
  | s, a :: as =>
    haveI : Decidable (match step s a with
        | some s' => Along step guard s' as
        | none => True) :=
      match step s a with
      | some s' => decideAlong step guard s' as
      | none => .isTrue trivial
    inferInstanceAs (Decidable (_ ∧ _))

instance (step : S → A → Option S) (guard : S → A → Prop) [∀ s a, Decidable (guard s a)] (s : S)
    (as : List A) : Decidable (Along step guard s as) := decideAlong step guard s as

section

variable {step : S → A → Option S} {guard : S → A → Prop}

@[simp] theorem runs_nil (s : S) : runs step s [] = some s := rfl

theorem runs_cons {s s' : S} {a : A} {as : List A} :
    runs step s (a :: as) = some s' ↔ ∃ s₁, step s a = some s₁ ∧ runs step s₁ as = some s' := by
  simp [runs, Option.bind_eq_some_iff]

theorem runs_append {s s' : S} {as bs : List A} :
    runs step s (as ++ bs) = some s' ↔
      ∃ s₁, runs step s as = some s₁ ∧ runs step s₁ bs = some s' := by
  induction as generalizing s with
  | nil => simp
  | cons a as ih =>
    simp only [List.cons_append, runs_cons, ih]
    constructor
    · rintro ⟨s₁, h₁, s₂, h₂, h₃⟩
      exact ⟨s₂, ⟨s₁, h₁, h₂⟩, h₃⟩
    · rintro ⟨s₂, ⟨s₁, h₁, h₂⟩, h₃⟩
      exact ⟨s₁, h₁, s₂, h₂, h₃⟩

/-- **The invariant rule.** What one guarded action preserves, a guarded run preserves. -/
theorem runs_invariant {I : S → Prop}
    (hstep : ∀ s a s', I s → guard s a → step s a = some s' → I s')
    {s s' : S} {as : List A} (h₀ : I s) (hg : Along step guard s as)
    (hr : runs step s as = some s') : I s' := by
  induction as generalizing s with
  | nil =>
    simp only [runs_nil, Option.some.injEq] at hr
    exact hr ▸ h₀
  | cons a as ih =>
    obtain ⟨s₁, h₁, h₂⟩ := runs_cons.mp hr
    have hg₁ := hg.2
    rw [h₁] at hg₁
    exact ih (hstep s a s₁ h₀ hg.1 h₁) hg₁ h₂

theorem along_true {s : S} {as : List A} : Along step (fun _ _ => True) s as := by
  induction as generalizing s with
  | nil => trivial
  | cons a as ih =>
    refine ⟨trivial, ?_⟩
    split
    · exact ih
    · trivial

theorem Along.mono {guard' : S → A → Prop} (h : ∀ s a, guard s a → guard' s a) {s : S}
    {as : List A} (hg : Along step guard s as) : Along step guard' s as := by
  induction as generalizing s with
  | nil => trivial
  | cons a as ih =>
    refine ⟨h s a hg.1, ?_⟩
    have hrest := hg.2
    cases hs : step s a with
    | none => trivial
    | some s' =>
      rw [hs] at hrest
      exact ih hrest

theorem along_append {s : S} {as bs : List A} (h : Along step guard s (as ++ bs)) :
    Along step guard s as ∧ ∀ s', runs step s as = some s' → Along step guard s' bs := by
  induction as generalizing s with
  | nil => exact ⟨trivial, fun s' hs => Option.some.inj hs ▸ h⟩
  | cons a as ih =>
    have hrest := h.2
    cases hs : step s a with
    | none =>
      refine ⟨⟨h.1, by rw [hs]; trivial⟩, fun s' hr => ?_⟩
      simp [runs, hs] at hr
    | some s₁ =>
      rw [hs] at hrest
      obtain ⟨hleft, hright⟩ := ih hrest
      refine ⟨⟨h.1, by rw [hs]; exact hleft⟩, fun s' hr => ?_⟩
      simp only [runs, hs, Option.bind_some] at hr
      exact hright s' hr

/-- The invariant rule with the past in it: `I` may mention the actions taken so far, and the step
may use that they lead where they lead. -/
theorem runs_invariant_past {s₀ : S} {I : List A → S → Prop} (h₀ : I [] s₀)
    (hstep : ∀ past s a s', runs step s₀ past = some s → I past s → guard s a →
      step s a = some s' → I (past ++ [a]) s')
    {as : List A} {s' : S} (hg : Along step guard s₀ as) (hr : runs step s₀ as = some s') :
    I as s' := by
  induction as using List.reverseRecOn generalizing s' with
  | nil =>
    simp only [runs_nil, Option.some.injEq] at hr
    exact hr ▸ h₀
  | append_singleton as a ih =>
    obtain ⟨s₁, h₁, h₂⟩ := runs_append.mp hr
    obtain ⟨s₂, h₃, h₄⟩ := runs_cons.mp h₂
    obtain ⟨hleft, hright⟩ := along_append hg
    simp only [runs_nil, Option.some.injEq] at h₄
    exact h₄ ▸ hstep as s₁ a s₂ h₁ (ih hleft h₁) (hright s₁ h₁).1 h₃

end

end Lib
