import Mathlib.Data.List.Basic

/-!
# Command programs

A program that reaches its surroundings only through *commands*: it issues one, is handed an
answer, and goes on. What a command does is not the program's business but the **device**'s — a
partial function from the command, the device's state and a choice of the environment to an
answer and a new state. The choice is where every fault, random number and foreign reply lives,
so "for every pattern of failing commands" is "for every list of choices".

Three readings of one program, and the theorems between them:

* `exec` runs it against a list of choices and is the executable one;
* `wp` is its weakest precondition over *all* choices, with the trace of commands and answers
  available to the postcondition — `wp_sound` is the bridge from `wp` to `exec`;
* `Only` is the syntactic reading: every command the program can ever issue lies in a set. It is
  what frame arguments want, because it survives any change to the program that adds no command.
-/

set_option autoImplicit false

namespace Lib

/-- A program over the commands `C`, a command `c` being answered by an `R c`. -/
inductive Prog (C : Type) (R : C → Type) (α : Type) : Type where
  | ret (a : α)
  | call (c : C) (k : R c → Prog C R α)

/-- A command together with the answer it was given. -/
abbrev Event (C : Type) (R : C → Type) : Type := (c : C) × R c

/-- What a command does: `none` means the environment's choice is not a possible behaviour. -/
abbrev Device (C : Type) (R : C → Type) (S E : Type) : Type :=
  (c : C) → S → E → Option (R c × S)

namespace Prog

variable {C : Type} {R : C → Type} {S E α β γ ε : Type}

/-- Sequencing: graft the continuation onto every leaf. -/
def bind : Prog C R α → (α → Prog C R β) → Prog C R β
  | .ret a, f => f a
  | .call c k, f => .call c fun r => (k r).bind f

instance : Monad (Prog C R) where
  pure := .ret
  bind := .bind

@[simp] theorem ret_bind (a : α) (f : α → Prog C R β) : (Prog.ret a : Prog C R α).bind f = f a :=
  rfl

@[simp] theorem call_bind (c : C) (k : R c → Prog C R α) (f : α → Prog C R β) :
    (Prog.call c k).bind f = .call c fun r => (k r).bind f := rfl

theorem bind_assoc (p : Prog C R α) (f : α → Prog C R β) (g : β → Prog C R γ) :
    (p.bind f).bind g = p.bind fun a => (f a).bind g := by
  induction p with
  | ret a => rfl
  | call c k ih =>
    show Prog.call c _ = .call c _
    congr 1
    funext r
    exact ih r

/-! ## Running -/

/-- Run against exactly the given choices. `none` when a choice is impossible, or when there are
too few or too many of them. -/
def exec (dev : Device C R S E) : Prog C R α → S → List E → Option (α × S × List (Event C R))
  | .ret a, s, [] => some (a, s, [])
  | .ret _, _, _ :: _ => none
  | .call _ _, _, [] => none
  | .call c k, s, e :: es =>
    (dev c s e).bind fun x =>
      (exec dev (k x.1) x.2 es).map fun y => (y.1, y.2.1, ⟨c, x.1⟩ :: y.2.2)

/-- Run the beginning: what is left of the program after these choices. -/
def advance (dev : Device C R S E) :
    Prog C R α → S → List E → Option (Prog C R α × S × List (Event C R))
  | p, s, [] => some (p, s, [])
  | .ret _, _, _ :: _ => none
  | .call c k, s, e :: es =>
    (dev c s e).bind fun x =>
      (advance dev (k x.1) x.2 es).map fun y => (y.1, y.2.1, ⟨c, x.1⟩ :: y.2.2)

@[simp] theorem advance_nil (dev : Device C R S E) (p : Prog C R α) (s : S) :
    advance dev p s [] = some (p, s, []) := by
  cases p <;> rfl

/-- One command more. -/
theorem advance_snoc {dev : Device C R S E} {p : Prog C R α} {s s₁ s₂ : S} {es : List E} {e : E}
    {c : C} {k : R c → Prog C R α} {tr : List (Event C R)} {r : R c}
    (h : advance dev p s es = some (.call c k, s₁, tr)) (hd : dev c s₁ e = some (r, s₂)) :
    advance dev p s (es ++ [e]) = some (k r, s₂, tr ++ [⟨c, r⟩]) := by
  induction es generalizing p s tr with
  | nil =>
    simp only [advance, Option.some.injEq, Prod.mk.injEq] at h
    obtain ⟨rfl, rfl, rfl⟩ := h
    simp [advance, hd]
  | cons e₀ es ih =>
    cases p with
    | ret a => simp [advance] at h
    | call c₀ k₀ =>
      simp only [advance, Option.bind_eq_some_iff, Option.map_eq_some_iff, Prod.mk.injEq] at h
      obtain ⟨⟨r₀, s₀⟩, hd₀, ⟨p₁, s₁', tr₁⟩, hx, rfl, rfl, rfl⟩ := h
      simp [advance, hd₀, ih hx]

/-- Advanced to its end, a program has been run. -/
theorem exec_of_advance {dev : Device C R S E} {p : Prog C R α} {s s' : S} {es : List E} {a : α}
    {tr : List (Event C R)} (h : advance dev p s es = some (.ret a, s', tr)) :
    exec dev p s es = some (a, s', tr) := by
  induction es generalizing p s tr with
  | nil =>
    simp only [advance, Option.some.injEq, Prod.mk.injEq] at h
    obtain ⟨rfl, rfl, rfl⟩ := h
    rfl
  | cons e es ih =>
    cases p with
    | ret a => simp [advance] at h
    | call c k =>
      simp only [advance, Option.bind_eq_some_iff, Option.map_eq_some_iff, Prod.mk.injEq] at h
      obtain ⟨⟨r, s₁⟩, hd, ⟨p₁, s₂, tr₁⟩, hx, rfl, rfl, rfl⟩ := h
      simp [exec, hd, ih hx]

/-- One program and then another, each on its own choices. -/
theorem exec_bind {dev : Device C R S E} {p : Prog C R α} {f : α → Prog C R β} {s s₁ s₂ : S}
    {es es' : List E} {a : α} {b : β} {tr tr' : List (Event C R)}
    (h : exec dev p s es = some (a, s₁, tr)) (h' : exec dev (f a) s₁ es' = some (b, s₂, tr')) :
    exec dev (p.bind f) s (es ++ es') = some (b, s₂, tr ++ tr') := by
  induction p generalizing s es tr with
  | ret a₀ =>
    cases es with
    | nil =>
      simp only [exec, Option.some.injEq, Prod.mk.injEq] at h
      obtain ⟨rfl, rfl, rfl⟩ := h
      exact h'
    | cons e es => cases h
  | call c k ih =>
    cases es with
    | nil => cases h
    | cons e es =>
      simp only [exec, Option.bind_eq_some_iff, Option.map_eq_some_iff, Prod.mk.injEq] at h
      obtain ⟨⟨r, s₀⟩, hd, ⟨a₁, s₁', tr₁⟩, hx, rfl, rfl, rfl⟩ := h
      simp [exec, hd, ih r hx]

/-! ## Weakest preconditions -/

/-- `Q` holds of the trace, the result and the final state of every run from `s`. -/
def wp (dev : Device C R S E) :
    Prog C R α → (List (Event C R) → α → S → Prop) → S → Prop
  | .ret a, Q, s => Q [] a s
  | .call c k, Q, s =>
    ∀ e r s', dev c s e = some (r, s') → wp dev (k r) (fun tr => Q (⟨c, r⟩ :: tr)) s'

section Rules

variable {dev : Device C R S E} {Q Q' : List (Event C R) → α → S → Prop} {s : S}

theorem wp_mono {p : Prog C R α} (hQ : ∀ tr a s, Q tr a s → Q' tr a s)
    (h : wp dev p Q s) : wp dev p Q' s := by
  induction p generalizing Q Q' s with
  | ret a => exact hQ _ _ _ h
  | call c k ih =>
    intro e r s' hd
    exact ih r (fun tr a s'' => hQ (⟨c, r⟩ :: tr) a s'') (h e r s' hd)

theorem wp_and {p : Prog C R α} (h : wp dev p Q s) (h' : wp dev p Q' s) :
    wp dev p (fun tr a s => Q tr a s ∧ Q' tr a s) s := by
  induction p generalizing Q Q' s with
  | ret a => exact ⟨h, h'⟩
  | call c k ih =>
    intro e r s' hd
    exact ih r (h e r s' hd) (h' e r s' hd)

theorem wp_always (p : Prog C R α) (h : ∀ tr a s, Q tr a s) : wp dev p Q s := by
  induction p generalizing Q s with
  | ret a => exact h [] a s
  | call c k ih =>
    intro e r s' _
    exact ih r (fun tr a s'' => h (⟨c, r⟩ :: tr) a s'')

/-- The sequencing rule. The trace of the whole is the concatenation of the two traces, which is
the only reason the postconditions carry one. -/
theorem wp_bind {p : Prog C R α} {f : α → Prog C R β}
    {Q : List (Event C R) → β → S → Prop} {s : S} :
    wp dev (p.bind f) Q s ↔
      wp dev p (fun tr a s' => wp dev (f a) (fun tr' => Q (tr ++ tr')) s') s := by
  induction p generalizing Q s with
  | ret a => simp [wp]
  | call c k ih =>
    simp only [call_bind, wp]
    constructor
    · intro h e r s' hd
      simpa using ih r |>.mp (h e r s' hd)
    · intro h e r s' hd
      exact ih r |>.mpr (by simpa using h e r s' hd)

/-- **`wp` speaks about `exec`**: what holds of every run holds of this one. -/
theorem wp_sound {p : Prog C R α} {es : List E} {a : α} {s' : S} {tr : List (Event C R)}
    (h : wp dev p Q s) (hx : exec dev p s es = some (a, s', tr)) : Q tr a s' := by
  induction p generalizing Q s es tr with
  | ret b =>
    cases es with
    | nil =>
      simp only [exec, Option.some.injEq, Prod.mk.injEq] at hx
      obtain ⟨rfl, rfl, rfl⟩ := hx
      exact h
    | cons e es => simp [exec] at hx
  | call c k ih =>
    cases es with
    | nil => simp [exec] at hx
    | cons e es =>
      simp only [exec, Option.bind_eq_some_iff, Option.map_eq_some_iff, Prod.mk.injEq] at hx
      obtain ⟨⟨r, s₁⟩, hd, ⟨b, s₂, tr₁⟩, hx₁, rfl, rfl, rfl⟩ := hx
      have hQ := ih r (h e r s₁ hd) hx₁
      exact hQ

end Rules

/-! ## The commands a program can issue -/

/-- Every command the program can issue, whatever it is answered, lies in `X`. -/
def Only (X : C → Prop) : Prog C R α → Prop
  | .ret _ => True
  | .call c k => X c ∧ ∀ r, (k r).Only X

section Only

variable {X Y : C → Prop}

theorem Only.bind {p : Prog C R α} {f : α → Prog C R β} (hp : p.Only X)
    (hf : ∀ a, (f a).Only X) : (p.bind f).Only X := by
  induction p with
  | ret a => exact hf a
  | call c k ih => exact ⟨hp.1, fun r => ih r (hp.2 r)⟩

theorem Only.mono {p : Prog C R α} (h : ∀ c, X c → Y c) (hp : p.Only X) : p.Only Y := by
  induction p with
  | ret a => trivial
  | call c k ih => exact ⟨h c hp.1, fun r => ih r (hp.2 r)⟩

/-- The trace of a program holds its commands only. -/
theorem Only.trace (dev : Device C R S E) {p : Prog C R α} (hp : p.Only X) (s : S) :
    wp dev p (fun tr _ _ => ∀ ev ∈ tr, X ev.1) s := by
  induction p generalizing s with
  | ret a => exact fun ev hev => absurd hev List.not_mem_nil
  | call c k ih =>
    intro e r s₁ hd
    refine wp_mono ?_ (ih r (hp.2 r) s₁)
    intro tr a s₂ htr ev hev
    rcases List.mem_cons.mp hev with rfl | hev
    · exact hp.1
    · exact htr ev hev

/-- **Simulation.** What holds on one device holds on another whose steps are among those of the
first, seen through `view`, on the choices `pick` makes of its own. -/
theorem Only.wp_simulate {T F : Type} {dev : Device C R S E} {dev' : Device C R T F}
    (view : T → S) (pick : F → E)
    (hsim : ∀ c t f r t', X c → dev' c t f = some (r, t') →
      dev c (view t) (pick f) = some (r, view t'))
    {p : Prog C R α} (hp : p.Only X) {Q : List (Event C R) → α → S → Prop} {t : T}
    (h : Prog.wp dev p Q (view t)) : Prog.wp dev' p (fun tr a t' => Q tr a (view t')) t := by
  induction p generalizing Q t with
  | ret a => exact h
  | call c k ih =>
    intro f r t' hd
    exact ih r (hp.2 r) (h (pick f) r (view t') (hsim c t f r t' hp.1 hd))

/-- Where the device can answer every command of `X`, a program that issues nothing else runs to its
end. -/
theorem Only.exec_total {dev : Device C R S E}
    (hdev : ∀ c s, X c → ∃ e r s', dev c s e = some (r, s')) {p : Prog C R α} (hp : p.Only X)
    (s : S) : ∃ es a s' tr, exec dev p s es = some (a, s', tr) := by
  induction p generalizing s with
  | ret a => exact ⟨[], a, s, [], rfl⟩
  | call c k ih =>
    obtain ⟨e, r, s₁, hd⟩ := hdev c s hp.1
    obtain ⟨es, a, s₂, tr, hx⟩ := ih r (hp.2 r) s₁
    exact ⟨e :: es, a, s₂, ⟨c, r⟩ :: tr, by simp [exec, hd, hx]⟩

end Only

/-! ## Some run ends

The rules for showing that there is a run, where one is put together from the runs of the parts. -/

section Ends

variable {dev : Device C R S E}

/-- Some choices run the program to its end. -/
def Ends (dev : Device C R S E) (p : Prog C R α) (s : S) : Prop :=
  ∃ es a s' tr, exec dev p s es = some (a, s', tr)

theorem Ends.ret (a : α) (s : S) : Ends dev (.ret a : Prog C R α) s := ⟨[], a, s, [], rfl⟩

theorem Ends.call {c : C} {k : R c → Prog C R α} {s s' : S} {e : E} {r : R c}
    (hd : dev c s e = some (r, s')) (h : Ends dev (k r) s') : Ends dev (.call c k) s := by
  obtain ⟨es, a, s₂, tr, hx⟩ := h
  exact ⟨e :: es, a, s₂, ⟨c, r⟩ :: tr, by simp [exec, hd, hx]⟩

theorem Ends.bind {p : Prog C R α} {f : α → Prog C R β} {s : S} (hp : Ends dev p s)
    (hf : ∀ a s', Ends dev (f a) s') : Ends dev (p.bind f) s := by
  obtain ⟨es, a, s₁, tr, hx⟩ := hp
  obtain ⟨es', b, s₂, tr', hx'⟩ := hf a s₁
  exact ⟨es ++ es', b, s₂, tr ++ tr', exec_bind hx hx'⟩

end Ends

/-! ## How many commands a program issues -/

/-- At most `n` commands, whatever they are answered. -/
def Within : Nat → Prog C R α → Prop
  | _, .ret _ => True
  | 0, .call _ _ => False
  | n + 1, .call _ k => ∀ r, (k r).Within n

theorem Within.mono {m n : Nat} (h : m ≤ n) {p : Prog C R α} (hp : p.Within m) : p.Within n := by
  induction p generalizing m n with
  | ret a => cases n <;> trivial
  | call c k ih =>
    cases m with
    | zero => exact hp.elim
    | succ m =>
      cases n with
      | zero => exact absurd h (Nat.not_succ_le_zero m)
      | succ n => exact fun r => ih r (Nat.le_of_succ_le_succ h) (hp r)

theorem Within.bind {m n : Nat} {p : Prog C R α} {f : α → Prog C R β} (hp : p.Within m)
    (hf : ∀ a, (f a).Within n) : (p.bind f).Within (m + n) := by
  induction p generalizing m with
  | ret a => exact (hf a).mono (Nat.le_add_left n m)
  | call c k ih =>
    cases m with
    | zero => exact hp.elim
    | succ m =>
      rw [Nat.succ_add]
      exact fun r => ih r (hp r)

/-! ## Classes of programs

What is shown of a function by going through its text, one part after the other, is often shown of a
class of programs and not only of one: `Only X` for some `X`, or moving the state along a preorder
wherever it is started. -/

section Classes

/-- A class that sequencing does not leave. -/
structure Closed (Φ : {α : Type} → Prog C R α → Prop) : Prop where
  ret : ∀ {α : Type} (a : α), Φ (Prog.ret a : Prog C R α)
  bind : ∀ {α β : Type} {p : Prog C R α} {f : α → Prog C R β}, Φ p → (∀ a, Φ (f a)) → Φ (p.bind f)

theorem only_closed (X : C → Prop) : Closed (R := R) fun p => p.Only X :=
  ⟨fun _ => trivial, Only.bind⟩

/-- From wherever it starts, the program ends above. -/
def Moves (dev : Device C R S E) (le : S → S → Prop) (p : Prog C R α) : Prop :=
  ∀ s, wp dev p (fun _ _ s' => le s s') s

theorem moves_closed (dev : Device C R S E) {le : S → S → Prop} (hrefl : ∀ s, le s s)
    (htrans : ∀ s₁ s₂ s₃, le s₁ s₂ → le s₂ s₃ → le s₁ s₃) : Closed (Moves dev le) := by
  refine ⟨fun _ s => hrefl s, fun hp hf s => wp_bind.mpr (wp_mono ?_ (hp s))⟩
  intro tr a s₁ h₁
  exact wp_mono (fun _ _ s₂ h₂ => htrans s s₁ s₂ h₁ h₂) (hf a s₁)

/-- **The frame rule.** Where every command of `X` moves the state along a preorder, a program
that issues nothing else ends above where it began. -/
theorem Only.moves {X : C → Prop} (dev : Device C R S E) {le : S → S → Prop} (hrefl : ∀ s, le s s)
    (htrans : ∀ s₁ s₂ s₃, le s₁ s₂ → le s₂ s₃ → le s₁ s₃)
    (hdev : ∀ c s e r s', X c → dev c s e = some (r, s') → le s s') {p : Prog C R α}
    (hp : p.Only X) : p.Moves dev le := by
  induction p with
  | ret a => exact hrefl
  | call c k ih =>
    intro s e r s₁ hd
    refine wp_mono ?_ (ih r (hp.2 r) s₁)
    intro tr a s₂ hle
    exact htrans s s₁ s₂ (hdev c s e r s₁ hp.1 hd) hle

/-- What no command of `X` changes is unchanged. -/
theorem Only.unchanged {T : Type} {X : C → Prop} (dev : Device C R S E) (view : S → T)
    (hdev : ∀ c s e r s', X c → dev c s e = some (r, s') → view s' = view s) {p : Prog C R α}
    (hp : p.Only X) : p.Moves dev fun s s' => view s' = view s := by
  refine Only.moves dev ?_ ?_ hdev hp
  · intro s
    rfl
  · intro s₁ s₂ s₃ h₁ h₂
    exact h₂.trans h₁

end Classes

/-! ## Fallible programs

`ExceptT` over `Prog` is the shape of code that returns a `Result`: `throw` is an early return and
sequencing is the question mark. The rules below are the ones for `Prog` read through `run`. -/

section Fallible

variable {X : C → Prop} {dev : Device C R S E}

theorem run_bind (x : ExceptT ε (Prog C R) α) (f : α → ExceptT ε (Prog C R) β) :
    (x >>= f).run = x.run.bind fun r =>
      match r with
      | .ok a => (f a).run
      | .error e => .ret (.error e) := by
  show x.run.bind (ExceptT.bindCont f) = _
  congr 1
  funext r
  cases r <;> rfl

@[simp] theorem run_lift (p : Prog C R α) :
    (liftM p : ExceptT ε (Prog C R) α).run = p.bind fun a => .ret (.ok a) := rfl

/-- The sequencing rule for fallible code: an error ends the run at once. -/
theorem wp_run_bind {x : ExceptT ε (Prog C R) α} {f : α → ExceptT ε (Prog C R) β}
    {Q : List (Event C R) → Except ε β → S → Prop} {s : S} :
    wp dev (x >>= f).run Q s ↔
      wp dev x.run (fun tr r s' =>
        match r with
        | .ok a => wp dev (f a).run (fun tr' => Q (tr ++ tr')) s'
        | .error e => Q tr (.error e) s') s := by
  rw [run_bind, wp_bind]
  constructor <;> refine wp_mono ?_ <;> rintro tr (e | a) s' h <;> simpa [wp] using h

/-- `match p().await`: the result is looked at instead of being propagated. -/
theorem wp_run_lift {p : Prog C R α} {Q : List (Event C R) → Except ε α → S → Prop} {s : S} :
    wp dev (liftM p : ExceptT ε (Prog C R) α).run Q s ↔
      wp dev p (fun tr a s' => Q tr (.ok a) s') s := by
  rw [run_lift, wp_bind]
  simp [wp]

/-- `map_err`. -/
def mapErr {ε' : Type} (f : ε → ε') (x : ExceptT ε (Prog C R) α) : ExceptT ε' (Prog C R) α :=
  ExceptT.mk (x.run.bind fun r => .ret (r.mapError f))

theorem wp_mapErr {ε' : Type} {f : ε → ε'} {x : ExceptT ε (Prog C R) α}
    {Q : List (Event C R) → Except ε' α → S → Prop} {s : S} :
    wp dev (mapErr f x).run Q s ↔ wp dev x.run (fun tr r s' => Q tr (r.mapError f) s') s := by
  show wp dev (x.run.bind _) Q s ↔ _
  rw [wp_bind]
  simp [wp]

/-- `Q` holds of what the program returns, if it returns a value. -/
abbrev wpOk (dev : Device C R S E) (x : ExceptT ε (Prog C R) α) (Q : α → S → Prop) (s : S) : Prop :=
  wp dev x.run (fun _ r s' => ∀ a, r = .ok a → Q a s') s

theorem wpOk_bind {x : ExceptT ε (Prog C R) α} {f : α → ExceptT ε (Prog C R) β}
    {Q : β → S → Prop} {s : S} (h : wpOk dev x (fun a s' => wpOk dev (f a) Q s') s) :
    wpOk dev (x >>= f) Q s := by
  refine wp_run_bind.mpr (wp_mono ?_ h)
  intro tr r s' hr
  cases r with
  | error e => simp
  | ok a => exact hr a rfl

theorem wpOk_pure {a : α} {Q : α → S → Prop} {s : S} (h : Q a s) :
    wpOk dev (pure a : ExceptT ε (Prog C R) α) Q s := fun _ hb => Except.ok.inj hb ▸ h

theorem wpOk_mapErr {ε' : Type} {f : ε → ε'} {x : ExceptT ε (Prog C R) α} {Q : α → S → Prop} {s : S}
    (h : wpOk dev x Q s) : wpOk dev (mapErr f x) Q s := by
  refine wp_mapErr.mpr (wp_mono ?_ h)
  intro tr r s' hr a ha
  cases r with
  | error e => cases ha
  | ok b => exact hr a (congrArg Except.ok (Except.ok.inj ha))

theorem wpOk_mono {x : ExceptT ε (Prog C R) α} {Q Q' : α → S → Prop} {s : S}
    (hQ : ∀ a s', Q a s' → Q' a s') (h : wpOk dev x Q s) : wpOk dev x Q' s :=
  wp_mono (fun _ _ _ hr a ha => hQ a _ (hr a ha)) h

theorem Only.mapErr {ε' : Type} {f : ε → ε'} {x : ExceptT ε (Prog C R) α} (hx : x.run.Only X) :
    (mapErr f x).run.Only X :=
  Only.bind hx fun _ => trivial

theorem Closed.run_bind {Φ : {α : Type} → Prog C R α → Prop} (hΦ : Closed Φ)
    {x : ExceptT ε (Prog C R) α} {f : α → ExceptT ε (Prog C R) β} (hx : Φ x.run)
    (hf : ∀ a, Φ (f a).run) : Φ (x >>= f).run := by
  rw [Prog.run_bind]
  refine hΦ.bind hx fun r => ?_
  cases r with
  | error e => exact hΦ.ret _
  | ok a => exact hf a

theorem Only.run_bind {x : ExceptT ε (Prog C R) α} {f : α → ExceptT ε (Prog C R) β}
    (hx : x.run.Only X) (hf : ∀ a, (f a).run.Only X) : (x >>= f).run.Only X :=
  (only_closed X).run_bind hx hf

theorem Within.run_bind {m n : Nat} {x : ExceptT ε (Prog C R) α} {f : α → ExceptT ε (Prog C R) β}
    (hx : x.run.Within m) (hf : ∀ a, (f a).run.Within n) : (x >>= f).run.Within (m + n) := by
  rw [Prog.run_bind]
  refine hx.bind fun r => ?_
  cases r with
  | error e => cases n <;> trivial
  | ok a => exact hf a

end Fallible

end Prog

end Lib
