import Sceau.Platform
import Sceau.Tpm.Rules

/-!
# What a sealer leaves loaded

Serving is a sequence of `seal` and `unseal` calls on one `TpmSealer`. Sealing loads nothing.
Unsealing loads one object, reads it and flushes it — with a question mark on each, so a failing
`TPM2_Unseal` returns before the flush. `Leaks` counts what is left behind, one lemma per call says
how much, and a run leaves exactly one object per failed `TPM2_Unseal`.
-/

set_option autoImplicit false

namespace Sceau

open Lib

/-- The transient objects loaded in one ESAPI context. -/
def Machine.loaded (m : Machine) (ctx : Context) : List LoadedObject :=
  m.tpm.objects.filter (·.ctx = ctx.id)

/-- A `TPM2_Unseal` that failed. -/
def failedUnseal : Event Cmd Cmd.Res → Bool
  | ⟨.tpm _ (.unseal _), .error _⟩ => true
  | _ => false

/-- One request to a sealer. -/
inductive SealerCall where
  | «seal» (plaintext : Bytes)
  | «unseal» (ciphertext : Bytes)

namespace TpmSealer

variable (P : Platform) (self : TpmSealer)

/-- A call, whatever it returns. -/
def call : SealerCall → Code Unit
  | .seal plaintext => (self.seal P plaintext).run.bind fun _ => .ret ()
  | .unseal ciphertext => (self.unseal P ciphertext).run.bind fun _ => .ret ()

/-- Calls one after the other. -/
def calls : List SealerCall → Code Unit
  | [] => .ret ()
  | c :: cs => (self.call P c).bind fun _ => calls cs

end TpmSealer

/-! ## Counting what is left

Objects and sessions alike are listed newest first, each with the context it is of and a number no
older entry has. -/

section Entries

variable {α : Type} {ctxOf number : α → Nat} {ctx next next' : Nat} {old new newer : List α}

theorem new_append (hnext : next ≤ next') (hnew : ∀ x ∈ new, ctxOf x = ctx ∧ next ≤ number x)
    (hnewer : ∀ x ∈ newer, ctxOf x = ctx ∧ next' ≤ number x) :
    ∀ x ∈ newer ++ new, ctxOf x = ctx ∧ next ≤ number x := by
  intro x hx
  rcases List.mem_append.mp hx with hx | hx
  · exact ⟨(hnewer x hx).1, Nat.le_trans hnext (hnewer x hx).2⟩
  · exact hnew x hx

/-- What stayed is new, so the context has the old entries exactly when nothing stayed. -/
theorem same_entries_iff (hold : ∀ x ∈ old, number x < next)
    (hnew : ∀ x ∈ new, ctxOf x = ctx ∧ next ≤ number x) :
    (∀ x, x ∈ (new ++ old).filter (ctxOf · = ctx) ↔ x ∈ old.filter (ctxOf · = ctx)) ↔
      new = [] := by
  constructor
  · intro hsame
    rw [List.eq_nil_iff_forall_not_mem]
    intro x hx
    obtain ⟨hctx, hge⟩ := hnew x hx
    have hmem : x ∈ (new ++ old).filter (ctxOf · = ctx) := by simp [hx, hctx]
    have hlt := hold x (List.mem_of_mem_filter ((hsame x).mp hmem))
    omega
  · rintro rfl x
    rw [List.nil_append]

end Entries

/-- `n` objects have been loaded in the context and stayed. -/
structure Leaks (ctx : Context) (n : Nat) (m m' : Machine) : Prop where
  left : ∃ new : List LoadedObject, m'.tpm.objects = new ++ m.tpm.objects ∧ new.length = n ∧
    ∀ o ∈ new, o.ctx = ctx.id ∧ m.tpm.next ≤ o.id
  next : m.tpm.next ≤ m'.tpm.next

namespace Leaks

variable {ctx : Context} {n k : Nat} {m m₁ m₂ : Machine}

theorem of_objects (ho : m₁.tpm.objects = m.tpm.objects) (hn : m.tpm.next ≤ m₁.tpm.next) :
    Leaks ctx 0 m m₁ :=
  ⟨⟨[], by simpa using ho, rfl, by simp⟩, hn⟩

theorem trans (h₁ : Leaks ctx n m m₁) (h₂ : Leaks ctx k m₁ m₂) : Leaks ctx (n + k) m m₂ := by
  obtain ⟨new₁, ho₁, hl₁, hc₁⟩ := h₁.left
  obtain ⟨new₂, ho₂, hl₂, hc₂⟩ := h₂.left
  refine ⟨⟨new₂ ++ new₁, ?_, ?_, ?_⟩, Nat.le_trans h₁.next h₂.next⟩
  · rw [ho₂, ho₁, List.append_assoc]
  · rw [List.length_append, hl₁, hl₂, Nat.add_comm]
  · exact new_append h₁.next hc₁ hc₂

/-- What stayed is new, so the loaded set is the old one exactly when nothing stayed. -/
theorem loaded_iff (h : Leaks ctx n m m₁) :
    (∀ o, o ∈ m₁.loaded ctx ↔ o ∈ m.loaded ctx) ↔ n = 0 := by
  obtain ⟨new, ho, hl, hc⟩ := h.left
  rw [← hl, List.length_eq_zero_iff, Machine.loaded, Machine.loaded, ho]
  exact same_entries_iff m.tpm.objects_lt hc

end Leaks

/-! ## Each call -/

section Calls

variable {P : Platform} {m : Machine} {self : TpmSealer}

/-- Neither loads or flushes an object, nor unseals one. -/
def Cmd.loadsNothing : Cmd → Prop
  | .tpm _ (.unseal _) => False
  | c => c.quiet TpmCmd.movesObjects

theorem Cmd.loadsNothing.quiet {c : Cmd} (h : c.loadsNothing) : c.quiet TpmCmd.movesObjects := by
  unfold loadsNothing at h
  split at h
  · exact h.elim
  · exact h

theorem failedUnseal_of_loadsNothing {ev : Event Cmd Cmd.Res} (h : ev.1.loadsNothing) :
    failedUnseal ev = false := by
  unfold failedUnseal
  split
  · exact h.elim
  · rfl

/-- A program that loads nothing leaves nothing, and has no failed unseal to answer for. -/
theorem leaks_of_only {α : Type} {p : Code α} (faults : TpmCmd → Bool) (ctx : Context)
    (hp : p.Only Cmd.loadsNothing) :
    p.wp (nodeDevice P faults)
      (fun tr _ m' => Leaks ctx (tr.countP failedUnseal) m m') m := by
  have hframe : p.Moves (nodeDevice P faults)
      (fun m m' => m'.tpm.objects = m.tpm.objects ∧ m.tpm.next ≤ m'.tpm.next) :=
    Prog.Only.moves (nodeDevice P faults) (fun m => ⟨rfl, Nat.le_refl _⟩)
      (fun m₁ m₂ m₃ h₁ h₂ => ⟨h₂.1.trans h₁.1, Nat.le_trans h₁.2 h₂.2⟩)
      (fun c m e r m' hc hd =>
        ⟨(nodeDevice_frame hd).objects (Cmd.loadsNothing.quiet hc), (nodeDevice_frame hd).next⟩) hp
  refine Prog.wp_mono ?_ (Prog.wp_and (hframe m) (hp.trace (nodeDevice P faults) m))
  intro tr a m' h
  have hcount : tr.countP failedUnseal = 0 := by
    rw [List.countP_eq_zero]
    intro ev hev
    rw [failedUnseal_of_loadsNothing (h.2 ev hev)]
    exact Bool.false_ne_true
  rw [hcount]
  exact Leaks.of_objects h.1.1 h.1.2

theorem seal_loadsNothing (P : Platform) (self : TpmSealer) (plaintext : Bytes) :
    (self.seal P plaintext).run.Only Cmd.loadsNothing := by
  unfold TpmSealer.«seal»
  split
  · trivial
  · refine Prog.Only.run_bind ?_ ?_
    · refine only_nullauth rfl (fun _ => rfl) (fun _ => rfl) fun ctx' => ?_
      exact ⟨rfl, fun _ => trivial⟩
    · intro x
      cases h : envelopeEncode P.marshall Private.value x.2 x.1 <;> simp only [h] <;> trivial

/-- The closure of `unseal`, in the state a null-auth session leaves it in. -/
theorem unsealBody_leaks (ctx : Context) (hid : ctx.id = self.context.id) (pub : Public)
    (priv : Private) :
    (do
      let handle ← ctx.load self.primary priv pub
      let data ← ctx.unseal handle
      ctx.flushContext handle
      return data : Fallible (Failure TpmError) Bytes).run.wp (nodeDevice P noFlushFault)
      (fun tr _ m' => Leaks self.context (tr.countP failedUnseal) m m') m := by
  rw [Prog.wp_run_bind]
  refine wp_tpmCall.mpr ⟨fun _ e => Leaks.of_objects rfl (Nat.le_refl _), ?_⟩
  intro handle m₁ hload
  obtain ⟨-, t, o, -, -, rfl, rfl⟩ := performs_load.mp hload
  simp only
  rw [Prog.wp_run_bind]
  refine wp_tpmCall.mpr ⟨?_, ?_⟩
  · -- the early return: the object loaded above is still there
    intro _ e
    refine ⟨⟨[⟨ctx.id, m.tpm.next, o.load⟩], rfl, rfl, ?_⟩, Nat.le_succ _⟩
    simp [hid]
  intro data m₂ hun
  obtain ⟨-, -, rfl⟩ := performs_unseal.mp hun
  simp only
  rw [Prog.wp_run_bind]
  have hin : (⟨ctx.id, m.tpm.next, o.load⟩ : LoadedObject) ∈
      (m.tpm.addObject ctx.id o.load).objects := by simp [Tpm.addObject]
  refine wp_tpmCall.mpr ⟨?_, ?_⟩
  · intro hf e
    simp [Fails, noFlushFault, refuses, hin] at hf
  intro _ m₃ hfl
  obtain ⟨-, rfl⟩ := performs_flushTransient.mp hfl
  -- the flush removes what the load added, and only that: older objects have older numbers
  exact Leaks.of_objects (Tpm.dropObject_newest (o := ⟨ctx.id, m.tpm.next, o.load⟩) rfl
    m.tpm.objects_lt) (Nat.le_succ _)

theorem unseal_leaks (ciphertext : Bytes) :
    (self.unseal P ciphertext).run.wp (nodeDevice P noFlushFault)
      (fun tr _ m' => Leaks self.context (tr.countP failedUnseal) m m') m := by
  unfold TpmSealer.«unseal»
  split
  · exact Leaks.of_objects rfl (Nat.le_refl _)
  · exact Leaks.of_objects rfl (Nat.le_refl _)
  · rename_i pub priv _
    -- opening and closing the session moves no object
    have hin : Leaks self.context 0 m (m.inSession self.context) :=
      Leaks.of_objects rfl (Nat.le_succ _)
    refine wp_nullauth ?_ ?_ ?_ ?_
    · exact fun _ e => Leaks.of_objects rfl (Nat.le_refl _)
    · exact fun _ => Leaks.of_objects rfl (Nat.le_refl _)
    · exact fun _ e => hin
    · refine Prog.wp_mono ?_ 
        (unsealBody_leaks (self.context.withSession m) rfl pub priv)
      intro tr r m₂ h
      have h₂ := hin.trans h
      rw [Nat.zero_add] at h₂
      refine ⟨fun _ e => ?_, fun _ => ?_⟩
      · simpa [nullauthOpen, flushed, List.countP_cons, failedUnseal] using h₂
      · have h₃ : Leaks self.context 0 m₂ { m₂ with tpm := m₂.tpm.dropSession m.tpm.next } :=
          Leaks.of_objects rfl (Nat.le_refl _)
        simpa [nullauthOpen, flushed, List.countP_cons, failedUnseal] using h₂.trans h₃

theorem call_leaks (c : SealerCall) :
    (self.call P c).wp (nodeDevice P noFlushFault)
      (fun tr _ m' => Leaks self.context (tr.countP failedUnseal) m m') m := by
  cases c with
  | «seal» plaintext =>
    have hseal := leaks_of_only (P := P) (m := m) noFlushFault self.context
      (seal_loadsNothing P self plaintext)
    refine Prog.wp_bind.mpr (Prog.wp_mono ?_ hseal)
    intro tr _ m' h
    simpa [Prog.wp] using h
  | «unseal» ciphertext =>
    refine Prog.wp_bind.mpr (Prog.wp_mono ?_ (unseal_leaks ciphertext))
    intro tr _ m' h
    simpa [Prog.wp] using h

/-- **A run leaves one object per failed `TPM2_Unseal`**, and no other. -/
theorem calls_leaks (cs : List SealerCall) :
    (self.calls P cs).wp (nodeDevice P noFlushFault)
      (fun tr _ m' => Leaks self.context (tr.countP failedUnseal) m m') m := by
  induction cs generalizing m with
  | nil => exact Leaks.of_objects rfl (Nat.le_refl _)
  | cons c cs ih =>
    refine Prog.wp_bind.mpr (Prog.wp_mono ?_ (call_leaks c))
    intro tr _ m₁ h₁
    refine Prog.wp_mono ?_ ih
    intro tr' _ m₂ h₂
    rw [List.countP_append]
    exact h₁.trans h₂

end Calls

/-! ## Runs -/

/-- **Serving does not leak TPM objects, exactly when no `TPM2_Unseal` fails.** `self` is a sealer
built in the state before, by either constructor; `cs` are the calls made on it since. -/
theorem loaded_unchanged_iff (P : Platform) (self : TpmSealer) (m m' : Machine)
    (cs : List SealerCall) (es : List Choice) (tr : List (Event Cmd Cmd.Res))
    (hrun : (self.calls P cs).exec (nodeDevice P noFlushFault) m es = some ((), m', tr)) :
    (∀ o, o ∈ m'.loaded self.context ↔ o ∈ m.loaded self.context) ↔
      ∀ ev ∈ tr, failedUnseal ev = false := by
  have hleaks := Prog.wp_sound (calls_leaks cs) hrun
  rw [hleaks.loaded_iff, List.countP_eq_zero]
  simp only [Bool.not_eq_true]

/-- A TPM whose SRK is fixed and whose slot is empty. -/
def freshMachine : Machine := { tpm := { ownerSeed := fun _ => some [7] } }

def okCommand : Choice := .ok {}

/-- With every command performed, sealing and unsealing leave the loaded objects as they were. -/
theorem loaded_unchanged_round_trip :
    ∃ self m m' tr₀ tr,
      (TpmSealer.new .plain).run.exec (nodeDevice .plain noFlushFault) freshMachine
          (List.replicate 6 okCommand) = some (.ok self, m, tr₀) ∧
      (self.calls .plain [.seal [42], .unseal [1, 0, 1, 1]]).exec (nodeDevice .plain noFlushFault) m
          (List.replicate 10 okCommand) = some ((), m', tr) ∧
      ∀ o, o ∈ m'.loaded self.context ↔ o ∈ m.loaded self.context := by
  have hrun : ∃ self m m' tr₀ tr,
      (TpmSealer.new .plain).run.exec (nodeDevice .plain noFlushFault) freshMachine
          (List.replicate 6 okCommand) = some (.ok self, m, tr₀) ∧
      (self.calls .plain [.seal [42], .unseal [1, 0, 1, 1]]).exec (nodeDevice .plain noFlushFault) m
          (List.replicate 10 okCommand) = some ((), m', tr) ∧
      ∀ ev ∈ tr, failedUnseal ev = false :=
    ⟨_, _, _, _, _, rfl, rfl, by decide⟩
  obtain ⟨self, m, m', tr₀, tr, hnew, hcalls, hok⟩ := hrun
  exact ⟨self, m, m', tr₀, tr, hnew, hcalls,
    (loaded_unchanged_iff .plain self m m' _ _ tr hcalls).mpr hok⟩

/-- `Decrypt` of a genuine ciphertext, with `TPM2_Unseal` answering an error: the object loaded for
it stays. -/
theorem failed_unseal_leaves_object :
    ∃ self m m' tr₀ tr,
      (TpmSealer.new .plain).run.exec (nodeDevice .plain noFlushFault) freshMachine
          (List.replicate 6 okCommand) = some (.ok self, m, tr₀) ∧
      (self.calls .plain [.seal [42], .unseal [1, 0, 1, 1]]).exec (nodeDevice .plain noFlushFault) m
          (List.replicate 7 okCommand ++ [.fail (.rc 0x922), okCommand]) = some ((), m', tr) ∧
      ¬ ∀ o, o ∈ m'.loaded self.context ↔ o ∈ m.loaded self.context := by
  refine ⟨_, _, _, _, _, rfl, rfl, ?_⟩
  intro h
  have := (h ⟨0, 5, .sealedData { sealedPublic true with unique := [] } [42]⟩).mp (by decide)
  revert this
  decide

end Sceau
