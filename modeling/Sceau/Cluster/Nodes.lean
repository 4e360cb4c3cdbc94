import Sceau.Cluster.World
import Sceau.Node.Exact
import Mathlib.Data.List.InsertIdx
import Mathlib.Data.List.Nodup

/-!
# A node between operations

What is true of a node whenever no operation is under way on it, if commands fail only where they
have to. Each service holds the node's SRK loaded, under a number no other process of the node uses,
and has the fleet key in front of it exactly if the slot was filled before it was started. A slot
that was ever filled still is.

The lemmas follow what can become of a node: its machine moves on, a service starts or stops, a join
begins or ends.
-/

set_option autoImplicit false

namespace Sceau

open Lib

variable {P : Platform}

/-- The SRK of a TPM that derives it. -/
def Tpm.srk (tpm : Tpm) : Public := tpm.primary srkPublic []

theorem Tpm.primary_eq_srk {tpm : Tpm} (h : (tpm.ownerSeed srkPublic).isSome = true)
    (random : Bytes) : tpm.primary srkPublic random = tpm.srk := by
  obtain ⟨seed, hseed⟩ := Option.isSome_iff_exists.mp h
  simp [Tpm.srk, Tpm.primary, hseed]

/-- The number of a transient object. -/
def Handle.transientId : Handle → Option Nat
  | .transient id _ => some id
  | _ => none

theorem Handle.flushes_transientId (ctx : Context) (h : Handle) :
    (Cmd.tpm ctx (.flushContext h)).Flushes fun id => h.transientId = some id := by
  cases h <;> first | rfl | trivial

/-- The sealer of the node's own key: the fallback, if there is one. -/
def KmsService.own (service : KmsService) : TpmSealer :=
  (service.legacySealer.getD service.sealer).value

/-- The sealer's primary is the SRK, and it is loaded. -/
structure TpmSealer.Holds (P : Platform) (tpm : Tpm) (s : TpmSealer) : Prop where
  primary : ∃ id, s.primary = .transient id (.key tpm.srk) ∧
    ⟨s.context.id, id, .key tpm.srk⟩ ∈ tpm.objects
  keyId : s.keyId = keyIdOf P tpm.srk

/-- A service of one of two kinds, by whether the slot was filled before it was started. -/
inductive Instance.Runs (P : Platform) (tpm : Tpm) (filled : Option Nat) : Instance → Prop where
  | own {s : TpmSealer} {started : Nat} (srk : s.Holds P tpm)
      (before : ∀ t ∈ filled, started ≤ t) : Runs P tpm filled ⟨serviceOf s none, started⟩
  | fleet {s legacy : TpmSealer} {k : Public} {started t : Nat} (primary : s.primary = .persistent k)
      (keyId : s.keyId = keyIdOf P k) (slot : tpm.slot = some k) (filling : filled = some t)
      (after : t < started) (srk : legacy.Holds P tpm) :
      Runs P tpm filled ⟨serviceOf s (some legacy), started⟩

namespace Node

/-- The node after an operation at time `clock` that left its TPM in this state. -/
def put (node : Node) (clock : Nat) (tpm : Tpm) : Node :=
  { node with tpm, filled := node.filled.or (tpm.slot.map fun _ => clock) }

/-- The numbers of the objects that processes of the node will flush: the transport key of a join,
and each service's SRK. -/
def owned (node : Node) : List (Option Nat) :=
  (node.join.map (·.transportHandle.transientId)).toList ++
    node.serves.map (·.service.own.primary.transientId)

structure Steady (P : Platform) (clock : Nat) (node : Node) : Prop where
  /-- the TPM derives its SRK, and does not draw it -/
  seeded : (node.tpm.ownerSeed srkPublic).isSome = true
  filled : node.filled.isSome = node.tpm.slot.isSome
  filled_lt : ∀ t ∈ node.filled, t < clock
  serves : ∀ inst ∈ node.serves, inst.Runs P node.tpm node.filled ∧ inst.started < clock
  nodup : node.owned.Nodup
  numbered : ∀ x ∈ node.owned, ∃ id, x = some id ∧ id < node.tpm.next
  enroll : ∀ service ∈ node.enroll, ∃ k, service.fleetKeyHandle = .persistent k

end Node

/-! ## The machine moves on

An operation of some other process of the node leaves what a service holds: what it flushes is its
own, the slot keeps its key, and the SRK is derived again as the same key. -/

section Put

variable {gone : Nat → Prop} {tpm : Tpm} {l : Ledger} {m : Machine}

theorem Kept.srk (h : Kept gone ⟨tpm, l⟩ m) : m.tpm.srk = tpm.srk := by
  unfold Tpm.srk Tpm.primary
  rw [h.ownerSeed]

theorem TpmSealer.Holds.put {s : TpmSealer} (h : s.Holds P tpm) (hkept : Kept gone ⟨tpm, l⟩ m)
    (hgone : ∀ id, s.primary.transientId = some id → ¬ gone id) : s.Holds P m.tpm := by
  obtain ⟨id, hprimary, hloaded⟩ := h.primary
  refine ⟨⟨id, ?_, ?_⟩, ?_⟩
  · rw [hprimary, hkept.srk]
  · rw [hkept.srk]
    exact hkept.objects _ hloaded (hgone id (by rw [hprimary]; rfl))
  · rw [h.keyId, hkept.srk]

theorem Instance.Runs.put {inst : Instance} {filled : Option Nat} {clock : Nat}
    (h : inst.Runs P tpm filled) (hkept : Kept gone ⟨tpm, l⟩ m)
    (hslot : ∀ k, tpm.slot = some k → m.tpm.slot = some k)
    (hgone : ∀ id, inst.service.own.primary.transientId = some id → ¬ gone id)
    (hstarted : inst.started < clock) :
    inst.Runs P m.tpm (filled.or (m.tpm.slot.map fun _ => clock)) := by
  cases h with
  | own srk before =>
    refine .own (srk.put hkept hgone) fun t ht => ?_
    cases filled with
    | some t' => exact before t ht
    | none =>
      -- filled just now, and so after the service was started
      obtain ⟨k, -, rfl⟩ := Option.map_eq_some_iff.mp ht
      exact Nat.le_of_lt hstarted
  | fleet primary keyId slot filling after srk =>
    refine .fleet primary keyId (hslot _ slot) ?_ after (srk.put hkept hgone)
    rw [filling]
    rfl

namespace Node

variable {node : Node} {clock : Nat}

theorem Steady.put (h : node.Steady P clock) (hkept : Kept gone ⟨node.tpm, l⟩ m)
    (hslot : ∀ k, node.tpm.slot = some k → m.tpm.slot = some k)
    (hgone : ∀ id, some id ∈ node.owned → ¬ gone id) :
    (node.put clock m.tpm).Steady P (clock + 1) where
  seeded := by
    show (m.tpm.ownerSeed srkPublic).isSome = true
    rw [hkept.ownerSeed]
    exact h.seeded
  filled := by
    have hfilled := h.filled
    cases hs : node.tpm.slot with
    | none =>
      have hnone : node.filled = none := by simpa [hs] using hfilled
      simp [Node.put, hnone]
    | some k => simp [Node.put, hslot k hs]
  filled_lt := by
    intro t ht
    cases hfilled : node.filled with
    | some t' =>
      simp only [Node.put, hfilled, Option.some_or, Option.mem_some_iff] at ht
      subst ht
      exact Nat.lt_succ_of_lt (h.filled_lt t' hfilled)
    | none =>
      simp only [Node.put, hfilled, Option.none_or] at ht
      obtain ⟨k, -, rfl⟩ := Option.map_eq_some_iff.mp ht
      exact Nat.lt_succ_self _
  serves := by
    intro inst hinst
    obtain ⟨hruns, hstarted⟩ := h.serves inst hinst
    refine ⟨hruns.put hkept hslot (fun id hid => hgone id ?_) hstarted,
      Nat.lt_succ_of_lt hstarted⟩
    exact List.mem_append_right _ (List.mem_map.mpr ⟨inst, hinst, hid⟩)
  nodup := h.nodup
  numbered := by
    intro x hx
    obtain ⟨id, hid, hlt⟩ := h.numbered x hx
    exact ⟨id, hid, Nat.lt_of_lt_of_le hlt hkept.next⟩
  enroll := h.enroll

/-- The time a slot was filled stands as long as the slot does. -/
theorem Steady.filled_put {tpm : Tpm} (h : node.Steady P clock) (hslot : tpm.slot = node.tpm.slot) :
    (node.put clock tpm).filled = node.filled := by
  cases hs : node.tpm.slot with
  | none => simp [Node.put, hslot, hs]
  | some k =>
    have hsome : node.filled.isSome = true := by rw [h.filled, hs]; rfl
    obtain ⟨t, ht⟩ := Option.isSome_iff_exists.mp hsome
    simp [Node.put, ht]

theorem Steady.later (h : node.Steady P clock) : node.Steady P (clock + 1) where
  seeded := h.seeded
  filled := h.filled
  filled_lt := fun t ht => Nat.lt_succ_of_lt (h.filled_lt t ht)
  serves := fun inst hinst => ⟨(h.serves inst hinst).1, Nat.lt_succ_of_lt (h.serves inst hinst).2⟩
  nodup := h.nodup
  numbered := h.numbered
  enroll := h.enroll

end Node

end Put

/-! ## What a service is made of

A service that has just started is what `Runs` says: its probe finds the fleet key exactly if the slot
is filled, and it has loaded the SRK under a new number. -/

section Service

variable {m m' : Machine} {filled : Option Nat} {s : TpmSealer}

theorem TpmSealer.Srk.holds {id : Nat} {t : Public} (h : s.Srk P m m' id t)
    (hseed : (m.tpm.ownerSeed srkPublic).isSome = true)
    (hsame : m'.tpm.ownerSeed = m.tpm.ownerSeed) : s.Holds P m'.tpm := by
  have ht : t = m'.tpm.srk := by
    obtain ⟨random, ht⟩ := h.template
    rw [ht, Tpm.primary_eq_srk hseed]
    unfold Tpm.srk Tpm.primary
    rw [hsame]
  subst ht
  exact ⟨⟨id, h.primary, h.loaded⟩, h.keyId⟩

/-- A service that was started on an empty slot, or has the fleet key. -/
theorem SealerPair.runs {legacy : Option TpmSealer} {clock : Nat} (h : SealerPair P m m' s legacy)
    (hseed : (m.tpm.ownerSeed srkPublic).isSome = true)
    (hsame : m'.tpm.ownerSeed = m.tpm.ownerSeed) (hslot : m'.tpm.slot = m.tpm.slot)
    (hexact : ∀ k, m.tpm.slot = some k → legacy.isSome = true)
    (hfilled : filled.isSome = m.tpm.slot.isSome) (hlt : ∀ t ∈ filled, t < clock) :
    (⟨serviceOf s legacy, clock⟩ : Instance).Runs P m'.tpm filled := by
  cases h with
  | own srk =>
    refine .own (srk.holds hseed hsame) fun t ht => ?_
    have hsome : m.tpm.slot.isSome = true := by
      rw [← hfilled, ht]
      rfl
    obtain ⟨k, hk⟩ := Option.isSome_iff_exists.mp hsome
    cases hexact k hk
  | fleet slot primary keyId srk =>
    have hsome : filled.isSome = true := by rw [hfilled, slot]; rfl
    obtain ⟨t, ht⟩ := Option.isSome_iff_exists.mp hsome
    exact .fleet primary keyId (hslot.trans slot) ht (hlt t ht) (srk.holds hseed hsame)

/-- The number of a new service's SRK. -/
theorem SealerPair.own_transientId {legacy : Option TpmSealer} (h : SealerPair P m m' s legacy) :
    ∃ id, (serviceOf s legacy).own.primary.transientId = some id ∧ m.tpm.next ≤ id ∧
      id < m'.tpm.next := by
  cases h with
  | own srk =>
    refine ⟨_, ?_, srk.fresh, m'.tpm.objects_lt _ srk.loaded⟩
    exact congrArg Handle.transientId srk.primary
  | fleet slot primary keyId srk =>
    refine ⟨_, ?_, srk.fresh, m'.tpm.objects_lt _ srk.loaded⟩
    exact congrArg Handle.transientId srk.primary

theorem TpmSealer.Holds.names {tpm : Tpm} (h : s.Holds P tpm) : s.primary.Names tpm.srk := by
  obtain ⟨id, hprimary, -⟩ := h.primary
  exact .inr ⟨id, hprimary⟩

theorem Instance.Runs.named {inst : Instance} {tpm : Tpm} (h : inst.Runs P tpm filled) :
    inst.service.Named P := by
  cases h with
  | own srk before => exact ⟨⟨_, srk.names, srk.keyId⟩, by simp [serviceOf]⟩
  | fleet primary keyId slot filling after srk =>
    refine ⟨⟨_, .inl primary, keyId⟩, ?_⟩
    intro legacy hlegacy
    obtain rfl := Option.some.inj hlegacy
    exact ⟨_, srk.names, srk.keyId⟩

/-- A service flushes its SRK as it goes, and nothing else that was loaded. -/
theorem Instance.Runs.drop_flushes {inst : Instance} {tpm : Tpm} {filled : Option Nat}
    (h : inst.Runs P tpm filled) : inst.service.drop.Only
      (Cmd.Flushes fun id => inst.service.own.primary.transientId = some id) := by
  cases h with
  | own srk before =>
    exact KmsService.drop_only (fun _ => Cmd.benign.flushes) _
      (fun ctx => Handle.flushes_transientId ctx _) fun _ _ hlegacy => by cases hlegacy
  | fleet primary keyId slot filling after srk =>
    refine KmsService.drop_only (fun _ => Cmd.benign.flushes) _ (fun ctx => ?_) ?_
    · -- the fleet key's handle is persistent: nothing is flushed through it
      dsimp only [serviceOf]
      rw [primary]
      trivial
    · intro ctx legacy hlegacy
      obtain rfl := Option.some.inj hlegacy
      exact Handle.flushes_transientId ctx _

/-- The key a service seals under: the SRK, or the key in the slot since before its start. -/
theorem Instance.Runs.seals {inst : Instance} {tpm : Tpm} {t : Public}
    (h : inst.Runs P tpm filled)
    (ht : m.storageParent inst.service.sealer.value.context inst.service.sealer.value.primary =
      some t) :
    inst.service.sealer.value.keyId = keyIdOf P t ∧
      (t = tpm.srk ∨ tpm.slot = some t ∧ ∃ f, filled = some f ∧ f < inst.started) := by
  cases h with
  | own srk before =>
    rw [srk.names.storageParent ht]
    exact ⟨srk.keyId, .inl rfl⟩
  | fleet primary keyId slot filling after srk =>
    have hkey := Handle.Names.storageParent (.inl primary) ht
    rw [hkey]
    exact ⟨keyId, .inr ⟨slot, _, filling, after⟩⟩

/-- The SRK of a sealer can be loaded under. -/
theorem TpmSealer.Holds.storageParent (h : s.Holds P m.tpm)
    (hstorage : (m.tpm.srk.objectAttributes.restricted && m.tpm.srk.objectAttributes.decrypt) = true) :
    m.storageParent s.context s.primary = some m.tpm.srk := by
  obtain ⟨id, hprimary, hloaded⟩ := h.primary
  refine storageParent_eq_some.mpr ⟨?_, hstorage⟩
  rw [hprimary]
  simp [Machine.resolve, hloaded]

/-- For each key it can be asked about a service has a sealer: for the SRK, and for the key that
was in the slot before its start. -/
theorem Instance.Runs.selects {inst : Instance} {t : Public} (h : inst.Runs P m.tpm filled)
    (hstorage : (t.objectAttributes.restricted && t.objectAttributes.decrypt) = true)
    (hcollide : ∀ k, m.tpm.slot = some k → keyIdOf P m.tpm.srk ≠ keyIdOf P k)
    (hkey : t = m.tpm.srk ∨ m.tpm.slot = some t ∧ ∃ f, filled = some f ∧ f < inst.started) :
    ∃ lock, inst.service.selected (keyIdOf P t) = some lock ∧ lock.poisoned = false ∧
      m.storageParent lock.value.context lock.value.primary = some t := by
  cases h with
  | @own s started srk before =>
    refine ⟨{ value := s }, ?_, rfl, ?_⟩ <;> rcases hkey with rfl | ⟨-, f, hf, hlt⟩
    · simp [KmsService.selected, serviceOf, srk.keyId]
    · exact absurd hlt (Nat.not_lt_of_le (before f hf))
    · exact srk.storageParent hstorage
    · exact absurd hlt (Nat.not_lt_of_le (before f hf))
  | @fleet s legacy k started f primary keyId slot filling after srk =>
    rcases hkey with rfl | ⟨hslot, -⟩
    · -- the fleet key has another identifier, so the request falls through to the fallback
      refine ⟨{ value := legacy }, ?_, rfl, srk.storageParent hstorage⟩
      simp [KmsService.selected, serviceOf, keyId, srk.keyId, hcollide k slot]
    · obtain rfl := Option.some.inj (slot.symm.trans hslot)
      refine ⟨{ value := s }, ?_, rfl, storageParent_eq_some.mpr ⟨?_, hstorage⟩⟩
      · simp [KmsService.selected, serviceOf, keyId]
      · rw [primary]
        simp [Machine.resolve, slot]

end Service

/-! ## Processes come and go

Starting adds a number nobody has, and stopping gives one back. -/

namespace Node

variable {node : Node} {clock : Nat}

/-- Numbers given out from now on are nobody's yet. -/
theorem Steady.fresh {id : Nat} (h : node.Steady P clock) (hid : node.tpm.next ≤ id) :
    some id ∉ node.owned := by
  intro hmem
  obtain ⟨id', heq, hlt⟩ := h.numbered _ hmem
  obtain rfl := Option.some.inj heq
  exact absurd hid (Nat.not_le_of_lt hlt)

theorem Steady.setEnroll (h : node.Steady P clock) {enroll : Option EnrollService}
    (henroll : ∀ service ∈ enroll, ∃ k, service.fleetKeyHandle = .persistent k) :
    ({ node with enroll } : Node).Steady P clock :=
  ⟨h.seeded, h.filled, h.filled_lt, h.serves, h.nodup, h.numbered, henroll⟩

theorem Steady.endJoin (h : node.Steady P clock) :
    ({ node with join := none } : Node).Steady P clock :=
  ⟨h.seeded, h.filled, h.filled_lt, h.serves, (List.nodup_append.mp h.nodup).2.1,
    fun x hx => h.numbered x (List.mem_append_right _ hx), h.enroll⟩

/-- The number of the transport key is not one of those left. -/
theorem Steady.not_mem_endJoin (h : node.Steady P clock) {join : PendingJoin}
    (hjoin : node.join = some join) :
    join.transportHandle.transientId ∉ ({ node with join := none } : Node).owned := by
  have hnodup := h.nodup
  simp only [Node.owned, hjoin] at hnodup
  exact (List.nodup_cons.mp hnodup).1

theorem Steady.beginJoin (h : node.Steady P clock) (hidle : node.join = none) {join : PendingJoin}
    {id : Nat} (hid : join.transportHandle.transientId = some id) (hlt : id < node.tpm.next)
    (hnew : some id ∉ node.owned) : ({ node with join := some join } : Node).Steady P clock := by
  have howned : ({ node with join := some join } : Node).owned = some id :: node.owned := by
    simp [Node.owned, hidle, hid]
  refine ⟨h.seeded, h.filled, h.filled_lt, h.serves, ?_, ?_, h.enroll⟩
  · rw [howned]
    exact List.nodup_cons.mpr ⟨hnew, h.nodup⟩
  · intro x hx
    rw [howned] at hx
    rcases List.mem_cons.mp hx with rfl | hx
    · exact ⟨id, rfl, hlt⟩
    · exact h.numbered x hx

theorem Steady.addServe (h : node.Steady P clock) {inst : Instance}
    (hruns : inst.Runs P node.tpm node.filled) (hstarted : inst.started < clock) {id : Nat}
    (hid : inst.service.own.primary.transientId = some id) (hlt : id < node.tpm.next)
    (hnew : some id ∉ node.owned) :
    ({ node with serves := node.serves ++ [inst] } : Node).Steady P clock := by
  have howned : ({ node with serves := node.serves ++ [inst] } : Node).owned =
      node.owned ++ [some id] := by
    simp [Node.owned, hid]
  refine ⟨h.seeded, h.filled, h.filled_lt, ?_, ?_, ?_, h.enroll⟩
  · intro inst' hinst'
    rcases List.mem_append.mp hinst' with hinst' | hinst'
    · exact h.serves inst' hinst'
    · obtain rfl := List.mem_singleton.mp hinst'
      exact ⟨hruns, hstarted⟩
  · rw [howned]
    refine List.nodup_append.mpr ⟨h.nodup, by simp, fun x hx y hy heq => ?_⟩
    obtain rfl := List.mem_singleton.mp hy
    exact hnew (heq ▸ hx)
  · intro x hx
    rw [howned] at hx
    rcases List.mem_append.mp hx with hx | hx
    · exact h.numbered x hx
    · obtain rfl := List.mem_singleton.mp hx
      exact ⟨id, rfl, hlt⟩

theorem Steady.eraseServe (h : node.Steady P clock) (n : Nat) :
    ({ node with serves := node.serves.eraseIdx n } : Node).Steady P clock := by
  have hsub : ({ node with serves := node.serves.eraseIdx n } : Node).owned.Sublist node.owned :=
    List.Sublist.append (List.Sublist.refl _) ((List.eraseIdx_sublist _ _).map _)
  exact ⟨h.seeded, h.filled, h.filled_lt,
    fun inst hinst => h.serves inst (List.mem_of_mem_eraseIdx hinst), h.nodup.sublist hsub,
    fun x hx => h.numbered x (hsub.subset hx), h.enroll⟩

/-- The number of a service that stops is not one of those left. -/
theorem Steady.not_mem_eraseServe (h : node.Steady P clock) {n : Nat} {inst : Instance}
    (hinst : node.serves[n]? = some inst) :
    inst.service.own.primary.transientId ∉
      ({ node with serves := node.serves.eraseIdx n } : Node).owned := by
  obtain ⟨-, hserves, hapart⟩ := List.nodup_append.mp h.nodup
  obtain ⟨hn, rfl⟩ := List.getElem?_eq_some_iff.mp hinst
  intro hmem
  rcases List.mem_append.mp hmem with hmem | hmem
  · exact hapart _ hmem _ (List.mem_map.mpr ⟨_, List.getElem_mem hn, rfl⟩) rfl
  · dsimp only at hmem
    rw [← List.eraseIdx_map, ← hserves.erase_getElem n (by simpa using hn)] at hmem
    exact hserves.not_mem_erase (by simpa using hmem)

end Node

end Sceau
