import Sceau.Cluster.Availability

/-!
# What the nodes report

`sceau status` prints whether it found the fleet key and the `key_id` of the key it found; `sceau serve`
does the same probe and logs the `key_id` of the sealer it starts with. An operator compares these
lines across nodes before relying on the fleet key.

The fleet is that of `Fleet/Agreement.lean`, with the lines kept as the results of the processes: one
action a command, any command failing, processes killed anywhere, and joins that take a key out of a
slot and put one back between any two commands of a probe. A probe that fails for no reason makes the
node fall back to its own key, so a line need not say what the slot holds. What it says is nevertheless
one of two things: the id of the one fleet key, or the id of the node's own.
-/

set_option autoImplicit false

namespace Sceau

open Lib

variable {ι : Type}

/-! ## The reports -/

/-- A line of `status`, or of `serve` once it has its sealers. -/
structure Report where
  fleetKey : Bool
  keyId : String
  deriving DecidableEq

/-- What `run_serve` logs; it has a fallback exactly if the fleet key was found. -/
def KmsService.report (service : KmsService) : Report where
  fleetKey := service.legacySealer.isSome
  keyId := service.sealer.value.keyId

/-- What a process reports, if it comes to it. -/
def Program.report (P : Platform) : Program → Code (Option Report)
  | .serve forceLegacy =>
    (runServe P forceLegacy).run.bind fun r => .ret (r.toOption.map KmsService.report)
  | .status => (runStatus P).run.bind fun r => .ret (r.toOption.map fun x => ⟨x.1, x.2⟩)
  | p => (p.code P).bind fun _ => .ret none

abbrev ReportPool (ι : Type) := Pool (ι × Program) Cmd Cmd.Res (FleetState ι) (Option Report)

def ReportPool.start (tpms : ι → Tpm) : ReportPool ι := { shared := { tpms } }

/-- Node `i` has reported this. -/
def ReportPool.Reported (pool : ReportPool ι) (i : ι) (r : Report) : Prop :=
  ∃ t ∈ pool.tasks, t.who.1 = i ∧ t.result? = some (some r)

/-- Every TPM derives what it derived at the beginning. -/
def Seeded (tpms : ι → Tpm) (s : FleetState ι) : Prop :=
  ∀ i, (s.tpms i).ownerSeed = (tpms i).ownerSeed

theorem Seeded.srk {tpms : ι → Tpm} {s : FleetState ι} (h : Seeded tpms s) {i : ι}
    (hsrk : ((tpms i).ownerSeed srkPublic).isSome = true) (random : Bytes) :
    (s.tpms i).primary srkPublic random = (tpms i).srk := by
  rw [← Tpm.primary_eq_srk hsrk random]
  unfold Tpm.primary
  rw [h i]

variable [DecidableEq ι]

def reportSystem (P : Platform) :
    System (ι × Program) Cmd Cmd.Res (FleetState ι) Choice Unit (Option Report) where
  code p := p.2.report P
  dev p := fleetDevice P p.1
  await _ := true
  env s _ := some s

/-! ## What a process learns among the others -/

section Programs

variable {P : Platform} {G i : ι} {tpms : ι → Tpm} {ε α β : Type} {s s' : FleetState ι}

theorem Seeded.put (h : Seeded tpms s) {m : Machine}
    (hm : m.tpm.ownerSeed = (s.tpms i).ownerSeed) : Seeded tpms (s.put i m) := by
  intro j
  by_cases hj : j = i
  · subst hj
    simpa [FleetState.put, hm] using h j
  · simpa [FleetState.put, hj] using h j

theorem fleetDevice_seeded (h : Seeded tpms s) {c : Cmd} {e : Choice} {r : c.Res}
    (hd : fleetDevice P i c s e = some (r, s')) : Seeded tpms s' := by
  have hnode : (nodeDevice P anyFault c (s.machine i) e).map (fun x => (x.1, s.put i x.2)) =
      some (r, s') → Seeded tpms s' := by
    intro hd
    obtain ⟨⟨r', m'⟩, hstep, heq⟩ := Option.map_eq_some_iff.mp hd
    obtain ⟨-, rfl⟩ := Prod.mk.inj heq
    exact h.put (nodeDevice_frame hstep).ownerSeed
  cases c with
  | sendResponse response =>
    cases e with
    | io b =>
      obtain ⟨-, rfl⟩ := Prod.mk.inj (Option.some.inj hd)
      exact h
    | _ => exact hnode hd
  | duplicateRpc request =>
    rcases e with _ | _ | _ | _ | _ | ⟨_ | resp⟩
    case reply.some =>
      simp only [fleetDevice] at hd
      split at hd
      · obtain ⟨-, rfl⟩ := Prod.mk.inj (Option.some.inj hd)
        exact h
      · cases hd
    all_goals exact hnode hd
  | _ => exact hnode hd

/-- The fleet agrees, and every TPM derives what it did. -/
structure Informed (G : ι) (tpms : ι → Tpm) (s : FleetState ι) : Prop where
  agreed : Agreed G s
  seeded : Seeded tpms s

/-- What a program on node `i` knows of its result, whatever the other processes do. -/
abbrev Learns (P : Platform) (G : ι) (tpms : ι → Tpm) (i : ι) (p : Code α)
    (Q : α → FleetState ι → Prop) (s : FleetState ι) : Prop :=
  p.Safe (Informed G tpms) (Settled G) (fleetDevice P i) Q s

theorem Learns.of_keeps {p : Code α} {Q : α → FleetState ι → Prop} (hp : Keeps P G i p Q s) :
    Learns P G tpms i p Q s := by
  induction p generalizing s with
  | ret a => exact fun s' hle hI => hp s' hle hI.agreed
  | call c k ih =>
    intro s₁ hle hI e r s₂ hd
    obtain ⟨hagreed, hle', hk⟩ := hp s₁ hle hI.agreed e r s₂ hd
    exact ⟨⟨hagreed, fleetDevice_seeded hI.seeded hd⟩, hle', ih r hk⟩

/-- What a fallible program knows of the value it returns. -/
abbrev LearnsOk (P : Platform) (G : ι) (tpms : ι → Tpm) (i : ι) (x : Fallible ε α)
    (Q : α → FleetState ι → Prop) (s : FleetState ι) : Prop :=
  Prog.SafeOk (Informed G tpms) (Settled G) (fleetDevice P i) x Q s

/-- Sequencing after a calm program: what was known before it is known after it. -/
theorem learns_calm_bind {x : Fallible ε α} {f : α → Fallible ε β} {Q : β → FleetState ι → Prop}
    (hx : x.run.Only Cmd.calm) (hf : ∀ a s', Settled G s s' → LearnsOk P G tpms i (f a) Q s') :
    LearnsOk P G tpms i (x >>= f) Q s := by
  refine Prog.SafeOk.bind (Settled.refl G) (Prog.Safe.mono ?_ (Learns.of_keeps (keeps_calm hx s)))
  intro r s' hle a _
  exact hf a s' hle

variable [FromTss ε]

/-- A calm command: what its being performed says, as far as it stands. -/
theorem learns_tpmCall {ctx : Context} {c : TpmCmd} {Q : c.Res → FleetState ι → Prop}
    (hc : (Cmd.tpm ctx c).calm)
    (hok : ∀ s₁, Settled G s s₁ → Informed G tpms s₁ → ∀ a m',
      Performs P anyFault (s₁.machine i) ctx c a m' → ∀ s₂, Settled G s₁ s₂ → Q a s₂) :
    LearnsOk P G tpms i (tpmCall (ε := ε) ctx c) Q s := by
  intro s₁ hle hI e r s₂ hd
  obtain ⟨hagreed, hle'⟩ := fleetDevice_calm hc hI.agreed hd
  refine ⟨⟨hagreed, fleetDevice_seeded hI.seeded hd⟩, hle', ?_⟩
  obtain ⟨⟨r', m'⟩, hstep, heq⟩ := Option.map_eq_some_iff.mp hd
  obtain ⟨rfl, rfl⟩ := Prod.mk.inj heq
  rcases tpmStep_cases hstep with ⟨err, -, rfl, -⟩ | ⟨a, hp, rfl⟩
  · exact fun _ _ _ _ ha => by cases ha
  · intro s₃ h₃ _ b hb
    obtain rfl := Except.ok.inj hb
    exact hok s₁ hle hI a m' hp s₃ (Settled.trans G _ _ _ hle' h₃)

/-- The null-auth session is calm, so the closure is what matters. -/
theorem learns_nullauth {ctx : Context} {f : Context → Fallible ε α} {Q : α → FleetState ι → Prop}
    (hlater : ∀ a s₁ s₂, Settled G s₁ s₂ → Q a s₁ → Q a s₂)
    (hbody : ∀ ctx' s', Settled G s s' → LearnsOk P G tpms i (f ctx') Q s') :
    LearnsOk P G tpms i (ctx.executeWithNullauthSession f) Q s := by
  unfold Context.executeWithNullauthSession
  refine learns_calm_bind ⟨trivial, fun _ => trivial⟩ fun session s₁ h₁ => ?_
  cases session with
  | none => exact fun _ _ _ _ ha => by cases ha
  | some session =>
    refine learns_calm_bind ⟨trivial, fun _ => trivial⟩ fun _ s₂ h₂ => ?_
    refine Prog.SafeOk.bind (Settled.refl G) (Prog.SafeOk.lift
      (Prog.Safe.mono ?_ (hbody _ s₂ (Settled.trans G _ _ _ h₁ h₂))))
    intro res s₃ hres
    refine learns_calm_bind ⟨trivial, fun _ => trivial⟩ fun _ s₄ h₄ => ?_
    intro s₅ h₅ _ a ha
    exact hlater _ _ _ (Settled.trans G _ _ _ h₄ h₅) (hres a ha)

/-- The key that is found is the one in `G`'s slot. -/
theorem Fleet.loadFleetKey_learns {context : Context} (s : FleetState ι) :
    LearnsOk P G tpms i (Fleet.loadFleetKey context)
      (fun h s' => ∃ k, h = .persistent k ∧ (s'.tpms G).slot = some k) s := by
  unfold Fleet.loadFleetKey
  refine Prog.SafeOk.bind (Settled.refl G) (fun s₁ _ _ ph _ => learns_nullauth ?_ fun ctx s₂ _ => ?_)
  · rintro h s₁ s₂ hle ⟨k, rfl, hslot⟩
    exact ⟨k, rfl, hle.slot k hslot⟩
  · refine learns_tpmCall trivial fun s₁ _ hI a m' hp s₂ hle => ?_
    obtain ⟨-, ⟨k, hslot, rfl⟩, -⟩ := performs_trFromTpmPublic.mp hp
    exact ⟨k, rfl, hle.slot k (hI.agreed.slots i k hslot)⟩

/-- A handle stands for the key it was made for, or for nothing. -/
theorem readPublic_learns {ctx : Context} {h : Handle} {k : Public}
    (hk : h = .persistent k ∨ ∃ id, h = .transient id (.key k)) (s : FleetState ι) :
    LearnsOk P G tpms i (ctx.readPublic h : Fallible ε Public) (fun pub _ => pub = k) s := by
  refine learns_tpmCall trivial fun s₁ _ _ pub m' hp s₂ _ => ?_
  obtain ⟨⟨o, ho, rfl⟩, -⟩ := performs_readPublic.mp hp
  rcases hk with rfl | ⟨id, rfl⟩
  all_goals
    simp only [Machine.resolve, Option.ite_none_right_eq_some, Option.some.injEq] at ho
    rw [← ho.2]
    rfl

namespace TpmSealer

/-- The `key_id` is that of the key the handle was made for, which `G` keeps. -/
theorem fromPrimary_learns {context : Context} {k : Public} (hslot : (s.tpms G).slot = some k) :
    LearnsOk P G tpms i (fromPrimary P context (.persistent k))
      (fun sealer s' => (s'.tpms G).slot = some k ∧ sealer.keyId = keyIdOf P k) s := by
  have hkeyId : LearnsOk P G tpms i (fromPrimary P context (.persistent k))
      (fun sealer _ => sealer.keyId = keyIdOf P k) s := by
    unfold fromPrimary
    refine Prog.SafeOk.bind (Settled.refl G) ((learns_nullauth (fun _ _ _ _ h => h) fun ctx s₁ _ =>
      readPublic_learns (.inl rfl) s₁).mono ?_)
    rintro pub s₁ rfl
    exact .pure fun _ _ _ => rfl
  refine Prog.Safe.mono ?_ (hkeyId.and_le (Settled.trans G))
  intro r s' h sealer hok
  exact ⟨h.2.slot k hslot, h.1 sealer hok⟩

/-- The primary that is created is the node's own SRK. -/
theorem createSrk_learns {ctx : Context} (hsrk : ((tpms i).ownerSeed srkPublic).isSome = true)
    (s : FleetState ι) :
    LearnsOk P G tpms i (ctx.createPrimary srkPublic : Fallible TpmError Handle)
      (fun h _ => ∃ id, h = .transient id (.key (tpms i).srk)) s := by
  refine learns_tpmCall trivial fun s₁ _ hI a m' hp s₂ _ => ?_
  obtain ⟨-, unique, -, rfl, -⟩ := performs_createPrimary.mp hp
  have hkey : (s₁.machine i).tpm.primary srkPublic unique = (tpms i).srk :=
    hI.seeded.srk hsrk unique
  rw [hkey]
  exact ⟨_, rfl⟩

/-- The `key_id` is that of the node's own SRK. -/
theorem new_learns (hsrk : ((tpms i).ownerSeed srkPublic).isSome = true) (s : FleetState ι) :
    LearnsOk P G tpms i (TpmSealer.new P) (fun sealer _ => sealer.keyId = keyIdOf P (tpms i).srk) s := by
  unfold TpmSealer.new
  refine learns_calm_bind (only_contextNew fun _ => Cmd.benign.calm) fun context s₁ _ => ?_
  refine Prog.SafeOk.bind (Settled.refl G) (Prog.SafeOk.mono ?_
    (learns_nullauth (Q := fun (x : Handle × String × Bool) _ => x.2.1 = keyIdOf P (tpms i).srk)
      (fun _ _ _ _ h => h) fun ctx s₂ _ => ?_))
  · exact fun x s₂ hx => .pure fun _ _ _ => hx
  · refine Prog.SafeOk.bind (Settled.refl G) ((createSrk_learns hsrk s₂).mono fun primary s₃ hsrk => ?_)
    refine Prog.SafeOk.bind (Settled.refl G) ((readPublic_learns (.inr hsrk) s₃).mono ?_)
    rintro pub s₄ rfl
    exact .pure fun _ _ _ => rfl

end TpmSealer

/-! ## The two probes -/

/-- What a report says, wherever it comes from. -/
structure Report.Truthful (P : Platform) (srk : Public) (fleetKey : Option Public) (r : Report) :
    Prop where
  found : r.fleetKey = true → ∃ k, fleetKey = some k ∧ r.keyId = keyIdOf P k
  own : r.fleetKey = false → r.keyId = keyIdOf P srk

omit [DecidableEq ι] in
theorem Report.Truthful.later {srk : Public} {r : Report} (h : r.Truthful P srk (s.tpms G).slot)
    (hle : Settled G s s') : r.Truthful P srk (s'.tpms G).slot := by
  refine ⟨fun hfleet => ?_, h.own⟩
  obtain ⟨k, hslot, hkeyId⟩ := h.found hfleet
  exact ⟨k, hle.slot k hslot, hkeyId⟩

theorem runStatus_learns (hsrk : ((tpms i).ownerSeed srkPublic).isSome = true) (s : FleetState ι) :
    LearnsOk P G tpms i (runStatus P)
      (fun x s' => Report.Truthful P (tpms i).srk (s'.tpms G).slot ⟨x.1, x.2⟩) s := by
  unfold runStatus
  refine learns_calm_bind (Prog.Only.mapErr (only_contextNew fun _ => Cmd.benign.calm)) fun probe s₁ _ => ?_
  refine Prog.SafeOk.bind (Settled.refl G) (Prog.SafeOk.lift
    (Prog.Safe.mono ?_ (Fleet.loadFleetKey_learns s₁)))
  intro found s₂ hfound
  cases found with
  | ok fleetKey =>
    obtain ⟨k, rfl, hslot⟩ := hfound fleetKey rfl
    refine Prog.SafeOk.bind (Settled.refl G) (Prog.SafeOk.mapErr (Prog.SafeOk.mapErr
      ((TpmSealer.fromPrimary_learns hslot).mono ?_)))
    intro sealer s₃ h
    exact .pure fun s₄ hle _ => ⟨fun _ => ⟨k, hle.slot k h.1, h.2⟩, nofun⟩
  | error e =>
    refine Prog.SafeOk.bind (Settled.refl G) (Prog.SafeOk.mapErr (Prog.SafeOk.mapErr
      ((TpmSealer.new_learns hsrk s₂).mono ?_)))
    intro sealer s₃ hkeyId
    exact .pure fun _ _ _ => ⟨nofun, fun _ => hkeyId⟩

/-- The sealers `run_serve` starts with: a fallback exactly behind the fleet key. -/
theorem chooseSealer_learns (forceLegacy : Bool)
    (hsrk : ((tpms i).ownerSeed srkPublic).isSome = true) (s : FleetState ι) :
    LearnsOk P G tpms i (chooseSealer P forceLegacy) (fun x s' =>
      Report.Truthful P (tpms i).srk (s'.tpms G).slot ⟨x.2.isSome, x.1.keyId⟩) s := by
  have hown : ∀ s, LearnsOk P G tpms i (ofTpm (TpmSealer.new P) >>= fun sealer =>
      pure (sealer, none) : Fallible AnyError (TpmSealer × Option TpmSealer)) (fun x s' =>
        Report.Truthful P (tpms i).srk (s'.tpms G).slot ⟨x.2.isSome, x.1.keyId⟩) s := by
    intro s
    refine Prog.SafeOk.bind (Settled.refl G) (Prog.SafeOk.mapErr ((TpmSealer.new_learns hsrk s).mono ?_))
    exact fun sealer s₁ hkeyId => .pure fun _ _ _ => ⟨nofun, fun _ => hkeyId⟩
  cases forceLegacy with
  | true => exact hown s
  | false =>
    show LearnsOk P G tpms i (buildSealer P) _ s
    unfold buildSealer
    refine learns_calm_bind (Prog.Only.mapErr (only_contextNew fun _ => Cmd.benign.calm))
      fun probe s₁ _ => ?_
    refine Prog.SafeOk.bind (Settled.refl G) (Prog.SafeOk.lift
      (Prog.Safe.mono ?_ (Fleet.loadFleetKey_learns s₁)))
    intro found s₂ hfound
    cases found with
    | ok fleetKey =>
      obtain ⟨k, rfl, hslot⟩ := hfound fleetKey rfl
      refine Prog.SafeOk.bind (Settled.refl G) (Prog.SafeOk.mapErr
        ((TpmSealer.fromPrimary_learns hslot).mono ?_))
      intro sealer s₃ h
      refine learns_calm_bind (Prog.Only.mapErr (Prog.Only.mapErr
        (TpmSealer.new_only (fun _ => Cmd.benign.calm) P))) fun legacy s₄ h₄ => ?_
      exact .pure fun s₅ hle _ => ⟨fun _ => ⟨k, hle.slot k (h₄.slot k h.1), h.2⟩, nofun⟩
    | error e => exact hown s₂

theorem runServe_learns (forceLegacy : Bool) (hsrk : ((tpms i).ownerSeed srkPublic).isSome = true)
    (s : FleetState ι) :
    LearnsOk P G tpms i (runServe P forceLegacy) (fun service s' =>
      Report.Truthful P (tpms i).srk (s'.tpms G).slot service.report) s := by
  unfold runServe
  refine Prog.SafeOk.bind (Settled.refl G) (Prog.SafeOk.mapErr
    ((chooseSealer_learns forceLegacy hsrk s).mono ?_))
  intro x s₁ h
  obtain ⟨sealer, legacySealer⟩ := x
  cases legacySealer with
  | some legacy => exact .pure fun _ hle _ => h.later hle
  | none => exact .pure fun _ hle _ => h.later hle

theorem report_learns {p : ι × Program} (hp : Permitted G p)
    (hsrk : ((tpms p.1).ownerSeed srkPublic).isSome = true) (s : FleetState ι) :
    Learns P G tpms p.1 (p.2.report P) (fun r s' => ∀ report, r = some report →
      report.Truthful P (tpms p.1).srk (s'.tpms G).slot) s := by
  -- a process that reports nothing
  have hsilent : Learns P G tpms p.1 ((p.2.code P).bind fun _ => .ret none) (fun r s' =>
      ∀ report : Report, r = some report →
        report.Truthful P (tpms p.1).srk (s'.tpms G).slot) s := by
    refine Prog.Safe.map (Prog.Safe.mono ?_ (Learns.of_keeps (program_keeps hp s)))
    intro _ _ _ report hreport
    cases hreport
  obtain ⟨i, program⟩ := p
  cases program with
  | serve forceLegacy =>
    refine Prog.Safe.map (Prog.Safe.mono ?_ (runServe_learns forceLegacy hsrk s))
    intro r s' h report hreport
    obtain ⟨service, hok, rfl⟩ := Option.map_eq_some_iff.mp hreport
    exact h service (World.eq_ok_of_toOption hok)
  | status =>
    refine Prog.Safe.map (Prog.Safe.mono ?_ (runStatus_learns hsrk s))
    intro r s' h report hreport
    obtain ⟨x, hok, rfl⟩ := Option.map_eq_some_iff.mp hreport
    exact h x (World.eq_ok_of_toOption hok)
  | _ => exact hsilent

end Programs

/-! ## The result -/

section Result

variable {P : Platform} {G : ι} {tpms : ι → Tpm} {pool : ReportPool ι}

theorem reports_truthful {acts : List (FleetAct ι)} (hempty : ∀ i, (tpms i).slot = none)
    (hsrk : ∀ i, ((tpms i).ownerSeed srkPublic).isSome = true)
    (hg : Along (reportSystem P).step (SpawnOnly (Permitted G)) (ReportPool.start tpms) acts)
    (hr : runs (reportSystem P).step (ReportPool.start tpms) acts = some pool) :
    Agreed G pool.shared ∧ ∀ i r, pool.Reported i r →
      r.Truthful P (tpms i).srk (pool.shared.tpms G).slot := by
  have hstart : Informed G tpms ({ tpms } : FleetState ι) := by
    refine ⟨⟨?_, by simp, by simp⟩, fun _ => rfl⟩
    intro i k hk
    rw [hempty i] at hk
    cases hk
  have hsafe := runs_safe (M := reportSystem P) (Settled.refl G) (Settled.trans G)
    (Q := fun p r s => ∀ report, r = some report →
      report.Truthful P (tpms p.1).srk (s.tpms G).slot)
    (fun p s hp => report_learns hp (hsrk p.1) s) ?_
    (SafePool.start (Settled.refl G) hstart) hg hr
  · refine ⟨hsafe.inv.agreed, ?_⟩
    rintro i r ⟨t, ht, rfl, hresult⟩
    have htask := hsafe.tasks t ht
    rw [Task.ret_of_result hresult] at htask
    exact htask _ (Settled.refl G _) hsafe.inv r rfl
  · intro s x s' hI h
    obtain rfl := Option.some.inj h
    exact ⟨hI, Settled.refl G s⟩

/-- **What the reports say.** In every reachable state, whatever failed: a report that the fleet key
was found names the key in `G`'s slot, every other one the node's own key. If no two nodes' own keys
share an id with each other or with the fleet key, two reports of one node name the same key exactly if
both probes came out the same, and two of different nodes exactly if both found the fleet key; then
that is the key of every slot that is occupied. -/
theorem reports_agree (P : Platform) (G : ι) (tpms : ι → Tpm) (hempty : ∀ i, (tpms i).slot = none)
    (hsrk : ∀ i, ((tpms i).ownerSeed srkPublic).isSome = true) (acts : List (FleetAct ι))
    (pool : ReportPool ι)
    (hg : Along (reportSystem P).step (SpawnOnly (Permitted G)) (ReportPool.start tpms) acts)
    (hr : runs (reportSystem P).step (ReportPool.start tpms) acts = some pool) :
    (∀ i r, pool.Reported i r → r.Truthful P (tpms i).srk (pool.shared.tpms G).slot) ∧
    ((∀ i k, (pool.shared.tpms G).slot = some k → keyIdOf P (tpms i).srk ≠ keyIdOf P k) →
      (∀ i j, keyIdOf P (tpms i).srk = keyIdOf P (tpms j).srk → i = j) →
      ∀ i j r r', pool.Reported i r → pool.Reported j r' →
        (r.keyId = r'.keyId ↔ r.fleetKey = r'.fleetKey ∧ (r.fleetKey = true ∨ i = j)) ∧
        (i ≠ j → r.keyId = r'.keyId →
          ∀ n k, (pool.shared.tpms n).slot = some k → keyIdOf P k = r.keyId)) := by
  obtain ⟨hagreed, htruthful⟩ := reports_truthful hempty hsrk hg hr
  refine ⟨htruthful, fun hfleet hown i j r r' hri hrj => ?_⟩
  have h := htruthful i r hri
  have h' := htruthful j r' hrj
  cases hf : r.fleetKey with
  | true =>
    obtain ⟨k, hslot, hkeyId⟩ := h.found hf
    cases hf' : r'.fleetKey with
    | true =>
      obtain ⟨k', hslot', hkeyId'⟩ := h'.found hf'
      obtain rfl := Option.some.inj (hslot.symm.trans hslot')
      refine ⟨by simp [hkeyId, hkeyId'], fun _ _ n k' hn => ?_⟩
      obtain rfl := Option.some.inj (hslot.symm.trans (hagreed.slots n k' hn))
      exact hkeyId.symm
    | false =>
      have hne : r.keyId ≠ r'.keyId := by
        rw [hkeyId, h'.own hf']
        exact (hfleet j k hslot).symm
      exact ⟨by simp [hne], fun _ heq => absurd heq hne⟩
  | false =>
    cases hf' : r'.fleetKey with
    | true =>
      obtain ⟨k', hslot', hkeyId'⟩ := h'.found hf'
      have hne : r.keyId ≠ r'.keyId := by
        rw [h.own hf, hkeyId']
        exact hfleet i k' hslot'
      exact ⟨by simp [hne], fun _ heq => absurd heq hne⟩
    | false =>
      have hiff : r.keyId = r'.keyId ↔ i = j := by
        rw [h.own hf, h'.own hf']
        exact ⟨hown i j, fun hij => by rw [hij]⟩
      exact ⟨by simp [hiff], fun hij heq => absurd (hiff.mp heq) hij⟩

end Result

/-! `true` runs genesis and then status, which finds the key; serve, started on the same node after
that, has its probe fail for no reason. On `false` there is nothing to find. -/

def probingActs : List (FleetAct Bool) :=
  let missed := List.replicate 3 (performed 1) ++ .fail (.rc 0x18b) :: List.replicate 7 (performed 1)
  genesisActs ++ .spawn (true, .status) :: stepping 1 (List.replicate 9 (performed 1)) ++
    .spawn (true, .serve false) :: stepping 2 missed ++ .spawn (false, .status) :: stepping 3 missed

/-- Status and serve name different keys, and so do the two nodes that fell back to their own. -/
theorem reports_agree_of_two :
    ∃ (pool : ReportPool Bool) (status serve other : Report),
      runs (reportSystem .plain).step (ReportPool.start seededTpm) probingActs = some pool ∧
      pool.Reported true status ∧ pool.Reported true serve ∧ pool.Reported false other ∧
      status.keyId = keyIdOf .plain someFleetKey ∧ status.keyId ≠ serve.keyId ∧
      serve.keyId ≠ other.keyId := by
  have hrun : (runs (reportSystem .plain).step (ReportPool.start seededTpm) probingActs).map
      (fun pool => ((pool.shared.tpms true).slot, pool.tasks.map fun t => (t.who.1, t.result?))) =
      some (some someFleetKey, [(true, some none),
        (true, some (some ⟨true, keyIdOf .plain someFleetKey⟩)),
        (true, some (some ⟨false, keyIdOf .plain (seededTpm true).srk⟩)),
        (false, some (some ⟨false, keyIdOf .plain (seededTpm false).srk⟩))]) := by
    decide +kernel
  have hg : Along (reportSystem .plain).step (SpawnOnly (Permitted true)) (ReportPool.start seededTpm)
      probingActs := along_spawnOnly (by decide) _
  obtain ⟨pool, hr, hpool⟩ := Option.map_eq_some_iff.mp hrun
  obtain ⟨hslot, htasks⟩ := Prod.mk.inj hpool
  have hreported : ∀ {i r}, (i, some (some r)) ∈ pool.tasks.map (fun t => (t.who.1, t.result?)) →
      ReportPool.Reported pool i r := by
    intro i r hmem
    obtain ⟨t, ht, heq⟩ := List.mem_map.mp hmem
    exact ⟨t, ht, (Prod.mk.inj heq).1, (Prod.mk.inj heq).2⟩
  rw [htasks] at hreported
  have hstatus := @hreported true ⟨true, keyIdOf .plain someFleetKey⟩ (by simp)
  have hserve := @hreported true ⟨false, keyIdOf .plain (seededTpm true).srk⟩ (by simp)
  have hother := @hreported false ⟨false, keyIdOf .plain (seededTpm false).srk⟩ (by simp)
  have hagree := (reports_agree .plain true seededTpm (fun _ => rfl) (by decide) _ pool hg hr).2
    (fun i k hk => ?_) (by decide +kernel)
  · refine ⟨pool, _, _, _, hr, hstatus, hserve, hother, rfl, ?_, ?_⟩
    · rw [Ne, (hagree _ _ _ _ hstatus hserve).1]
      simp
    · rw [Ne, (hagree _ _ _ _ hserve hother).1]
      simp
  · obtain rfl := Option.some.inj (hslot.symm.trans hk)
    revert i
    decide +kernel

end Sceau
