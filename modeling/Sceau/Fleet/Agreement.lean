import Sceau.Enroll.Window
import Sceau.Node.Commands
import Sceau.Platform

/-!
# Agreement on the fleet key

Any number of nodes, each with its own TPM, and any number of processes on each of them: genesis,
join, enroll and its handlers, serve and its requests, status. One action is one command of one
process, any TPM command may fail, a process may be killed between any two commands, and the
response to a `Duplicate` request is whichever response was ever sent, or none.

One node `G` runs genesis, never forced, and no join; the others never run genesis. The invariant
ties every occupied slot, every duplicate ever wrapped and every response ever sent to `G`'s slot,
and `G`'s slot does not move once it is occupied. Only three commands can touch any of that —
`TPM2_EvictControl`, `TPM2_Duplicate` and the sending of a response — so the programs are read for
those, and everything else is `calm`.
-/

set_option autoImplicit false

namespace Sceau

open Lib

/-! ## The fleet as a system

Every node has a TPM of its own. The ledger is one for all: a duplicate that was wrapped on one node
is what another one imports, and no TPM imports what none has wrapped. The network is the list of the
responses ever sent; it may lose them, answer twice with one, or answer a request with the response
to another. -/

structure FleetState (ι : Type) where
  tpms : ι → Tpm
  ledger : Ledger := {}
  /-- every response a seed has sent -/
  responses : List DuplicateResponse := []

section System

variable {ι : Type} [DecidableEq ι]

namespace FleetState

/-- A node's own view: its TPM, and what all TPMs have wrapped. -/
def machine (s : FleetState ι) (i : ι) : Machine := { tpm := s.tpms i, ledger := s.ledger }

def put (s : FleetState ι) (i : ι) (m : Machine) : FleetState ι :=
  { s with tpms := Function.update s.tpms i m.tpm, ledger := m.ledger }

@[simp] theorem put_machine (s : FleetState ι) (i : ι) : s.put i (s.machine i) = s := by
  simp [put, machine]

end FleetState

/-- The commands of a process on node `i`. -/
def fleetDevice (P : Platform) (i : ι) : Device Cmd Cmd.Res (FleetState ι) Choice
  | .duplicateRpc _, s, .reply (some r) => if r ∈ s.responses then some (.ok r, s) else none
  | .sendResponse r, s, .io _ => some ((), { s with responses := r :: s.responses })
  | c, s, e => (nodeDevice P anyFault c (s.machine i) e).map fun x => (x.1, s.put i x.2)

/-- What can be started on a node: the subcommands, and the requests a serving process handles. -/
inductive Program where
  | genesis (force : Bool)
  | join (seed k0sDataDir : String)
  | enroll
  | duplicate (service : EnrollService) (request : Request)
  | serve (forceLegacy : Bool)
  | encrypt (service : KmsService) (plaintext : Bytes)
  | decrypt (service : KmsService) (keyId : String) (ciphertext : Bytes)
  | stop (service : KmsService)
  | status

/-- A handler's response is sent once the handler has returned it. -/
def sendAnswer : Except Status DuplicateResponse → Code Unit
  | .ok response => issue (.sendResponse response)
  | .error _ => .ret ()

def Program.code (P : Platform) : Program → Code Unit
  | .genesis force => (runGenesis force).run.bind fun _ => .ret ()
  | .join seed k0sDataDir => (runJoin P seed k0sDataDir).run.bind fun _ => .ret ()
  | .enroll => runEnroll.run.bind fun _ => .ret ()
  | .duplicate service request => (service.duplicate P request).bind sendAnswer
  | .serve forceLegacy => (runServe P forceLegacy).run.bind fun _ => .ret ()
  | .encrypt service plaintext => (service.encrypt P plaintext).bind fun _ => .ret ()
  | .decrypt service keyId ciphertext =>
    (service.decrypt P keyId ciphertext).bind fun _ => .ret ()
  | .stop service => service.drop
  | .status => (runStatus P).run.bind fun _ => .ret ()

/-- The fleet: a process is a node and what runs on it, and it can be killed anywhere. -/
def fleetSystem (P : Platform) :
    System (ι × Program) Cmd Cmd.Res (FleetState ι) Choice Unit Unit where
  code p := p.2.code P
  dev p := fleetDevice P p.1
  await _ := true
  env s _ := some s

/-- What may be started where: genesis on `G` and never forced, join anywhere else; a handler works
with the handle `load_fleet_key` gave to `run_enroll`, a persistent one. -/
def Permitted (G : ι) : ι × Program → Prop
  | (i, .genesis force) => i = G ∧ force = false
  | (i, .join _ _) => i ≠ G
  | (_, .duplicate service _) => ∃ pub, service.fleetKeyHandle = .persistent pub
  | _ => True

end System

/-! ## The invariant

Everything is tied to `G`'s slot, because it is the only one that is filled from nowhere. `Agreed` is
what holds of each state and `Settled` what every step may do to it; a process that has seen a key in
`G`'s slot, or a duplicate on record, still knows of it after any number of the others' steps. -/

section Invariant

variable {ι : Type} (G : ι)

/-- The response is that of a `TPM2_Duplicate` in the ledger. -/
def FromLedger (l : Ledger) (r : DuplicateResponse) : Prop :=
  r.hasEncryptionKey = true ∧ ∃ d ∈ l.dups, d.encryptionKey.value = r.encryptionKey ∧
    d.priv.value = r.duplicatePrivate ∧ d.secret.value = r.encryptedSecret

structure Agreed (s : FleetState ι) : Prop where
  slots : ∀ i k, (s.tpms i).slot = some k → (s.tpms G).slot = some k
  dups : ∀ d ∈ s.ledger.dups, (s.tpms G).slot = some d.key
  sent : ∀ r ∈ s.responses, FromLedger s.ledger r

/-- What every process can rely on: `G`'s key stays, and a duplicate stays on record. -/
structure Settled (s s' : FleetState ι) : Prop where
  slot : ∀ k, (s.tpms G).slot = some k → (s'.tpms G).slot = some k
  dups : ∀ d ∈ s.ledger.dups, d ∈ s'.ledger.dups

theorem Settled.refl (s : FleetState ι) : Settled G s s := ⟨fun _ h => h, fun _ h => h⟩

theorem Settled.trans (a b c : FleetState ι) (h : Settled G a b) (h' : Settled G b c) :
    Settled G a c :=
  ⟨fun k hk => h'.slot k (h.slot k hk), fun d hd => h'.dups d (h.dups d hd)⟩

end Invariant

/-! ## What a command does to it

One lemma for each command that can touch the slots, the duplicates or the responses, with what has to
be known before it; the others are calm and need nothing. -/

section Moves

variable {ι : Type} [DecidableEq ι] {G i : ι} {s s' : FleetState ι} {m : Machine} {P : Platform}

theorem put_slot (j : ι) :
    ((s.put i m).tpms j).slot = if j = i then m.tpm.slot else (s.tpms j).slot := by
  by_cases hj : j = i
  · subst hj
    simp [FleetState.put]
  · simp [FleetState.put, hj]

/-- A node's move keeps agreement if `G`'s key stays, whatever is in the node's slot is `G`'s key,
and so is whatever has been wrapped anew. -/
theorem Agreed.put (h : Agreed G s)
    (hG : ∀ k, (s.tpms G).slot = some k → ((s.put i m).tpms G).slot = some k)
    (hslot : ∀ k, m.tpm.slot = some k → ((s.put i m).tpms G).slot = some k)
    (hold : ∀ d ∈ s.ledger.dups, d ∈ m.ledger.dups)
    (hnew : ∀ d ∈ m.ledger.dups, d ∈ s.ledger.dups ∨ ((s.put i m).tpms G).slot = some d.key) :
    Agreed G (s.put i m) ∧ Settled G s (s.put i m) := by
  refine ⟨⟨?_, ?_, ?_⟩, hG, hold⟩
  · intro j k hj
    rw [put_slot] at hj
    by_cases hji : j = i
    · rw [if_pos hji] at hj
      exact hslot k hj
    · rw [if_neg hji] at hj
      exact hG k (h.slots j k hj)
  · intro d hd
    rcases hnew d hd with hd | hd
    · exact hG _ (h.dups d hd)
    · exact hd
  · intro r hr
    obtain ⟨hek, d, hd, hbytes⟩ := h.sent r hr
    exact ⟨hek, d, hold d hd, hbytes⟩

/-- The same, where nothing is wrapped. -/
theorem Agreed.put_slots (h : Agreed G s)
    (hG : ∀ k, (s.tpms G).slot = some k → ((s.put i m).tpms G).slot = some k)
    (hslot : ∀ k, m.tpm.slot = some k → ((s.put i m).tpms G).slot = some k)
    (hdups : m.ledger.dups = s.ledger.dups) : Agreed G (s.put i m) ∧ Settled G s (s.put i m) := by
  refine h.put hG hslot ?_ ?_
  · intro d hd
    rwa [hdups]
  · intro d hd
    exact .inl (hdups ▸ hd)

theorem Agreed.put_same (h : Agreed G s) (hslot : m.tpm.slot = (s.tpms i).slot)
    (hdups : m.ledger.dups = s.ledger.dups) : Agreed G (s.put i m) ∧ Settled G s (s.put i m) := by
  have hG : ((s.put i m).tpms G).slot = (s.tpms G).slot := by
    rw [put_slot]
    split
    · rename_i hGi
      rw [hGi, hslot]
    · rfl
  refine h.put_slots ?_ ?_ hdups
  · intro k hk
    rw [hG, hk]
  · intro k hk
    rw [hG]
    exact h.slots i k (hslot ▸ hk)

/-- Deleting a key on any other node than `G`. -/
theorem Agreed.put_none (h : Agreed G s) (hi : i ≠ G) (hslot : m.tpm.slot = none)
    (hledger : m.ledger = s.ledger) : Agreed G (s.put i m) ∧ Settled G s (s.put i m) := by
  refine h.put_slots ?_ ?_ (by rw [hledger])
  · intro k hk
    rw [put_slot, if_neg hi.symm, hk]
  · intro k hk
    rw [hslot] at hk
    cases hk

/-- `G`'s key replaces whatever was in a slot, on any node. -/
theorem Agreed.put_key (h : Agreed G s) {k : Public} (hk : (s.tpms G).slot = some k)
    (hslot : m.tpm.slot = some k) (hdups : m.ledger.dups = s.ledger.dups) :
    Agreed G (s.put i m) ∧ Settled G s (s.put i m) := by
  have hG : ((s.put i m).tpms G).slot = some k := by
    rw [put_slot]
    split
    · exact hslot
    · exact hk
  refine h.put_slots ?_ ?_ hdups
  · intro k' hk'
    rw [hG, ← hk, hk']
  · intro k' hk'
    rw [hG, ← hslot, hk']

/-- Filling an empty slot: `G`'s own, or another one with `G`'s key. -/
theorem Agreed.put_some (h : Agreed G s) {k : Public} (hempty : (s.tpms i).slot = none)
    (hk : i = G ∨ (s.tpms G).slot = some k) (hslot : m.tpm.slot = some k)
    (hledger : m.ledger = s.ledger) : Agreed G (s.put i m) ∧ Settled G s (s.put i m) := by
  have hdups : m.ledger.dups = s.ledger.dups := by rw [hledger]
  rcases hk with rfl | hk
  · refine h.put_slots ?_ ?_ hdups
    · intro k' hk'
      rw [hempty] at hk'
      cases hk'
    · intro k' hk'
      rw [put_slot, if_pos rfl, hk']
  · exact h.put_key hk hslot hdups

/-- Wrapping the key in a node's own slot. -/
theorem Agreed.put_dup (h : Agreed G s) {d : Duplicated} (hkey : (s.tpms i).slot = some d.key)
    (hslot : m.tpm.slot = (s.tpms i).slot) (hdups : m.ledger.dups = d :: s.ledger.dups) :
    Agreed G (s.put i m) ∧ Settled G s (s.put i m) := by
  have hGd := h.slots i _ hkey
  have hG : ((s.put i m).tpms G).slot = some d.key := by
    rw [put_slot]
    split
    · rw [hslot, hkey]
    · exact hGd
  refine h.put ?_ ?_ ?_ ?_
  · intro k hk
    rw [hG, ← hGd, hk]
  · intro k hk
    rw [hG, ← hkey, ← hslot, hk]
  · intro d' hd'
    rw [hdups]
    exact List.mem_cons_of_mem _ hd'
  · intro d' hd'
    rw [hdups] at hd'
    rcases List.mem_cons.mp hd' with rfl | hd'
    · exact .inr hG
    · exact .inl hd'

/-- Commands that move no slot, wrap no duplicate and send no response. -/
def Cmd.calm : Cmd → Prop
  | .tpm _ (.evictControl _ _) => False
  | .tpm _ (.duplicate _ _ _) => False
  | .sendResponse _ => False
  | _ => True

theorem Cmd.benign.calm {c : Cmd} (h : c.benign) : c.calm := by
  cases c with
  | tpm ctx c =>
    cases c with
    | evictControl _ _ => exact absurd h (by simp [Cmd.benign, TpmCmd.benign])
    | duplicate _ _ _ => exact absurd h (by simp [Cmd.benign, TpmCmd.benign])
    | _ => trivial
  | sendResponse _ => exact h
  | _ => trivial

/-- Only `TPM2_Duplicate` puts a duplicate on record. -/
def TpmCmd.duplicates : TpmCmd → Bool
  | .duplicate _ _ _ => true
  | _ => false

theorem Cmd.benign.dups {c : Cmd} (h : c.benign) : c.quiet TpmCmd.duplicates := by
  refine h.quiet fun c hc => ?_
  cases c with
  | duplicate _ _ _ => cases hc
  | _ => rfl

theorem nodeDevice_dups {faults : TpmCmd → Bool} {c : Cmd} (hc : c.quiet TpmCmd.duplicates)
    {m m' : Machine} {e : Choice} {r : c.Res}
    (h : nodeDevice P faults c m e = some (r, m')) : m'.ledger.dups = m.ledger.dups := by
  have hframe := nodeDevice_frame h
  cases c with
  | tpm ctx c =>
    cases c with
    | duplicate _ _ _ => cases hc
    | create _ _ _ =>
      rcases tpmStep_cases h with ⟨-, -, -, rfl⟩ | ⟨a, hp, -⟩
      · rfl
      · obtain ⟨-, -, -, -, -, -, rfl⟩ := performs_create hp
        rfl
    | «import» _ _ _ _ _ _ =>
      rcases tpmStep_cases h with ⟨-, -, -, rfl⟩ | ⟨a, hp, -⟩
      · rfl
      · obtain ⟨-, -, -, -, rfl⟩ := performs_import hp
        rfl
    | _ => rw [hframe.ledger rfl]
  | _ => rw [hframe.ledger trivial]

/-- A calm command moves no slot and leaves the duplicates alone. -/
theorem nodeDevice_calm {faults : TpmCmd → Bool} {c : Cmd} (hc : c.calm) {m m' : Machine}
    {e : Choice} {r : c.Res} (h : nodeDevice P faults c m e = some (r, m')) :
    m'.tpm.slot = m.tpm.slot ∧ m'.ledger.dups = m.ledger.dups := by
  have hquiet : c.quiet TpmCmd.movesSlot ∧ c.quiet TpmCmd.duplicates := by
    cases c with
    | tpm ctx c =>
      cases c with
      | evictControl _ _ => exact absurd hc id
      | duplicate _ _ _ => exact absurd hc id
      | _ => exact ⟨rfl, rfl⟩
    | _ => exact ⟨trivial, trivial⟩
  exact ⟨(nodeDevice_frame h).slot hquiet.1, nodeDevice_dups hquiet.2 h⟩

theorem fleetDevice_rpc {request : DuplicateRequest} {resp : DuplicateResponse} {e : Choice}
    (h : fleetDevice P i (.duplicateRpc request) s e = some (.ok resp, s')) :
    resp ∈ s.responses ∧ s' = s := by
  cases e with
  | reply answer =>
    cases answer with
    | none =>
      simp only [fleetDevice, nodeDevice] at h
      cases h
    | some r =>
      simp only [fleetDevice] at h
      split at h
      · rename_i hr
        obtain ⟨hok, rfl⟩ := Prod.mk.inj (Option.some.inj h)
        exact ⟨Except.ok.inj hok ▸ hr, rfl⟩
      · cases h
  | _ => cases h

theorem fleetDevice_calm {c : Cmd} (hc : c.calm) (hI : Agreed G s) {e : Choice} {r : c.Res}
    (h : fleetDevice P i c s e = some (r, s')) : Agreed G s' ∧ Settled G s s' := by
  have hnode : (nodeDevice P anyFault c (s.machine i) e).map (fun x => (x.1, s.put i x.2)) =
      some (r, s') → Agreed G s' ∧ Settled G s s' := by
    intro h
    obtain ⟨⟨r', m'⟩, hd, heq⟩ := Option.map_eq_some_iff.mp h
    obtain ⟨-, rfl⟩ := Prod.mk.inj heq
    obtain ⟨hslot, hdups⟩ := nodeDevice_calm hc hd
    exact hI.put_same hslot hdups
  cases c with
  | sendResponse _ => exact absurd hc id
  | duplicateRpc request =>
    rcases e with _ | _ | _ | _ | _ | ⟨_ | resp⟩
    case reply.some =>
      simp only [fleetDevice] at h
      split at h
      · obtain ⟨-, rfl⟩ := Prod.mk.inj (Option.some.inj h)
        exact ⟨hI, Settled.refl G s⟩
      · cases h
    all_goals exact hnode h
  | _ => exact hnode h

end Moves

/-! ## The programs keep it

`Safe` for each function of `fleet.rs`, in the order in which they call each other. What is needed at
the three commands that matter is carried from where it was learned: the handle `load_fleet_key` has
returned, or the response that was decoded. -/

section Programs

variable {ι : Type} [DecidableEq ι] {P : Platform} {G i : ι} {ε α β : Type}

/-- The program, run on node `i`, keeps agreement whatever the other processes do. -/
abbrev Keeps (P : Platform) (G i : ι) (p : Code α) (Q : α → FleetState ι → Prop)
    (s : FleetState ι) : Prop :=
  p.Safe (Agreed G) (Settled G) (fleetDevice P i) Q s

theorem keeps_calm {p : Code α} (hp : p.Only Cmd.calm) (s : FleetState ι) :
    Keeps P G i p (fun _ s' => Settled G s s') s :=
  ((hp.safe (fun _ _ _ _ _ hc hI h => fleetDevice_calm hc hI h) s).and_le (Settled.trans G)).mono
    fun _ _ h => h.2

/-- Sequencing after a calm program: what was known before it is known after it. -/
theorem keeps_calm_bind {x : Fallible ε α} {f : α → Fallible ε β}
    {Q : Except ε β → FleetState ι → Prop} {s : FleetState ι} (herr : ∀ e s', Q (.error e) s')
    (hx : x.run.Only Cmd.calm) (hf : ∀ a s', Settled G s s' → Keeps P G i (f a).run Q s') :
    Keeps P G i (x >>= f).run Q s := by
  refine Prog.Safe.run_bind (Settled.refl G) herr ((keeps_calm hx s).mono ?_)
  intro r s' hle a _
  exact hf a s' hle

variable [FromTss ε]

/-- A TPM command: only its being performed has to be looked at. -/
theorem keeps_tpmCall {ctx : Context} {c : TpmCmd} {Q : Except ε c.Res → FleetState ι → Prop}
    {s : FleetState ι} (herr : ∀ e s', Q (.error e) s')
    (hok : ∀ s₁, Settled G s s₁ → Agreed G s₁ → ∀ a m',
      Performs P anyFault (s₁.machine i) ctx c a m' →
        (Agreed G (s₁.put i m') ∧ Settled G s₁ (s₁.put i m')) ∧
          ∀ s₂, Settled G (s₁.put i m') s₂ → Q (.ok a) s₂) :
    Keeps P G i (tpmCall ctx c).run Q s := by
  intro s₁ hle hI e r s₂ hd
  obtain ⟨⟨r', m'⟩, hstep, heq⟩ := Option.map_eq_some_iff.mp hd
  obtain ⟨rfl, rfl⟩ := Prod.mk.inj heq
  rcases tpmStep_cases hstep with ⟨err, -, rfl, hm⟩ | ⟨a, hp, rfl⟩
  · subst hm
    rw [FleetState.put_machine]
    exact ⟨hI, Settled.refl G _, fun _ _ _ => herr _ _⟩
  · obtain ⟨⟨hI', hle'⟩, hQ⟩ := hok s₁ hle hI a m' hp
    exact ⟨hI', hle', fun s₃ h₃ _ => hQ s₃ h₃⟩

/-- The null-auth session is calm, so the closure is what matters. -/
theorem keeps_nullauth {ctx : Context} {f : Context → Fallible ε α}
    {Q : Except ε α → FleetState ι → Prop} {s : FleetState ι} (herr : ∀ e s', Q (.error e) s')
    (hlater : ∀ r s₁ s₂, Settled G s₁ s₂ → Q r s₁ → Q r s₂)
    (hbody : ∀ ctx' s', Settled G s s' → Keeps P G i (f ctx').run Q s') :
    Keeps P G i (ctx.executeWithNullauthSession f).run Q s := by
  unfold Context.executeWithNullauthSession
  refine keeps_calm_bind herr ⟨trivial, fun _ => trivial⟩ ?_
  intro session s₁ h₁
  cases session with
  | none => exact fun _ _ _ => herr _ _
  | some session =>
    refine keeps_calm_bind herr ⟨trivial, fun _ => trivial⟩ fun _ s₂ h₂ => ?_
    refine Prog.Safe.run_bind (Settled.refl G) herr ?_
    refine Prog.Safe.bind (Settled.refl G)
      ((hbody _ s₂ (Settled.trans G _ _ _ h₁ h₂)).mono ?_)
    intro res s₃ hres s₄ h₄ _ a ha
    obtain rfl := Except.ok.inj ha
    refine keeps_calm_bind herr ⟨trivial, fun _ => trivial⟩ ?_
    intro _ s₅ h₅ s₆ h₆ _
    exact hlater _ _ _ (Settled.trans G _ _ _ h₄ (Settled.trans G _ _ _ h₅ h₆)) hres

/-- Evicting a persistent key, on another node than `G`. -/
theorem keeps_evict_persistent (hi : i ≠ G) {ctx : Context} {k : Public}
    {ph : PersistentTpmHandle} (s : FleetState ι) :
    Keeps P G i (tpmCall (ε := ε) ctx (.evictControl (.persistent k) ph)).run
      (fun _ _ => True) s := by
  refine keeps_tpmCall (fun _ _ => trivial) fun s₁ _ hI a m' hp => ⟨?_, fun _ _ => trivial⟩
  obtain ⟨-, -, -, -, rfl⟩ := performs_evict_persistent.mp hp
  exact hI.put_none hi rfl rfl

/-- Persisting a transient key: on `G` any, elsewhere only `G`'s. -/
theorem keeps_evict_transient {ctx : Context} {id : Nat} {obj : Obj}
    {ph : PersistentTpmHandle} {s : FleetState ι}
    (hkey : i = G ∨ (s.tpms G).slot = some obj.pub) :
    Keeps P G i (tpmCall (ε := ε) ctx (.evictControl (.transient id obj) ph)).run
      (fun _ _ => True) s := by
  refine keeps_tpmCall (fun _ _ => trivial) fun s₁ hle hI a m' hp => ⟨?_, fun _ _ => trivial⟩
  obtain ⟨-, -, -, -, hempty, -, rfl⟩ := performs_evict_transient.mp hp
  exact hI.put_some hempty (hkey.imp_right (hle.slot _)) rfl rfl

theorem keeps_persistentHandle {f : PersistentTpmHandle → Fallible FleetError α}
    {Q : Except FleetError α → FleetState ι → Prop} {s : FleetState ι}
    (h : ∀ ph, Keeps P G i (f ph).run Q s) : Keeps P G i (Fleet.persistentHandle >>= f).run Q s :=
  h _

namespace Fleet

variable {context : Context}

theorem persist_keeps {id : Nat} {obj : Obj} {s : FleetState ι}
    (hkey : i = G ∨ (s.tpms G).slot = some obj.pub) :
    Keeps P G i (persist context (.transient id obj)).run (fun _ _ => True) s := by
  refine keeps_persistentHandle fun ph => ?_
  refine keeps_nullauth (fun _ _ => trivial) (fun _ _ _ _ _ => trivial) fun ctx s' hle => ?_
  exact keeps_evict_transient (hkey.imp_right (hle.slot _))

/-- The handle `load_fleet_key` returns is a persistent one. -/
theorem loadFleetKey_keeps (s : FleetState ι) :
    Keeps P G i (loadFleetKey context).run
      (fun r _ => ∀ h, r = .ok h → ∃ k, h = .persistent k) s := by
  refine keeps_persistentHandle fun ph => ?_
  refine keeps_nullauth (by simp) (fun _ _ _ _ h => h) fun ctx s' _ => ?_
  refine keeps_tpmCall (by simp) fun s₁ _ hI a m' hp => ?_
  obtain ⟨-, ⟨k, -, rfl⟩, rfl⟩ := performs_trFromTpmPublic.mp hp
  refine ⟨?_, fun s₂ _ h heq => ⟨k, (Except.ok.inj heq).symm⟩⟩
  rw [FleetState.put_machine]
  exact ⟨hI, Settled.refl G _⟩

theorem deletePersistedFleetKey_keeps (hi : i ≠ G) (s : FleetState ι) :
    Keeps P G i (deletePersistedFleetKey context).run (fun _ _ => True) s := by
  unfold deletePersistedFleetKey
  refine Prog.Safe.run_bind (Settled.refl G) (fun _ _ => trivial) ?_
  refine Prog.Safe.bind (Settled.refl G) ((loadFleetKey_keeps s).mono ?_)
  intro r s₁ hr s₂ _ _ found hfound
  obtain rfl := Except.ok.inj hfound
  cases r with
  | error e => exact fun _ _ _ => trivial
  | ok existing =>
    obtain ⟨k, rfl⟩ := hr existing rfl
    refine keeps_persistentHandle fun ph => ?_
    refine Prog.Safe.run_bind (Settled.refl G) (fun _ _ => trivial) ?_
    have hevict : Keeps P G i (context.executeWithNullauthSession fun ctx =>
        ctx.evictControl (.persistent k) ph : Fallible FleetError Handle).run (fun _ _ => True) s₂ :=
      keeps_nullauth (fun _ _ => trivial) (fun _ _ _ _ _ => trivial)
        fun ctx s' _ => keeps_evict_persistent hi s'
    refine hevict.mono ?_
    exact fun _ _ _ _ _ _ _ _ => trivial

/-- On `G` a new key may be persisted: the slot it goes into is empty. -/
theorem createAndPersist_keeps (s : FleetState ι) :
    Keeps P G G (createAndPersist context).run (fun _ _ => True) s := by
  unfold createAndPersist
  refine keeps_calm_bind (fun _ _ => trivial)
    (duplicableStoragePublic_only (fun _ => Cmd.benign.calm) context) fun template s₁ _ => ?_
  have hcreate : Keeps P G G (context.executeWithNullauthSession fun ctx =>
      ctx.createPrimary template : Fallible FleetError Handle).run
      (fun r _ => ∀ h, r = .ok h → ∃ id obj, h = .transient id obj) s₁ := by
    refine keeps_nullauth (by simp) (fun _ _ _ _ h => h) fun ctx s' _ => ?_
    refine keeps_tpmCall (by simp) fun s₂ _ hI a m' hp => ?_
    obtain ⟨-, unique, -, rfl, rfl⟩ := performs_createPrimary.mp hp
    exact ⟨hI.put_same rfl rfl, fun _ _ h heq => ⟨_, _, (Except.ok.inj heq).symm⟩⟩
  refine Prog.Safe.run_bind (Settled.refl G) (fun _ _ => trivial) (hcreate.mono ?_)
  intro r s₂ hr created hcreated
  obtain ⟨id, obj, rfl⟩ := hr created hcreated
  exact persist_keeps (.inl rfl)

/-- Genesis that is not forced: a probe that fails spuriously leads to a new key, but not into an
occupied slot. -/
theorem createFleetKey_keeps (s : FleetState ι) :
    Keeps P G G (createFleetKey context false).run (fun _ _ => True) s := by
  unfold createFleetKey
  refine keeps_calm_bind (fun _ _ => trivial)
    (Prog.Only.bind (loadFleetKey_only (fun _ => Cmd.benign.calm) context) fun _ => trivial) ?_
  intro found s₁ _
  cases found with
  | ok existing => exact fun _ _ _ => trivial
  | error e => exact createAndPersist_keeps s₁

/-- The wrapped key is on record. -/
def Recorded (encryptionKey : Data) (priv : Private) (secret : EncryptedSecret)
    (s : FleetState ι) : Prop :=
  ∃ d ∈ s.ledger.dups, d.encryptionKey = encryptionKey ∧ d.priv = priv ∧ d.secret = secret

omit [DecidableEq ι] in
theorem Recorded.later {ek : Data} {priv : Private} {secret : EncryptedSecret}
    {s s' : FleetState ι} (hle : Settled G s s') (h : Recorded ek priv secret s) :
    Recorded ek priv secret s' := by
  obtain ⟨d, hd, hbytes⟩ := h
  exact ⟨d, hle.dups d hd, hbytes⟩

omit [DecidableEq ι] in
/-- A wrapped key that is on record can only be imported as `G`'s key. -/
theorem Recorded.slot {ek : Data} {priv : Private} {secret : EncryptedSecret} {s : FleetState ι}
    (h : Recorded ek priv secret s) (hI : Agreed G s) {pub : Public}
    (himport : ∀ d, s.ledger.findDup (some ek) priv secret = some d → d.key = pub) :
    (s.tpms G).slot = some pub := by
  obtain ⟨d, hd, rfl, rfl, rfl⟩ := h
  have hfound : (s.ledger.findDup (some d.encryptionKey) d.priv d.secret).isSome := by
    unfold Ledger.findDup
    exact List.find?_isSome.mpr ⟨d, hd, by simp⟩
  obtain ⟨d', hd'⟩ := Option.isSome_iff_exists.mp hfound
  rw [← himport d' hd']
  exact hI.dups d' (Ledger.findDup_eq hd').1

theorem duplicateForJoiner_keeps {pub joinerPublic : Public} (s : FleetState ι) :
    Keeps P G i (duplicateForJoiner context (.persistent pub) joinerPublic).run
      (fun r s' => ∀ blob, r = .ok blob → ∃ ek, blob.encryptionKey = some ek ∧
        Recorded ek blob.duplicatePrivate blob.encryptedSecret s') s := by
  have hbenign : ∀ c : Cmd, c.benign → c.calm := fun _ => Cmd.benign.calm
  unfold duplicateForJoiner
  refine keeps_calm_bind (by simp)
    (only_nullauth_benign hbenign fun _ => only_benign hbenign rfl) fun fleetKeyPublic s₁ _ => ?_
  refine keeps_calm_bind (by simp) (only_benign hbenign rfl) fun external s₂ _ => ?_
  refine keeps_calm_bind (by simp) (duplicationAuthPolicySession_only hbenign context) ?_
  intro session s₃ _
  refine Prog.Safe.run_bind (Settled.refl G) (by simp) ?_
  have hdup : ∀ ctx, Keeps P G i
      (tpmCall (ε := FleetError) ctx (.duplicate (.persistent pub) external
        duplicationSymmetricAlg)).run
      (fun r s' => ∀ x, r = .ok x → Recorded x.1 x.2.1 x.2.2 s') s₃ := by
    intro ctx
    refine keeps_tpmCall (by simp) fun s₄ _ hI a m' hp => ?_
    obtain ⟨pub', t, hobj, -, -, rfl⟩ := performs_duplicate hp
    have hslot : (s₄.tpms i).slot = some pub' := by
      simp only [Machine.resolve] at hobj
      split at hobj
      · rename_i h
        cases hobj
        exact h
      · cases hobj
    refine ⟨hI.put_dup (d := ⟨pub', t.pub, a.1, a.2.1, a.2.2⟩) hslot rfl rfl, ?_⟩
    intro s₅ h₅ x hx
    obtain rfl := Except.ok.inj hx
    exact ⟨_, h₅.dups _ (List.mem_cons_self ..), rfl, rfl, rfl⟩
  refine Prog.Safe.bind (Settled.refl G) ((hdup _).mono ?_)
  intro result s₄ hrec s₅ h₅ _ result' hresult
  obtain rfl := Except.ok.inj hresult
  refine keeps_calm_bind (by simp) (only_benign hbenign rfl) fun _ s₆ h₆ => ?_
  refine keeps_calm_bind (by simp) (Prog.Only.bind (only_tpmCall trivial) fun _ => trivial) ?_
  intro _ s₇ h₇
  cases result with
  | error e => exact fun _ _ _ _ h => by cases h
  | ok x =>
    intro s₈ h₈ _ blob hblob
    obtain rfl := Except.ok.inj hblob
    exact ⟨x.1, rfl, ((((hrec x rfl).later h₅).later h₆).later h₇).later h₈⟩

theorem importAndLoad_keeps {ctx : Context} {h : Handle} {blob : DuplicationBlob} {ek : Data}
    {s : FleetState ι} (hek : blob.encryptionKey = some ek)
    (hrec : Recorded ek blob.duplicatePrivate blob.encryptedSecret s) :
    Keeps P G i (importAndLoad ctx h blob).run
      (fun r s' => ∀ key, r = .ok key → ∃ id obj, key = .transient id obj ∧
        (s'.tpms G).slot = some obj.pub) s := by
  unfold importAndLoad
  have himport : Keeps P G i (ctx.import (ε := FleetError) h blob.encryptionKey
      blob.fleetKeyPublic blob.duplicatePrivate blob.encryptedSecret duplicationSymmetricAlg).run
      (fun r s' => ∀ priv, r = .ok priv → (s'.tpms G).slot = some blob.fleetKeyPublic) s := by
    refine keeps_tpmCall (by simp) fun s₁ h₁ hI a m' hp => ?_
    obtain ⟨t, -, hd, -, rfl⟩ := performs_import hp
    have hkey : (s₁.tpms G).slot = some blob.fleetKeyPublic := by
      refine (hrec.later h₁).slot hI fun d hfound => ?_
      rw [← hek] at hfound
      exact (hd d hfound).2
    have hput := hI.put_same (i := i) (m := { s₁.machine i with ledger := { s₁.ledger with
      objects := ⟨t, blob.fleetKeyPublic, a, .key⟩ :: s₁.ledger.objects } }) rfl rfl
    exact ⟨hput, fun s₂ h₂ _ _ => h₂.slot _ (hput.2.slot _ hkey)⟩
  refine Prog.Safe.run_bind (Settled.refl G) (by simp) (himport.mono ?_)
  intro r s₁ hr priv hpriv
  have hkey := hr priv hpriv
  refine keeps_tpmCall (by simp) fun s₂ h₂ hI a m' hp => ?_
  obtain ⟨-, t, o, -, ho, rfl, rfl⟩ := performs_load.mp hp
  have hput := hI.put_same (i := i) (m := { s₂.machine i with
    tpm := (s₂.tpms i).addObject ctx.id o.load }) rfl rfl
  refine ⟨hput, fun s₃ h₃ key heq => ⟨_, _, (Except.ok.inj heq).symm, ?_⟩⟩
  rw [o.load_pub, (Ledger.findObject_eq ho).2.2.1]
  exact h₃.slot _ (hput.2.slot _ (h₂.slot _ hkey))

theorem importAndPersist_keeps (hi : i ≠ G) {h : Handle} {blob : DuplicationBlob} {ek : Data}
    {s : FleetState ι} (hek : blob.encryptionKey = some ek)
    (hrec : Recorded ek blob.duplicatePrivate blob.encryptedSecret s) :
    Keeps P G i (importAndPersist context h blob).run (fun _ _ => True) s := by
  have hbenign : ∀ c : Cmd, c.benign → c.calm := fun _ => Cmd.benign.calm
  unfold importAndPersist
  refine keeps_calm_bind (fun _ _ => trivial) (startSession_only hbenign context _) ?_
  intro session s₁ h₁
  refine Prog.Safe.run_bind (Settled.refl G) (fun _ _ => trivial) ?_
  refine Prog.Safe.bind (Settled.refl G) ((importAndLoad_keeps hek (hrec.later h₁)).mono ?_)
  intro result s₂ hres s₃ h₃ _ result' hresult
  obtain rfl := Except.ok.inj hresult
  refine keeps_calm_bind (fun _ _ => trivial) (only_benign hbenign rfl) fun _ s₄ h₄ => ?_
  cases result with
  | error e => exact fun _ _ _ => trivial
  | ok key =>
    obtain ⟨id, obj, rfl, hkey⟩ := hres key rfl
    show Keeps P G i (deletePersistedFleetKey context >>= _ : Fallible FleetError Handle).run _ s₄
    -- deleting the node's own key takes a while, but `G`'s key does not go away
    refine Prog.Safe.run_bind (Settled.refl G) (fun _ _ => trivial)
      (((deletePersistedFleetKey_keeps hi s₄).and_le (Settled.trans G)).mono ?_)
    intro _ s₅ h₅ _ _
    have hkey₅ := h₅.2.slot _ (h₄.slot _ (h₃.slot _ hkey))
    refine Prog.Safe.run_bind (Settled.refl G) (fun _ _ => trivial)
      ((persist_keeps (.inr hkey₅)).mono ?_)
    intro _ s₆ _ persisted _
    refine keeps_calm_bind (fun _ _ => trivial)
      (only_nullauth_benign hbenign fun _ => only_tpmCall trivial) ?_
    exact fun _ _ _ _ _ _ => trivial

end Fleet

/-! ## The processes

The same for what runs on a node as a whole. Only genesis on `G`, a join elsewhere and the handlers of
an enroll window have anything to show. -/

theorem runGenesis_keeps (s : FleetState ι) :
    Keeps P G G (runGenesis false).run (fun _ _ => True) s := by
  unfold runGenesis
  refine keeps_calm_bind (fun _ _ => trivial)
    (Prog.Only.mapErr (only_contextNew fun _ => Cmd.benign.calm)) fun context s₁ _ => ?_
  refine Prog.Safe.run_bind (Settled.refl G) (fun _ _ => trivial) ?_
  have hcreate : Keeps P G G (withContext "creating fleet sealing key"
      (ofFleet (Fleet.createFleetKey context false))).run (fun _ _ => True) s₁ := by
    refine Prog.Safe.bind (Settled.refl G) (Prog.Safe.bind (Settled.refl G)
      ((Fleet.createFleetKey_keeps s₁).mono ?_))
    exact fun _ _ _ _ _ _ _ _ _ => trivial
  refine hcreate.mono ?_
  exact fun _ _ _ _ _ _ _ _ => trivial

/-- What a response to a wrapped key on record looks like. -/
theorem response_keeps {blob : DuplicationBlob} {ek : Data} {s : FleetState ι}
    (hek : blob.encryptionKey = some ek)
    (hrec : Fleet.Recorded ek blob.duplicatePrivate blob.encryptedSecret s) :
    Keeps P G i (EnrollService.response P blob).run
      (fun r s' => ∀ resp, r = .ok resp → FromLedger s'.ledger resp) s := by
  unfold EnrollService.response
  split
  · exact fun _ _ _ _ h => by cases h
  · intro s₁ h₁ _ resp hresp
    obtain rfl := Except.ok.inj hresp
    obtain ⟨d, hd, rfl, hpriv, hsecret⟩ := hrec.later h₁
    refine ⟨by simp [hek], d, hd, by simp [hek], by rw [hpriv], by rw [hsecret]⟩

theorem lockedDuplicate_keeps {service : EnrollService} {pub joinerPublic : Public}
    (hpub : service.fleetKeyHandle = .persistent pub) (s : FleetState ι) :
    Keeps P G i (service.lockedDuplicate joinerPublic).run
      (fun r s' => ∀ blob, r = .ok blob → ∃ ek, blob.encryptionKey = some ek ∧
        Fleet.Recorded ek blob.duplicatePrivate blob.encryptedSecret s') s := by
  unfold EnrollService.lockedDuplicate
  refine keeps_calm_bind (by simp) ⟨trivial, fun _ => trivial⟩ fun locked s₁ _ => ?_
  cases locked with
  | error => exact fun _ _ _ _ h => by cases h
  | ok =>
    refine Prog.Safe.run_bind (Settled.refl G) (by simp) ?_
    rw [hpub]
    refine Prog.Safe.bind (Settled.refl G) ((Fleet.duplicateForJoiner_keeps s₁).mono ?_)
    intro blob s₂ hblob s₃ h₃ _ blob' heq
    obtain rfl := Except.ok.inj heq
    refine keeps_calm_bind (by simp) ⟨trivial, fun _ => trivial⟩ fun _ s₄ h₄ => ?_
    cases blob with
    | error e => exact fun _ _ _ _ h => by cases h
    | ok blob =>
      intro s₅ h₅ _ blob' hok
      obtain rfl := Except.ok.inj hok
      obtain ⟨ek, hek, hrec⟩ := hblob blob rfl
      exact ⟨ek, hek, ((hrec.later h₃).later h₄).later h₅⟩

theorem handleDuplicate_keeps {service : EnrollService} {pub : Public} {request : Request}
    (hpub : service.fleetKeyHandle = .persistent pub) (s : FleetState ι) :
    Keeps P G i (service.handleDuplicate P request).run
      (fun r s' => ∀ resp, r = .ok resp → FromLedger s'.ledger resp) s := by
  rw [handleDuplicate_eq]
  split
  · exact fun _ _ _ _ h => by cases h
  · intro s₁ _ hI e r s₂ hd
    obtain ⟨hI₂, h₂⟩ := fleetDevice_calm (c := .getNode _) trivial hI hd
    refine ⟨hI₂, h₂, ?_⟩
    cases r with
    | error => exact fun _ _ _ _ h => by cases h
    | ok =>
      dsimp only
      unfold EnrollService.serveDuplicate
      split
      · exact fun _ _ _ _ h => by cases h
      · refine Prog.Safe.run_bind (Settled.refl G) (by simp) ((lockedDuplicate_keeps hpub s₂).mono ?_)
        intro r s₃ hr blob hblob
        obtain ⟨ek, hek, hrec⟩ := hr blob hblob
        exact response_keeps hek hrec

omit [DecidableEq ι] in
theorem FromLedger.later {s s' : FleetState ι} {r : DuplicateResponse} (hle : Settled G s s')
    (h : FromLedger s.ledger r) : FromLedger s'.ledger r := by
  obtain ⟨hek, d, hd, hbytes⟩ := h
  exact ⟨hek, d, hle.dups d hd, hbytes⟩

theorem sendAnswer_keeps {answer : Answer} {s : FleetState ι}
    (hanswer : ∀ resp, answer = .ok resp → FromLedger s.ledger resp) :
    Keeps P G i (sendAnswer answer) (fun _ _ => True) s := by
  cases answer with
  | error st => exact fun _ _ _ => trivial
  | ok resp =>
    intro s₁ h₁ hI e r s₂ hd
    cases e with
    | io b =>
      obtain ⟨-, rfl⟩ := Prod.mk.inj (Option.some.inj hd)
      refine ⟨⟨hI.slots, hI.dups, ?_⟩, ⟨fun _ h => h, fun _ h => h⟩, fun _ _ _ => trivial⟩
      have hresp := (hanswer resp rfl).later h₁
      intro r' hr'
      rcases List.mem_cons.mp hr' with rfl | hr'
      · exact hresp
      · exact hI.sent r' hr'
    | _ => cases hd

theorem settle_keeps {last : Bool} {answer : Answer} (s : FleetState ι) :
    Keeps P G i (EnrollService.settle last answer) (fun r s' => r = answer ∧ Settled G s s') s := by
  refine Prog.Safe.and_le (Settled.trans G) ?_
  cases answer with
  | error st =>
    intro s₁ _ hI e r s₂ hd
    obtain ⟨hI₂, h₂⟩ := fleetDevice_calm (c := .fetchAdd) trivial hI hd
    exact ⟨hI₂, h₂, fun _ _ _ => rfl⟩
  | ok resp =>
    rw [settle_ok]
    split
    · intro s₁ _ hI e r s₂ hd
      obtain ⟨hI₂, h₂⟩ := fleetDevice_calm (c := .notifyOne) trivial hI hd
      exact ⟨hI₂, h₂, fun _ _ _ => rfl⟩
    · exact fun _ _ _ => rfl

/-- A handler's answer is on record. -/
theorem answer_keeps {service : EnrollService} {pub : Public} {request : Request}
    (hpub : service.fleetKeyHandle = .persistent pub) (s : FleetState ι) :
    Keeps P G i (service.duplicate P request)
      (fun r s' => ∀ resp, r = .ok resp → FromLedger s'.ledger resp) s := by
  rw [duplicate_eq]
  intro s₁ _ hI e n s₂ hd
  obtain ⟨hI₂, h₂⟩ := fleetDevice_calm (c := .fetchSub) trivial hI hd
  refine ⟨hI₂, h₂, ?_⟩
  dsimp only
  by_cases hn : n = 0
  · rw [if_pos hn]
    intro s₃ _ hI₃ e r s₄ hd₄
    obtain ⟨hI₄, h₄⟩ := fleetDevice_calm (c := .fetchAdd) trivial hI₃ hd₄
    exact ⟨hI₄, h₄, fun _ _ _ _ h => by cases h⟩
  · rw [if_neg hn]
    refine Prog.Safe.bind (Settled.refl G) ((handleDuplicate_keeps hpub s₂).mono ?_)
    intro answer s₃ hanswer
    refine (settle_keeps s₃).mono ?_
    intro answer' s₄ h resp hresp
    obtain ⟨rfl, h₄⟩ := h
    exact (hanswer resp hresp).later h₄

theorem duplicate_keeps {service : EnrollService} {pub : Public} {request : Request}
    (hpub : service.fleetKeyHandle = .persistent pub) (s : FleetState ι) :
    Keeps P G i ((service.duplicate P request).bind sendAnswer) (fun _ _ => True) s :=
  Prog.Safe.bind (Settled.refl G) ((answer_keeps hpub s).mono fun _ _ h => sendAnswer_keeps h)

omit [DecidableEq ι] in
/-- What a response on record decodes to is on record. -/
theorem FromLedger.recorded {resp : DuplicateResponse} {s : FleetState ι} {blob : DuplicationBlob}
    (h : FromLedger s.ledger resp) (hdec : decodeResponse P resp = .ok blob) :
    ∃ ek, blob.encryptionKey = some ek ∧
      Fleet.Recorded ek blob.duplicatePrivate blob.encryptedSecret s := by
  obtain ⟨-, hpriv, hsecret, hek⟩ := decodeResponse_eq hdec
  obtain ⟨hhas, d, hd, hdata, hdpriv, hdsecret⟩ := h
  rw [if_pos hhas] at hek
  refine ⟨⟨resp.encryptionKey⟩, hek, d, hd, ?_, ?_, ?_⟩
  · rw [← hdata]
  · rw [hpriv, ← hdpriv]
  · rw [hsecret, ← hdsecret]

theorem joinFinish_keeps (hi : i ≠ G) {join : PendingJoin} {resp : DuplicateResponse}
    {s : FleetState ι} (hresp : FromLedger s.ledger resp) :
    Keeps P G i (joinFinish P join resp).run (fun _ _ => True) s := by
  unfold joinFinish
  cases hdec : decodeResponse P resp with
  | error e => exact fun _ _ _ => trivial
  | ok blob =>
    obtain ⟨ek, hek, hrec⟩ := hresp.recorded hdec
    show Keeps P G i (Prog.mapErr JoinError.fleet
      (Fleet.importAndPersist join.context join.transportHandle blob) >>= _ :
        Fallible JoinError Unit).run _ s
    refine Prog.Safe.run_bind (Settled.refl G) (fun _ _ => trivial) ?_
    refine Prog.Safe.bind (Settled.refl G) ((Fleet.importAndPersist_keeps hi hek hrec).mono ?_)
    exact fun _ _ _ _ _ _ _ _ _ _ _ => trivial

/-- A join imports a response that was sent, whichever. -/
theorem runJoin_keeps (hi : i ≠ G) (seed k0sDataDir : String) (s : FleetState ι) :
    Keeps P G i (runJoin P seed k0sDataDir).run (fun _ _ => True) s := by
  unfold runJoin
  refine keeps_calm_bind (fun _ _ => trivial) (joinRequest_only (fun _ => Cmd.benign.calm) P seed
    k0sDataDir (fun _ => trivial) fun _ => trivial) fun join s₁ _ => ?_
  show Keeps P G i (.call (.duplicateRpc join.request) _) _ s₁
  intro s₂ _ hI e r s₃ hd
  obtain ⟨hI₃, h₃⟩ := fleetDevice_calm (c := .duplicateRpc join.request) trivial hI hd
  refine ⟨hI₃, h₃, ?_⟩
  cases r with
  | error => exact fun _ _ _ => trivial
  | ok resp =>
    obtain ⟨hmem, rfl⟩ := fleetDevice_rpc hd
    exact joinFinish_keeps hi (hI.sent resp hmem)

/-- **Every permitted process keeps agreement**, from whatever state it is started in. -/
theorem program_keeps {p : ι × Program} (hp : Permitted G p) (s : FleetState ι) :
    Keeps P G p.1 (p.2.code P) (fun _ _ => True) s := by
  have hbenign : ∀ c : Cmd, c.benign → c.calm := fun _ => Cmd.benign.calm
  have hcalm : ∀ {q : Code Unit}, q.Only Cmd.calm → Keeps P G p.1 q (fun _ _ => True) s :=
    fun hq => (keeps_calm hq s).mono fun _ _ _ => trivial
  obtain ⟨i, program⟩ := p
  cases program with
  | genesis force =>
    obtain ⟨rfl, rfl⟩ := hp
    refine Prog.Safe.bind (Settled.refl _) ((runGenesis_keeps s).mono ?_)
    exact fun _ _ _ _ _ _ => trivial
  | join seed k0sDataDir =>
    refine Prog.Safe.bind (Settled.refl _) ((runJoin_keeps hp seed k0sDataDir s).mono ?_)
    exact fun _ _ _ _ _ _ => trivial
  | duplicate service request =>
    obtain ⟨pub, hpub⟩ := hp
    exact duplicate_keeps hpub s
  | enroll => exact hcalm (Prog.Only.bind (runEnroll_only hbenign) fun _ => trivial)
  | serve forceLegacy =>
    exact hcalm (Prog.Only.bind (runServe_only hbenign P forceLegacy) fun _ => trivial)
  | encrypt service plaintext =>
    exact hcalm (Prog.Only.bind (KmsService.encrypt_only hbenign P service plaintext
      fun _ => trivial) fun _ => trivial)
  | decrypt service keyId ciphertext =>
    exact hcalm (Prog.Only.bind (KmsService.decrypt_only hbenign P service keyId ciphertext
      fun _ _ => trivial) fun _ => trivial)
  | stop service => exact hcalm (KmsService.drop_only hbenign service (fun _ => trivial)
    fun _ _ _ => trivial)
  | status => exact hcalm (Prog.Only.bind (runStatus_only hbenign P) fun _ => trivial)

end Programs

/-! ## The result

From the programs to any number of them at once, by the rule for pools; then from the first state on,
where all slots are empty and nothing has been sent. -/

section Result

variable {ι : Type} [DecidableEq ι]

abbrev FleetPool (ι : Type) := Pool (ι × Program) Cmd Cmd.Res (FleetState ι) Unit
abbrev FleetAct (ι : Type) := Act (ι × Program) Choice Unit

/-- Nothing runs, and nothing has been sent. -/
def FleetPool.start (tpms : ι → Tpm) : FleetPool ι := { shared := { tpms } }

/-- Safety of the whole fleet, from any state in which it holds. -/
theorem fleet_safe {P : Platform} {G : ι} {s₀ : FleetState ι} {pool₀ pool : FleetPool ι}
    {acts : List (FleetAct ι)}
    (h₀ : SafePool (fleetSystem P) (Agreed G) (Settled G) (fun _ _ _ => True) s₀ pool₀)
    (hg : Along (fleetSystem P).step (SpawnOnly (Permitted G)) pool₀ acts)
    (hr : runs (fleetSystem P).step pool₀ acts = some pool) :
    SafePool (fleetSystem P) (Agreed G) (Settled G) (fun _ _ _ => True) s₀ pool := by
  refine runs_safe (Settled.refl G) (Settled.trans G) (fun p s hp => program_keeps hp s) ?_ h₀ hg hr
  intro s x s' hI h
  obtain rfl := Option.some.inj h
  exact ⟨hI, Settled.refl G s⟩

/-- **Fleet-key agreement under faults.** From empty slots, in every reachable state all occupied
slots hold the same key, and `G`'s slot, once occupied, holds its key ever after. -/
theorem fleet_agreement (P : Platform) (G : ι) (tpms : ι → Tpm)
    (hempty : ∀ i, (tpms i).slot = none) (acts acts' : List (FleetAct ι))
    (pool pool' : FleetPool ι)
    (hg : Along (fleetSystem P).step (SpawnOnly (Permitted G)) (FleetPool.start tpms)
      (acts ++ acts'))
    (hr : runs (fleetSystem P).step (FleetPool.start tpms) acts = some pool)
    (hr' : runs (fleetSystem P).step pool acts' = some pool') :
    (∀ i j k k', (pool'.shared.tpms i).slot = some k → (pool'.shared.tpms j).slot = some k' →
      k = k') ∧
    ∀ k, (pool.shared.tpms G).slot = some k → (pool'.shared.tpms G).slot = some k := by
  have hinit : Agreed G ({ tpms } : FleetState ι) := by
    refine ⟨?_, by simp, by simp⟩
    intro i k hk
    rw [hempty i] at hk
    cases hk
  obtain ⟨hleft, hright⟩ := along_append hg
  have hpool := fleet_safe (SafePool.start (Settled.refl G) hinit) hleft hr
  have hpool' := fleet_safe (hpool.rebase (Settled.refl G)) (hright pool hr) hr'
  refine ⟨?_, hpool'.moved.slot⟩
  intro i j k k' hi hj
  have hk := hpool'.inv.slots i k hi
  rw [hpool'.inv.slots j k' hj] at hk
  exact (Option.some.inj hk).symm

end Result

/-! Two nodes: `true` runs genesis, `false` joins, its request being answered in between. -/

instance (G : Bool) : DecidablePred (Permitted G) := by
  intro p
  obtain ⟨i, program⟩ := p
  cases program with
  | genesis force => exact inferInstanceAs (Decidable (i = G ∧ force = false))
  | join seed k0sDataDir => exact inferInstanceAs (Decidable (i ≠ G))
  | duplicate service request =>
    cases h : service.fleetKeyHandle with
    | persistent pub => exact .isTrue ⟨pub, h⟩
    | transient id obj => exact .isFalse fun ⟨_, h'⟩ => by rw [h] at h'; cases h'
    | session s => exact .isFalse fun ⟨_, h'⟩ => by rw [h] at h'; cases h'
  | _ => exact .isTrue trivial

instance (G : Bool) (pool : FleetPool Bool) (act : FleetAct Bool) :
    Decidable (SpawnOnly (Permitted G) pool act) := by
  cases act with
  | spawn p => exact inferInstanceAs (Decidable (Permitted G p))
  | _ => exact .isTrue trivial

def stepping (i : Nat) (answers : List Choice) : List (FleetAct Bool) := answers.map (.step i)

/-- Genesis on an empty slot: the probe for an existing key fails, the rest succeeds. -/
def genesisActs : List (FleetAct Bool) :=
  .spawn (true, .genesis false) :: stepping 0 (List.replicate 3 (performed 5) ++
    .fail (.rc 0x18b) :: List.replicate 14 (performed 5))

def seedResponse : DuplicateResponse where
  fleetKeyPublic := [3, 5]
  duplicatePrivate := [7]
  encryptedSecret := [7]
  hasEncryptionKey := true
  encryptionKey := [7]

/-- A join up to its request, the handler that answers it, and the rest of the join. -/
def enrollmentActs : List (FleetAct Bool) :=
  .spawn (false, .join "seed" "/var/lib/k0s") :: stepping 1 (List.replicate 14 (performed 9) ++
    [.file (some []), .file (some []), .io true]) ++
  .spawn (true, .duplicate { context := { id := 40 }, fleetKeyHandle := .persistent someFleetKey }
    memberRequest) :: stepping 2 ([.counter 1, .io true, .io true] ++
    List.replicate 11 (performed 7) ++ [.io true, .io true, .io true]) ++
  stepping 1 (.reply (some seedResponse) :: List.replicate 7 (performed 11) ++
    .fail (.rc 0x18b) :: List.replicate 9 (performed 11))

def twoNodes : FleetPool Bool := FleetPool.start fun _ => { ownerSeed := fun _ => none }

/-- Both slots end up with the key of the genesis. -/
theorem fleet_agreement_of_two :
    ∃ pool pool' : FleetPool Bool,
      runs (fleetSystem .plain).step twoNodes genesisActs = some pool ∧
      runs (fleetSystem .plain).step pool enrollmentActs = some pool' ∧
      (pool.shared.tpms true).slot = some someFleetKey ∧
      (pool'.shared.tpms true).slot = some someFleetKey ∧
      (pool'.shared.tpms false).slot = some someFleetKey := by
  have hgen : (runs (fleetSystem .plain).step twoNodes genesisActs).map
      (fun pool => (pool.shared.tpms true).slot) = some (some someFleetKey) := by
    decide
  have hall : (runs (fleetSystem .plain).step twoNodes (genesisActs ++ enrollmentActs)).map
      (fun pool => (pool.shared.tpms false).slot.isSome) = some true := by
    decide
  have hg : Along (fleetSystem .plain).step (SpawnOnly (Permitted true)) twoNodes
      (genesisActs ++ enrollmentActs) := by decide
  obtain ⟨pool, hr, hslot⟩ := Option.map_eq_some_iff.mp hgen
  obtain ⟨pool', hboth, hjoined⟩ := Option.map_eq_some_iff.mp hall
  obtain ⟨pool₁, hr₁, hr'⟩ := runs_append.mp hboth
  obtain rfl := Option.some.inj (hr.symm.trans hr₁)
  have h := fleet_agreement .plain true _ (fun _ => rfl) _ _ pool pool' hg hr hr'
  have hkept := h.2 _ hslot
  obtain ⟨k, hk⟩ := Option.isSome_iff_exists.mp hjoined
  obtain rfl := h.1 _ _ _ _ hk hkept
  exact ⟨pool, pool', hr, hr', hslot, hkept, hk⟩

end Sceau
