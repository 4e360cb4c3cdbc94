import Sceau.Node.Code
import Sceau.Tpm.Device
import Mathlib.Logic.Function.Basic

/-!
# The cluster, one operation at a time

Any number of nodes, each with its TPM, the serve instances running on it, an enroll process and a
join that waits for its seed. One action is one operation of one node, run to its end against the
environment's choices; a join is two, before and after the seed's response, so that the seed's own
operation can come between.

A world also remembers what `Encrypt` has answered so far, when each serve instance was started and
when each slot was filled. No operation reads that: it is what statements about a run's past are
written over.
-/

set_option autoImplicit false

namespace Sceau

open Lib

/-- A running `serve`. -/
structure Instance where
  service : KmsService
  /-- the time of the operation that started it -/
  started : Nat

structure Node where
  tpm : Tpm
  serves : List Instance := []
  enroll : Option EnrollService := none
  join : Option PendingJoin := none
  /-- the time of the operation after which the slot was first occupied -/
  filled : Option Nat := none

/-- One answer of `Encrypt`. -/
structure Encrypted (ι : Type) where
  node : ι
  /-- when the instance that answered was started -/
  started : Nat
  plaintext : Bytes
  response : EncryptResponse

structure World (ι : Type) where
  nodes : ι → Node
  ledger : Ledger := {}
  /-- every response a seed has sent -/
  responses : List DuplicateResponse := []
  encrypted : List (Encrypted ι) := []
  clock : Nat := 0

inductive Op where
  | genesis (force : Bool)
  | status
  | enroll
  | enrollStop
  | duplicate (request : Request)
  | joinBegin (seed k0sDataDir : String)
  | joinEnd (response : Option DuplicateResponse)
  | serve (forceLegacy : Bool)
  | stop (n : Nat)
  | encrypt (n : Nat) (plaintext : Bytes)
  | decrypt (n : Nat) (keyId : String) (ciphertext : Bytes)

/-- An operation of a node, with what the environment does during it. -/
structure ClusterAct (ι : Type) where
  node : ι
  op : Op
  choices : List Choice

section Step

variable {ι : Type} [DecidableEq ι] (P : Platform) (faults : TpmCmd → Bool)

namespace World

def machine (w : World ι) (i : ι) : Machine := { tpm := (w.nodes i).tpm, ledger := w.ledger }

def setNode (w : World ι) (i : ι) (node : Node) : World ι :=
  { w with nodes := Function.update w.nodes i node }

/-- The world after an operation that left node `i`'s machine in this state. -/
def put (w : World ι) (i : ι) (m : Machine) : World ι :=
  { w.setNode i { w.nodes i with
      tpm := m.tpm
      filled := (w.nodes i).filled.or (m.tpm.slot.map fun _ => w.clock) } with
    ledger := m.ledger
    clock := w.clock + 1 }

/-- Run a program on node `i`. -/
def exec {α : Type} (w : World ι) (i : ι) (p : Code α) (es : List Choice) :
    Option (α × World ι) :=
  (p.exec (nodeDevice P faults) (w.machine i) es).map fun x => (x.1, w.put i x.2.1)

/-- Change what runs on node `i`. -/
def modify (w : World ι) (i : ι) (f : Node → Node) : World ι := w.setNode i (f (w.nodes i))

/-- The service of a running instance, after a call. -/
def setService (w : World ι) (i : ι) (n : Nat) (service : KmsService) : World ι :=
  w.modify i fun node =>
    { node with serves := node.serves.modify n fun inst => { inst with service } }

/-- Note what `Encrypt` answered. -/
def note (w : World ι) (i : ι) (started : Nat) (plaintext : Bytes) :
    Except (Failure KmsStatus) EncryptResponse → World ι
  | .ok response => { w with encrypted := ⟨i, started, plaintext, response⟩ :: w.encrypted }
  | .error _ => w

def step (w : World ι) : ClusterAct ι → Option (World ι)
  | ⟨i, .genesis force, es⟩ => (w.exec P faults i (runGenesis force).run es).map (·.2)
  | ⟨i, .status, es⟩ => (w.exec P faults i (runStatus P).run es).map (·.2)
  | ⟨i, .enroll, es⟩ =>
    (w.exec P faults i runEnroll.run es).map fun x =>
      x.2.modify i fun node => { node with enroll := x.1.toOption }
  | ⟨i, .enrollStop, es⟩ =>
    (w.exec P faults i (.ret ()) es).map fun x =>
      x.2.modify i fun node => { node with enroll := none }
  | ⟨i, .duplicate request, es⟩ => do
    let service ← (w.nodes i).enroll
    let (answer, w') ← w.exec P faults i (service.duplicate P request) es
    return { w' with responses := answer.toOption.toList ++ w'.responses }
  | ⟨i, .joinBegin seed k0sDataDir, es⟩ =>
    if (w.nodes i).join.isSome then none
    else (w.exec P faults i (joinRequest P seed k0sDataDir).run es).map fun x =>
      x.2.modify i fun node => { node with join := x.1.toOption }
  | ⟨i, .joinEnd response, es⟩ => do
    let join ← (w.nodes i).join
    let (_, w') ← w.exec P faults i
      (match response with
      | some response => (joinFinish P join response).run
      | none => .ret (.error .rejected)) es
    return w'.modify i fun node => { node with join := none }
  | ⟨i, .serve forceLegacy, es⟩ =>
    (w.exec P faults i (runServe P forceLegacy).run es).map fun x =>
      x.2.modify i fun node =>
        { node with serves := node.serves ++ (x.1.toOption.map (⟨·, w.clock⟩)).toList }
  | ⟨i, .stop n, es⟩ => do
    let inst ← (w.nodes i).serves[n]?
    let (_, w') ← w.exec P faults i inst.service.drop es
    return w'.modify i fun node => { node with serves := node.serves.eraseIdx n }
  | ⟨i, .encrypt n plaintext, es⟩ => do
    let inst ← (w.nodes i).serves[n]?
    let ((answer, service), w') ← w.exec P faults i (inst.service.encrypt P plaintext) es
    return (w'.setService i n service).note i inst.started plaintext answer
  | ⟨i, .decrypt n keyId ciphertext, es⟩ => do
    let inst ← (w.nodes i).serves[n]?
    let ((_, service), w') ← w.exec P faults i (inst.service.decrypt P keyId ciphertext) es
    return w'.setService i n service

/-- What an operation does, by cases: the run of its program, and what becomes of the node. -/
inductive Effect (w : World ι) (i : ι) (es : List Choice) : Op → World ι → Prop where
  | genesis {force : Bool} {r : Except AnyError Unit} {m : Machine} {tr : List (Event Cmd Cmd.Res)}
      (run : (runGenesis force).run.exec (nodeDevice P faults) (w.machine i) es = some (r, m, tr)) :
      Effect w i es (.genesis force) (w.put i m)
  | status {r : Except AnyError (Bool × String)} {m : Machine} {tr : List (Event Cmd Cmd.Res)}
      (run : (runStatus P).run.exec (nodeDevice P faults) (w.machine i) es = some (r, m, tr)) :
      Effect w i es .status (w.put i m)
  | enroll {r : Except FleetError EnrollService} {m : Machine} {tr : List (Event Cmd Cmd.Res)}
      (run : runEnroll.run.exec (nodeDevice P faults) (w.machine i) es = some (r, m, tr)) :
      Effect w i es .enroll ((w.put i m).modify i fun node => { node with enroll := r.toOption })
  | enrollStop : Effect w i es .enrollStop
      ((w.put i (w.machine i)).modify i fun node => { node with enroll := none })
  | duplicate {request : Request} {service : EnrollService} {answer : Except Status DuplicateResponse}
      {m : Machine} {tr : List (Event Cmd Cmd.Res)} (serving : (w.nodes i).enroll = some service)
      (run : (service.duplicate P request).exec (nodeDevice P faults) (w.machine i) es =
        some (answer, m, tr)) :
      Effect w i es (.duplicate request)
        { w.put i m with responses := answer.toOption.toList ++ w.responses }
  | joinBegin {seed k0sDataDir : String} {r : Except JoinError PendingJoin} {m : Machine}
      {tr : List (Event Cmd Cmd.Res)} (idle : (w.nodes i).join = none)
      (run : (joinRequest P seed k0sDataDir).run.exec (nodeDevice P faults) (w.machine i) es =
        some (r, m, tr)) :
      Effect w i es (.joinBegin seed k0sDataDir)
        ((w.put i m).modify i fun node => { node with join := r.toOption })
  | joinEnd {response : DuplicateResponse} {join : PendingJoin} {r : Except JoinError Unit}
      {m : Machine} {tr : List (Event Cmd Cmd.Res)} (pending : (w.nodes i).join = some join)
      (run : (joinFinish P join response).run.exec (nodeDevice P faults) (w.machine i) es =
        some (r, m, tr)) :
      Effect w i es (.joinEnd (some response))
        ((w.put i m).modify i fun node => { node with join := none })
  | joinRejected : Effect w i es (.joinEnd none)
      ((w.put i (w.machine i)).modify i fun node => { node with join := none })
  | serve {forceLegacy : Bool} {r : Except AnyError KmsService} {m : Machine}
      {tr : List (Event Cmd Cmd.Res)}
      (run : (runServe P forceLegacy).run.exec (nodeDevice P faults) (w.machine i) es =
        some (r, m, tr)) :
      Effect w i es (.serve forceLegacy) ((w.put i m).modify i fun node =>
        { node with serves := node.serves ++ (r.toOption.map (⟨·, w.clock⟩)).toList })
  | stop {n : Nat} {inst : Instance} {m : Machine} {tr : List (Event Cmd Cmd.Res)}
      (running : (w.nodes i).serves[n]? = some inst)
      (run : inst.service.drop.exec (nodeDevice P faults) (w.machine i) es = some ((), m, tr)) :
      Effect w i es (.stop n) ((w.put i m).modify i fun node =>
        { node with serves := node.serves.eraseIdx n })
  | encrypt {n : Nat} {plaintext : Bytes} {inst : Instance} {service : KmsService}
      {answer : Except (Failure KmsStatus) EncryptResponse} {m : Machine}
      {tr : List (Event Cmd Cmd.Res)} (running : (w.nodes i).serves[n]? = some inst)
      (run : (inst.service.encrypt P plaintext).exec (nodeDevice P faults) (w.machine i) es =
        some ((answer, service), m, tr)) :
      Effect w i es (.encrypt n plaintext)
        (((w.put i m).setService i n service).note i inst.started plaintext answer)
  | decrypt {n : Nat} {keyId : String} {ciphertext : Bytes} {inst : Instance}
      {service : KmsService} {answer : Except (Failure KmsStatus) Bytes} {m : Machine}
      {tr : List (Event Cmd Cmd.Res)} (running : (w.nodes i).serves[n]? = some inst)
      (run : (inst.service.decrypt P keyId ciphertext).exec (nodeDevice P faults) (w.machine i) es =
        some ((answer, service), m, tr)) :
      Effect w i es (.decrypt n keyId ciphertext) ((w.put i m).setService i n service)

variable {P faults}

theorem exec_eq {α : Type} {w w' : World ι} {i : ι} {p : Code α} {es : List Choice} {a : α}
    (h : w.exec P faults i p es = some (a, w')) :
    ∃ m tr, p.exec (nodeDevice P faults) (w.machine i) es = some (a, m, tr) ∧ w' = w.put i m := by
  obtain ⟨⟨b, m, tr⟩, hx, heq⟩ := Option.map_eq_some_iff.mp h
  obtain ⟨rfl, rfl⟩ := Prod.mk.inj heq
  exact ⟨m, tr, hx, rfl⟩

/-- A program that issues no command leaves the machine as it is. -/
theorem exec_ret {α : Type} {w w' : World ι} {i : ι} {a b : α} {es : List Choice}
    (h : w.exec P faults i (.ret a) es = some (b, w')) : w' = w.put i (w.machine i) := by
  obtain ⟨m, tr, hx, rfl⟩ := exec_eq h
  cases es with
  | nil =>
    simp only [Prog.exec, Option.some.injEq, Prod.mk.injEq] at hx
    rw [hx.2.1]
  | cons e es => cases hx

theorem step_effect {w w' : World ι} {act : ClusterAct ι} (h : w.step P faults act = some w') :
    Effect P faults w act.node act.choices act.op w' := by
  obtain ⟨i, op, es⟩ := act
  cases op with
  | genesis force =>
    obtain ⟨⟨r, w₁⟩, hx, rfl⟩ := Option.map_eq_some_iff.mp h
    obtain ⟨m, tr, hrun, rfl⟩ := exec_eq hx
    exact .genesis hrun
  | status =>
    obtain ⟨⟨r, w₁⟩, hx, rfl⟩ := Option.map_eq_some_iff.mp h
    obtain ⟨m, tr, hrun, rfl⟩ := exec_eq hx
    exact .status hrun
  | enroll =>
    obtain ⟨⟨r, w₁⟩, hx, rfl⟩ := Option.map_eq_some_iff.mp h
    obtain ⟨m, tr, hrun, rfl⟩ := exec_eq hx
    exact .enroll hrun
  | enrollStop =>
    obtain ⟨⟨r, w₁⟩, hx, rfl⟩ := Option.map_eq_some_iff.mp h
    obtain rfl := exec_ret hx
    exact .enrollStop
  | duplicate request =>
    obtain ⟨service, hserving, h⟩ := Option.bind_eq_some_iff.mp h
    obtain ⟨⟨answer, w₁⟩, hx, h⟩ := Option.bind_eq_some_iff.mp h
    obtain rfl := Option.some.inj h
    obtain ⟨m, tr, hrun, rfl⟩ := exec_eq hx
    exact .duplicate hserving hrun
  | joinBegin seed k0sDataDir =>
    simp only [step] at h
    split at h
    · cases h
    · rename_i hidle
      obtain ⟨⟨r, w₁⟩, hx, rfl⟩ := Option.map_eq_some_iff.mp h
      obtain ⟨m, tr, hrun, rfl⟩ := exec_eq hx
      exact .joinBegin (by simpa using hidle) hrun
  | joinEnd response =>
    obtain ⟨join, hpending, h⟩ := Option.bind_eq_some_iff.mp h
    obtain ⟨⟨r, w₁⟩, hx, h⟩ := Option.bind_eq_some_iff.mp h
    obtain rfl := Option.some.inj h
    cases response with
    | none =>
      obtain rfl := exec_ret hx
      exact .joinRejected
    | some response =>
      obtain ⟨m, tr, hrun, rfl⟩ := exec_eq hx
      exact .joinEnd hpending hrun
  | serve forceLegacy =>
    obtain ⟨⟨r, w₁⟩, hx, rfl⟩ := Option.map_eq_some_iff.mp h
    obtain ⟨m, tr, hrun, rfl⟩ := exec_eq hx
    exact .serve hrun
  | stop n =>
    obtain ⟨inst, hrunning, h⟩ := Option.bind_eq_some_iff.mp h
    obtain ⟨⟨r, w₁⟩, hx, h⟩ := Option.bind_eq_some_iff.mp h
    obtain rfl := Option.some.inj h
    obtain ⟨m, tr, hrun, rfl⟩ := exec_eq hx
    exact .stop hrunning hrun
  | encrypt n plaintext =>
    obtain ⟨inst, hrunning, h⟩ := Option.bind_eq_some_iff.mp h
    obtain ⟨⟨⟨answer, service⟩, w₁⟩, hx, h⟩ := Option.bind_eq_some_iff.mp h
    obtain rfl := Option.some.inj h
    obtain ⟨m, tr, hrun, rfl⟩ := exec_eq hx
    exact .encrypt hrunning hrun
  | decrypt n keyId ciphertext =>
    obtain ⟨inst, hrunning, h⟩ := Option.bind_eq_some_iff.mp h
    obtain ⟨⟨⟨answer, service⟩, w₁⟩, hx, h⟩ := Option.bind_eq_some_iff.mp h
    obtain rfl := Option.some.inj h
    obtain ⟨m, tr, hrun, rfl⟩ := exec_eq hx
    exact .decrypt hrunning hrun

theorem eq_ok_of_toOption {ε α : Type} {r : Except ε α} {a : α} (h : r.toOption = some a) :
    r = .ok a := by
  cases r with
  | error e => cases h
  | ok b => exact congrArg Except.ok (Option.some.inj h)

/-! What holds of every node holds of every node after a change to one, if that one keeps it. -/

section Nodes

variable {C : ι → Node → Prop} {w : World ι} {i : ι}

theorem forall_setNode {node : Node} (h : ∀ j, C j (w.nodes j)) (hi : C i node) :
    ∀ j, C j ((w.setNode i node).nodes j) := by
  intro j
  by_cases hj : j = i
  · subst hj
    simpa [setNode] using hi
  · simpa [setNode, hj] using h j

theorem forall_modify {f : Node → Node} (h : ∀ j, C j (w.nodes j))
    (hf : ∀ node, C i node → C i (f node)) : ∀ j, C j ((w.modify i f).nodes j) :=
  forall_setNode h (hf _ (h i))

theorem forall_put {m : Machine} (h : ∀ j, C j (w.nodes j))
    (hi : C i (w.nodes i) → C i { w.nodes i with
      tpm := m.tpm
      filled := (w.nodes i).filled.or (m.tpm.slot.map fun _ => w.clock) }) :
    ∀ j, C j ((w.put i m).nodes j) :=
  forall_setNode h (hi (h i))

end Nodes

/-- A call that leaves the service as it was leaves the instances as they were. -/
theorem put_setService {w : World ι} {i : ι} {m : Machine} {n : Nat} {inst : Instance}
    (h : (w.nodes i).serves[n]? = some inst) :
    (w.put i m).setService i n inst.service = w.put i m := by
  have hserves : (w.nodes i).serves.modify n (fun x => { x with service := inst.service }) =
      (w.nodes i).serves := by
    apply List.ext_getElem?
    intro k
    by_cases hk : n = k
    · subst hk
      simp [h]
    · simp [hk]
  simp [setService, modify, put, setNode, hserves]

/-- No process runs, and nothing has been wrapped, sent or answered. -/
def start (tpms : ι → Tpm) : World ι := { nodes := fun i => { tpm := tpms i } }

end World

end Step

end Sceau
