import Sceau.Enroll.Code
import Sceau.Fleet.Commands
import Sceau.Lib.Pool

/-!
# The enrollment window

One `enroll` process: any number of `Duplicate` handlers over the shared permit counter, the shared
TPM context behind its mutex, and a cluster whose Nodes come and go. A run interleaves single
commands of the handlers; a handler suspended at its one await point, the Node lookup, can be
dropped.

The second half of the module reads the handler's program: it begins with `fetch_sub`, and from
there it either puts the permit back at once or runs `handle_duplicate`, whose commands are
**neutral** to the counter, and settles.
-/

set_option autoImplicit false

namespace Sceau

open Lib

/-- The outcome of a `Duplicate` request. -/
abbrev Answer := Except Status DuplicateResponse

structure EnrollState where
  /-- `EnrollService::remaining`, an `AtomicUsize` -/
  remaining : UInt64
  /-- how often `done.notify_one()` was called -/
  notified : Nat := 0
  /-- the names of the cluster's Nodes -/
  nodes : List String := []
  /-- whether `EnrollService::context` is locked -/
  locked : Bool := false
  machine : Machine

/-- What the handlers' commands do. `get` of a Node succeeds only while the Node exists, and may
fail at any time; the lock waits. -/
def enrollDevice (P : Platform) : Device Cmd Cmd.Res EnrollState Choice
  | .fetchSub, s, .io _ => some (s.remaining, { s with remaining := s.remaining - 1 })
  | .fetchAdd, s, .io _ => some ((), { s with remaining := s.remaining + 1 })
  | .notifyOne, s, .io _ => some ((), { s with notified := s.notified + 1 })
  | .getNode n, s, .io succeeds =>
    if succeeds then (if n ∈ s.nodes then some (.ok (), s) else none) else some (.error (), s)
  | .lockContext, s, .io succeeds =>
    if s.locked then none
    else if succeeds then some (.ok (), { s with locked := true })
    else some (.error (), s)
  | .unlockContext, s, .io _ => some ((), { s with locked := false })
  | .tpm ctx c, s, e =>
    (tpmStep P anyFault ctx c s.machine e).map fun x => (x.1, { s with machine := x.2 })
  | _, _, _ => none

/-- tonic drops a handler's future only where it awaits: at the Node lookup. -/
def awaits : Cmd → Bool
  | .getNode _ => true
  | _ => false

/-- The enrollment process as a system of handlers. -/
def enrollSystem (P : Platform) (service : EnrollService) :
    System Request Cmd Cmd.Res EnrollState Choice (List String) Answer where
  code := service.duplicate P
  dev _ := enrollDevice P
  await := awaits
  env s nodes := some { s with nodes }

abbrev EnrollPool := Pool Request Cmd Cmd.Res EnrollState Answer
abbrev EnrollTask := Task Request Cmd Cmd.Res Answer
abbrev EnrollAct := Act Request Choice (List String)

/-- `run_enroll` as it starts to serve: `AtomicUsize::new(max as usize)`. -/
def EnrollPool.start (max : UInt32) (machine : Machine) (nodes : List String) : EnrollPool :=
  { shared := { remaining := max.toUInt64, machine, nodes } }

/-- A request from the node `a`, for a transport key made from the fleet key's template. -/
def memberRequest : Request where
  peerCerts := some ["system:node:a".toList.map fun c => UInt8.ofNat c.toNat]
  message := { joinerTransportPublic := [3, 9] }

/-! ## The program of a handler -/

section Shape

variable (P : Platform) (self : EnrollService) (request : Request)

/-- The status of a request that came too late. -/
def maxReached : Status := denied (.text "--max already reached")

theorem duplicate_eq :
    self.duplicate P request = .call .fetchSub fun n =>
      if n = 0 then .call .fetchAdd fun _ => .ret (.error maxReached)
      else (self.handleDuplicate P request).run.bind (EnrollService.settle (n = 1)) := rfl

theorem settle_ok (last : Bool) (r : DuplicateResponse) :
    EnrollService.settle last (.ok r) =
      if last then .call .notifyOne fun _ => .ret (.ok r) else .ret (.ok r) := by
  cases last <;> rfl

theorem settle_error (last : Bool) (st : Status) :
    EnrollService.settle last (.error st) = .call .fetchAdd fun _ => .ret (.error st) := rfl

/-- After the certificate has been looked at, the first thing a handler does is the Node lookup. -/
theorem handleDuplicate_eq :
    (self.handleDuplicate P request).run =
      match EnrollService.requestedNode P request with
      | .error st => .ret (.error st)
      | .ok n => .call (.getNode n) fun r =>
        match r with
        | .ok () => (self.serveDuplicate P request).run
        | .error () => .ret (.error (denied (.authz (.unknownNode n)))) := by
  unfold EnrollService.handleDuplicate
  cases h : EnrollService.requestedNode P request with
  | error st => rfl
  | ok n =>
    show Prog.call (Cmd.getNode n) _ = _
    congr 1
    funext r
    rcases r with ⟨⟩ | ⟨⟩ <;> rfl

/-- Commands that neither touch the permit counter nor `done`. -/
def Cmd.neutral : Cmd → Prop
  | .fetchSub | .fetchAdd | .notifyOne => False
  | _ => True

theorem Cmd.benign.neutral {c : Cmd} (h : c.benign) : c.neutral := by
  cases c <;> trivial

/-! The handler's own commands are five that are not the TPM's; the rest is the duplication it does
under the lock. So a class of programs with those five and with that contains the handler. -/

section Closed

variable {Φ : {α : Type} → Code α → Prop} (hΦ : Prog.Closed Φ)
  (hnode : ∀ name, Φ (issue (.getNode name))) (hlock : Φ (issue .lockContext))
  (hunlock : Φ (issue .unlockContext))
  (hdup : ∀ pub, Φ (Fleet.duplicateForJoiner self.context self.fleetKeyHandle pub).run)
include hΦ hlock hunlock hdup

theorem serveDuplicate_closed : Φ (self.serveDuplicate P request).run := by
  unfold EnrollService.serveDuplicate
  split
  · exact hΦ.ret _
  · rename_i joinerPublic _
    refine hΦ.run_bind ?_ ?_
    · unfold EnrollService.lockedDuplicate
      refine hΦ.run_bind (hΦ.bind hlock fun _ => hΦ.ret _) fun r => ?_
      cases r with
      | error _ => exact hΦ.ret _
      | ok _ =>
        refine hΦ.run_bind (hΦ.bind (hdup joinerPublic) fun _ => hΦ.ret _) fun blob => ?_
        refine hΦ.run_bind (hΦ.bind hunlock fun _ => hΦ.ret _) fun _ => ?_
        cases blob <;> exact hΦ.ret _
    · intro blob
      unfold EnrollService.response
      split <;> exact hΦ.ret _

include hnode

theorem handleDuplicate_closed : Φ (self.handleDuplicate P request).run := by
  rw [handleDuplicate_eq]
  split
  · exact hΦ.ret _
  · rename_i name _
    refine hΦ.bind (hnode name) fun r => ?_
    rcases r with ⟨⟩ | ⟨⟩
    · exact hΦ.ret _
    · exact serveDuplicate_closed P self request hΦ hlock hunlock hdup

theorem duplicate_closed (hsub : Φ (issue .fetchSub)) (hadd : Φ (issue .fetchAdd))
    (hnotify : Φ (issue .notifyOne)) : Φ (self.duplicate P request) := by
  unfold EnrollService.duplicate
  refine hΦ.bind hsub fun n => ?_
  split
  · exact hΦ.bind hadd fun _ => hΦ.ret _
  · refine hΦ.bind (handleDuplicate_closed P self request hΦ hnode hlock hunlock hdup) ?_
    intro handled
    cases handled with
    | error st => exact hΦ.bind hadd fun _ => hΦ.ret _
    | ok response =>
      rw [settle_ok]
      split
      · exact hΦ.bind hnotify fun _ => hΦ.ret _
      · exact hΦ.ret _

end Closed

section Only

variable {X : Cmd → Prop} (hX : ∀ c : Cmd, c.benign → X c) (hnode : ∀ name, X (.getNode name))
  (hlock : X .lockContext) (hunlock : X .unlockContext)
  (hdup : ∀ ctx external, X (.tpm ctx (.duplicate self.fleetKeyHandle external
    duplicationSymmetricAlg)))
  (hflush : ∀ ctx h, X (.tpm ctx (.flushContext h)))
include hX hnode hlock hunlock hdup hflush

theorem handleDuplicate_only : (self.handleDuplicate P request).run.Only X :=
  handleDuplicate_closed P self request (Prog.only_closed X) (fun _ => ⟨hnode _, fun _ => trivial⟩)
    ⟨hlock, fun _ => trivial⟩ ⟨hunlock, fun _ => trivial⟩
    fun _ => Fleet.duplicateForJoiner_only hX _ _ _ hdup hflush

theorem duplicate_only (hsub : X .fetchSub) (hadd : X .fetchAdd) (hnotify : X .notifyOne) :
    (self.duplicate P request).Only X :=
  duplicate_closed P self request (Prog.only_closed X) (fun _ => ⟨hnode _, fun _ => trivial⟩)
    ⟨hlock, fun _ => trivial⟩ ⟨hunlock, fun _ => trivial⟩
    (fun _ => Fleet.duplicateForJoiner_only hX _ _ _ hdup hflush)
    ⟨hsub, fun _ => trivial⟩ ⟨hadd, fun _ => trivial⟩ ⟨hnotify, fun _ => trivial⟩

end Only

/-- **`handle_duplicate` leaves the permits alone.** Bookkeeping is its caller's business only. -/
theorem handleDuplicate_neutral : (self.handleDuplicate P request).run.Only Cmd.neutral :=
  handleDuplicate_only P self request (fun _ h => h.neutral) (fun _ => trivial) trivial trivial
    (fun _ _ => trivial) fun _ _ => trivial

end Shape

end Sceau
