import Sceau.Cluster.Nodes
import Sceau.Fleet.Agreement

/-!
# No ciphertext is lost

Genesis on one node and never forced, joins with responses that were sent, services started and
stopped at will, none of them with `--force-legacy`, and commands that fail only where they have to.
Then what `Encrypt` answered stays decryptable: on the node that answered, by every service started
no earlier, and under the fleet key by every service started once its node had the fleet key.

The invariant has three parts. Slots agree, which is carried over from the processes of
`Fleet.Agreement`: an operation that runs to its end without the others is one of their schedules.
Every node is steady. And every answer is still held: its bytes decode to an object of the ledger
whose parent is the SRK of the node that answered or the key that is in its slot for good.
-/

set_option autoImplicit false

namespace Sceau

open Lib

/-! ## From processes to operations

Agreement was proved for commands of processes that come in between each other. An operation of the
cluster is one process that runs to its end, so it is one of those schedules, and what it does to the
slots is known without looking at its code again. -/

section Operations

variable {ι : Type} [DecidableEq ι] {P : Platform} {faults : TpmCmd → Bool} {G i : ι} {α : Type}

/-- The part of a world that agreement is about. -/
def World.fleet (w : World ι) : FleetState ι :=
  { tpms := fun i => (w.nodes i).tpm, ledger := w.ledger, responses := w.responses }

theorem World.fleet_put (w : World ι) (i : ι) (m : Machine) :
    (w.put i m).fleet = w.fleet.put i m := by
  have htpms : (fun j => ((w.put i m).nodes j).tpm) =
      Function.update (fun j => (w.nodes j).tpm) i m.tpm := by
    funext j
    by_cases hj : j = i
    · subst hj
      simp [World.put, World.setNode]
    · simp [World.put, World.setNode, hj]
  simp only [World.fleet, FleetState.put, htpms]
  rfl

theorem World.nodes_put (w : World ι) (i : ι) (m : Machine) :
    (w.put i m).nodes i = (w.nodes i).put w.clock m.tpm := by
  simp [World.put, World.setNode, Node.put]

theorem World.fleet_modify (w : World ι) (i : ι) {f : Node → Node}
    (htpm : ∀ node, (f node).tpm = node.tpm) : (w.modify i f).fleet = w.fleet := by
  have htpms : (fun j => ((w.modify i f).nodes j).tpm) = fun j => (w.nodes j).tpm := by
    funext j
    by_cases hj : j = i
    · subst hj
      simp [World.modify, World.setNode, htpm]
    · simp [World.modify, World.setNode, hj]
  simp only [World.fleet, htpms]
  rfl

/-- Neither a request to another node nor a response to one. -/
def Cmd.onNode : Cmd → Prop
  | .duplicateRpc _ => False
  | .sendResponse _ => False
  | _ => True

theorem Cmd.benign.onNode {c : Cmd} (h : c.benign) : c.onNode := by
  cases c <;> trivial

theorem nodeDevice_anyFault {c : Cmd} {m : Machine} {e : Choice} {x : c.Res × Machine}
    (h : nodeDevice P faults c m e = some x) : nodeDevice P anyFault c m e = some x := by
  cases c with
  | tpm ctx c =>
    cases e with
    | fail err =>
      simp only [nodeDevice_tpm, tpmStep] at h ⊢
      split at h
      · simpa [anyFault] using h
      · cases h
    | ok rnd =>
      simp only [nodeDevice_tpm, tpmStep] at h ⊢
      split at h
      · cases h
      · rename_i hr
        rw [if_neg]
        · exact h
        · intro hany
          exact hr (by simp_all [anyFault])
    | _ => cases h
  | _ => cases e <;> exact h

theorem fleetDevice_onNode {c : Cmd} (hc : c.onNode) {s : FleetState ι} {m m' : Machine} {e : Choice}
    {r : c.Res} (h : nodeDevice P faults c m e = some (r, m')) :
    fleetDevice P i c (s.put i m) e = some (r, s.put i m') := by
  have hmachine : (s.put i m).machine i = m := by simp [FleetState.put, FleetState.machine]
  have hput : (s.put i m).put i m' = s.put i m' := by simp [FleetState.put]
  have hany := nodeDevice_anyFault h
  have hnode : (nodeDevice P anyFault c ((s.put i m).machine i) e).map
      (fun x => (x.1, (s.put i m).put i x.2)) = some (r, s.put i m') := by
    rw [hmachine, hany, Option.map_some, hput]
  cases c with
  | duplicateRpc _ => exact absurd hc id
  | sendResponse _ => exact absurd hc id
  | _ => cases e <;> exact hnode

theorem calm_of_only {p : Code α} (hp : p.Only Cmd.calm) : p.Moves (nodeDevice P faults)
    fun m m' => m'.tpm.slot = m.tpm.slot ∧ m'.ledger.dups = m.ledger.dups := by
  refine Prog.Only.moves (nodeDevice P faults) ?_ ?_ (fun _ _ _ _ _ hc hd => nodeDevice_calm hc hd) hp
  · exact fun _ => ⟨rfl, rfl⟩
  · exact fun _ _ _ h h' => ⟨h'.1.trans h.1, h'.2.trans h.2⟩

theorem dups_of_only {p : Code α} (hp : p.Only (Cmd.quiet TpmCmd.duplicates)) :
    p.Moves (nodeDevice P faults) fun m m' => m'.ledger.dups = m.ledger.dups :=
  Prog.Only.unchanged (nodeDevice P faults) (·.ledger.dups) (fun _ _ _ _ _ hc hd => nodeDevice_dups hc hd) hp

/-- An operation that runs on its node without the others does what it may do among them. -/
theorem wp_of_keeps {p : Code α} {Q : α → FleetState ι → Prop} {s : FleetState ι}
    (hp : p.Only Cmd.onNode) (hkeeps : Keeps P G i p Q s) (hI : Agreed G s) :
    p.wp (nodeDevice P faults) (fun _ a m => Agreed G (s.put i m) ∧ Settled G s (s.put i m) ∧
      Q a (s.put i m)) (s.machine i) := by
  have hwp := hkeeps.wp (Settled.refl G) (Settled.trans G) hI
  have hsim : ∀ (c : Cmd) (m : Machine) (e : Choice) (r : c.Res) (m' : Machine), c.onNode →
      nodeDevice P faults c m e = some (r, m') →
        fleetDevice P i c (s.put i m) e = some (r, s.put i m') :=
    fun _ _ _ _ _ hc hd => fleetDevice_onNode hc hd
  refine Prog.Only.wp_simulate (s.put i) id hsim hp (Q := fun _ a s' => Agreed G s' ∧ Settled G s s' ∧
    Q a s') ?_
  rwa [FleetState.put_machine]

end Operations

/-! ## What is held of an answer

What has to stay true for an answer to be decryptable later. None of it mentions the service that gave
the answer, which may be long gone: only its node, the node's two keys and the ledger. -/

section Held

variable {ι : Type} {P : Platform} {gone : Nat → Prop} {l l' : Ledger} {node : Node} {m : Machine}
  {e : Encrypted ι}

/-- The answer is an object under `t`, and `t` is a key the node keeps: its SRK, or the key in its
slot since before the service that answered was started. -/
structure Encrypted.HeldAs (P : Platform) (l : Ledger) (node : Node) (e : Encrypted ι)
    (t pub : Public) (priv : Private) : Prop where
  decodes : envelopeDecode P.unmarshall P.privateTryFrom e.response.ciphertext =
    some (.ok (pub, priv))
  found : l.findObject t pub priv = some ⟨t, pub, priv, .data e.plaintext⟩
  storage : (t.objectAttributes.restricted && t.objectAttributes.decrypt) = true
  keyId : e.response.keyId = keyIdOf P t
  key : t = node.tpm.srk ∨ node.tpm.slot = some t ∧ ∃ f, node.filled = some f ∧ f < e.started

def Encrypted.Held (P : Platform) (l : Ledger) (node : Node) (e : Encrypted ι) : Prop :=
  ∃ t pub priv, e.HeldAs P l node t pub priv

/-- The ledger grows while another node is at work. -/
theorem Encrypted.Held.ledger (h : e.Held P l node)
    (hfound : ∀ t pub priv o, l.findObject t pub priv = some o →
      l'.findObject t pub priv = some o) : e.Held P l' node := by
  obtain ⟨t, pub, priv, h⟩ := h
  exact ⟨t, pub, priv, h.decodes, hfound _ _ _ _ h.found, h.storage, h.keyId, h.key⟩

/-- What runs on the node does not matter. -/
theorem Encrypted.Held.congr {node' : Node} (h : e.Held P l node) (htpm : node'.tpm = node.tpm)
    (hfilled : node'.filled = node.filled) : e.Held P l node' := by
  obtain ⟨t, pub, priv, h⟩ := h
  refine ⟨t, pub, priv, h.decodes, h.found, h.storage, h.keyId, ?_⟩
  rw [htpm, hfilled]
  exact h.key

theorem Encrypted.Held.put {clock : Nat} (h : e.Held P l node)
    (hkept : Kept gone ⟨node.tpm, l⟩ m)
    (hslot : ∀ k, node.tpm.slot = some k → m.tpm.slot = some k) :
    e.Held P m.ledger (node.put clock m.tpm) := by
  obtain ⟨t, pub, priv, h⟩ := h
  refine ⟨t, pub, priv, h.decodes, hkept.found _ _ _ _ h.found, h.storage, h.keyId, ?_⟩
  rcases h.key with hkey | ⟨hkey, f, hfilled, hlt⟩
  · left
    rw [hkey]
    exact hkept.srk.symm
  · right
    refine ⟨hslot t hkey, f, ?_, hlt⟩
    simp [Node.put, hfilled]

end Held

/-! ## The invariant

One lemma per operation of the cluster. What an operation does to its node's TPM goes through
`Available.put`, which asks what is left of it, and what it does to the node's services through
`Available.modify`. -/

section Invariant

variable {ι : Type} [DecidableEq ι] {P : Platform} {G i : ι} {gone : Nat → Prop} {w w' : World ι}
  {m : Machine} {es : List Choice}

namespace World

structure Available (P : Platform) (G : ι) (w : World ι) : Prop where
  agreed : Agreed G w.fleet
  steady : ∀ i, (w.nodes i).Steady P w.clock
  held : ∀ e ∈ w.encrypted, e.Held P w.ledger (w.nodes e.node)

theorem Available.put (h : w.Available P G) (hkept : Kept gone (w.machine i) m)
    (hslot : ∀ k, (w.nodes i).tpm.slot = some k → m.tpm.slot = some k)
    (hgone : ∀ id, some id ∈ (w.nodes i).owned → ¬ gone id)
    (hagreed : Agreed G (w.fleet.put i m)) : (w.put i m).Available P G where
  agreed := by
    rwa [fleet_put]
  steady := forall_put (C := fun _ node => node.Steady P (w.clock + 1))
    (fun j => (h.steady j).later) fun _ => (h.steady i).put hkept hslot hgone
  held := by
    intro e he
    have hheld := h.held e he
    refine forall_put (C := fun j node => e.node = j → e.Held P m.ledger node)
      (fun j hj => ?_) (fun _ hi => ?_) e.node rfl
    · subst hj
      exact hheld.ledger hkept.found
    · subst hi
      exact hheld.put hkept hslot

/-- A change of the processes on a node. -/
theorem Available.modify (h : w.Available P G) {f : Node → Node}
    (htpm : ∀ node, (f node).tpm = node.tpm) (hfilled : ∀ node, (f node).filled = node.filled)
    (hf : (f (w.nodes i)).Steady P w.clock) : (w.modify i f).Available P G where
  agreed := by
    rw [fleet_modify w i htpm]
    exact h.agreed
  steady := forall_setNode (C := fun _ node => node.Steady P w.clock) h.steady hf
  held := by
    intro e he
    refine forall_setNode (C := fun j node => e.node = j → e.Held P w.ledger node)
      (fun j hj => ?_) (fun hi => ?_) e.node rfl
    · subst hj
      exact h.held e he
    · subst hi
      exact (h.held e he).congr (htpm _) (hfilled _)

/-- An operation that moves no slot and wraps no duplicate. -/
theorem Available.calm {α : Type} {p : Code α} {a : α} {tr : List (Event Cmd Cmd.Res)}
    (h : w.Available P G) (hp : p.Only Cmd.calm) (hkept : Kept gone (w.machine i) m)
    (hgone : ∀ id, some id ∈ (w.nodes i).owned → ¬ gone id)
    (run : p.exec (nodeDevice P noFault) (w.machine i) es = some (a, m, tr)) :
    (w.put i m).Available P G := by
  obtain ⟨hslot, hdups⟩ := Prog.wp_sound (calm_of_only hp _) run
  exact h.put hkept (fun k hk => hslot.trans hk) hgone (h.agreed.put_same hslot hdups).1

/-- The same, where nothing that was loaded is flushed either. -/
theorem Available.benign {α : Type} {p : Code α} {a : α} {tr : List (Event Cmd Cmd.Res)}
    (h : w.Available P G) (hp : p.Only Cmd.calm) (hflush : p.Only (Cmd.Flushes fun _ => False))
    (run : p.exec (nodeDevice P noFault) (w.machine i) es = some (a, m, tr)) :
    (w.put i m).Available P G :=
  h.calm hp (Prog.wp_sound (kept_of_only hflush _) run) (fun _ _ => not_false) run

/-- What may be done: genesis on `G` only and never forced, services that use the fleet key if there
is one, joins with responses that were sent. -/
def Allowed (G : ι) (w : World ι) (act : ClusterAct ι) : Prop :=
  match act.op with
  | .genesis force => act.node = G ∧ force = false
  | .serve forceLegacy => forceLegacy = false
  | .joinEnd (some response) => response ∈ w.responses
  | _ => True

theorem Available.genesis (h : w.Available P G) {r : Except AnyError Unit}
    {tr : List (Event Cmd Cmd.Res)}
    (run : (runGenesis false).run.exec (nodeDevice P noFault) (w.machine G) es = some (r, m, tr)) :
    (w.put G m).Available P G := by
  obtain ⟨hagreed, hsettled, -⟩ := Prog.wp_sound (wp_of_keeps
    (runGenesis_only (fun _ => Cmd.benign.onNode) false fun _ _ _ => trivial)
    (runGenesis_keeps w.fleet) h.agreed) run
  have hkept : Kept (fun _ => False) (w.machine G) m := Prog.wp_sound (kept_of_only
    (runGenesis_only (fun _ => Cmd.benign.flushes) false fun _ _ _ => trivial) _) run
  refine h.put hkept (fun k hk => ?_) (fun _ _ => not_false) hagreed
  simpa [put_slot] using hsettled.slot k hk

theorem Available.duplicate (h : w.Available P G) {service : EnrollService} {request : Request}
    {answer : Except Status DuplicateResponse} {tr : List (Event Cmd Cmd.Res)}
    (serving : (w.nodes i).enroll = some service)
    (run : (service.duplicate P request).exec (nodeDevice P noFault) (w.machine i) es =
      some (answer, m, tr)) :
    { w.put i m with responses := answer.toOption.toList ++ w.responses }.Available P G := by
  obtain ⟨k, hk⟩ := (h.steady i).enroll service serving
  obtain ⟨hagreed, -, hanswer⟩ := Prog.wp_sound (wp_of_keeps
    (duplicate_only P service request (fun _ => Cmd.benign.onNode) (fun _ => trivial) trivial trivial
      (fun _ _ => trivial) (fun _ _ => trivial) trivial trivial trivial)
    (answer_keeps hk w.fleet) h.agreed) run
  have hslot := Prog.wp_sound (slot_of_only
    (duplicate_only P service request (fun _ => Cmd.benign.slot) (fun _ => trivial) trivial trivial
      (fun _ _ => rfl) (fun _ _ => rfl) trivial trivial trivial) _) run
  have hput := h.put (Prog.wp_sound (service.duplicate_kept request _) run)
    (fun k hk => hslot.trans hk) (fun _ _ => not_false) hagreed
  refine ⟨⟨hput.agreed.slots, hput.agreed.dups, ?_⟩, hput.steady, hput.held⟩
  intro response hresponse
  rcases List.mem_append.mp hresponse with hnew | hold
  · exact hanswer response (eq_ok_of_toOption (Option.mem_toList.mp hnew))
  · exact hput.agreed.sent response hold

/-- A process ends, and with it what it alone owned. -/
theorem Available.ending (h : w.Available P G) {f : Node → Node}
    (hf : ∀ node clock tpm, f (node.put clock tpm) = (f node).put clock tpm)
    (htpm : ∀ node, (f node).tpm = node.tpm) (hfilled : ∀ node, (f node).filled = node.filled)
    (hsteady : (f (w.nodes i)).Steady P w.clock) (hkept : Kept gone (w.machine i) m)
    (hslot : ∀ k, (w.nodes i).tpm.slot = some k → m.tpm.slot = some k)
    (hgone : ∀ id, some id ∈ (f (w.nodes i)).owned → ¬ gone id)
    (hagreed : Agreed G (w.fleet.put i m)) : ((w.put i m).modify i f).Available P G := by
  have hnode : (w.modify i f).nodes i = f (w.nodes i) := by simp [World.modify, World.setNode]
  have hmachine : (w.modify i f).machine i = w.machine i := by
    simp only [World.machine, hnode, htpm]
    rfl
  have hcomm : (w.put i m).modify i f = (w.modify i f).put i m := by
    have hput := hf (w.nodes i) w.clock m.tpm
    simp only [Node.put] at hput
    simp [World.put, World.modify, World.setNode, hput]
  rw [hcomm]
  refine (h.modify htpm hfilled hsteady).put (hmachine ▸ hkept) ?_ ?_ ?_
  · rwa [hnode, htpm]
  · rwa [hnode]
  · rwa [fleet_modify w i htpm]

omit [DecidableEq ι] in
/-- What a join leaves in the slot: what was there, or `G`'s key. -/
theorem Available.joinEnd_slot (h : w.Available P G) {join : PendingJoin}
    {response : DuplicateResponse} {r : Except JoinError Unit} {tr : List (Event Cmd Cmd.Res)}
    (hresponse : response ∈ w.responses)
    (run : (joinFinish P join response).run.exec (nodeDevice P noFault) (w.machine i) es =
      some (r, m, tr)) :
    m.tpm.slot = (w.nodes i).tpm.slot ∨
      ∃ k, m.tpm.slot = some k ∧ (w.fleet.tpms G).slot = some k := by
  rcases Prog.wp_sound joinFinish_noFault run with hsame | ⟨blob, hdec, hfilled, himports⟩
  · exact .inl hsame
  · obtain ⟨ek, hek, hrec⟩ := (h.agreed.sent response hresponse).recorded hdec
    exact .inr ⟨_, hfilled, hrec.slot h.agreed fun d hd => himports d (hek ▸ hd)⟩

/-- A join fills the slot with the key on record, or leaves it alone. -/
theorem Available.joinEnd (h : w.Available P G) {join : PendingJoin} {response : DuplicateResponse}
    {r : Except JoinError Unit} {tr : List (Event Cmd Cmd.Res)}
    (pending : (w.nodes i).join = some join) (hresponse : response ∈ w.responses)
    (run : (joinFinish P join response).run.exec (nodeDevice P noFault) (w.machine i) es =
      some (r, m, tr)) :
    ((w.put i m).modify i fun node => { node with join := none }).Available P G := by
  have hkept := Prog.wp_sound (kept_of_only (joinFinish_only (fun _ => Cmd.benign.flushes) P join
    response (fun _ _ _ => trivial) (fun _ _ _ _ _ => trivial)
    fun ctx => join.transportHandle.flushes_transientId ctx) _) run
  have hdups := Prog.wp_sound (dups_of_only (joinFinish_only (fun _ => Cmd.benign.dups) P join
    response (fun _ _ _ => rfl) (fun _ _ _ _ _ => rfl) fun _ => rfl) _) run
  have hslot := h.joinEnd_slot hresponse run
  refine h.ending (fun _ _ _ => rfl) (fun _ => rfl) (fun _ => rfl) (h.steady i).endJoin hkept ?_ ?_ ?_
  · intro k hk
    rcases hslot with hsame | ⟨k', hfilled, hG⟩
    · rw [hsame, hk]
    · have hGk := h.agreed.slots i k hk
      rw [hfilled, ← hG, hGk]
  · intro id hid hgone
    exact (h.steady i).not_mem_endJoin pending (hgone ▸ hid)
  · rcases hslot with hsame | ⟨k', hfilled, hG⟩
    · exact (h.agreed.put_same hsame hdups).1
    · exact (h.agreed.put_key hG hfilled hdups).1

/-- A service that stops flushes its SRK, and no other's. -/
theorem Available.stop (h : w.Available P G) {n : Nat} {inst : Instance}
    {tr : List (Event Cmd Cmd.Res)} (running : (w.nodes i).serves[n]? = some inst)
    (run : inst.service.drop.exec (nodeDevice P noFault) (w.machine i) es = some ((), m, tr)) :
    ((w.put i m).modify i fun node =>
      { node with serves := node.serves.eraseIdx n }).Available P G := by
  have hcalm : inst.service.drop.Only Cmd.calm := KmsService.drop_only (fun _ => Cmd.benign.calm) _
    (fun _ => trivial) fun _ _ _ => trivial
  have hflush := ((h.steady i).serves inst (List.mem_of_getElem? running)).1.drop_flushes
  obtain ⟨hslot, hdups⟩ := Prog.wp_sound (calm_of_only hcalm _) run
  refine h.ending (fun _ _ _ => rfl) (fun _ => rfl) (fun _ => rfl) ((h.steady i).eraseServe n)
    (Prog.wp_sound (kept_of_only hflush _) run) (fun k hk => hslot.trans hk) ?_
    (h.agreed.put_same hslot hdups).1
  intro id hid hgone
  exact (h.steady i).not_mem_eraseServe running (hgone ▸ hid)

theorem Available.joinBegin (h : w.Available P G) {seed k0sDataDir : String}
    {r : Except JoinError PendingJoin} {tr : List (Event Cmd Cmd.Res)}
    (idle : (w.nodes i).join = none)
    (run : (joinRequest P seed k0sDataDir).run.exec (nodeDevice P noFault) (w.machine i) es =
      some (r, m, tr)) :
    ((w.put i m).modify i fun node => { node with join := r.toOption }).Available P G := by
  have hput := h.benign
    (joinRequest_only (fun _ => Cmd.benign.calm) P _ _ (fun _ => trivial) fun _ => trivial)
    (joinRequest_only (fun _ => Cmd.benign.flushes) P _ _ (fun _ => trivial) fun _ => trivial) run
  refine hput.modify (fun _ => rfl) (fun _ => rfl) ?_
  have hsteady := hput.steady i
  cases r with
  | error e => exact hsteady.endJoin
  | ok join =>
    obtain ⟨id, obj, hhandle, hfresh, hlt⟩ := Prog.wp_sound joinRequest_wp run join rfl
    rw [nodes_put] at hsteady ⊢
    exact hsteady.beginJoin idle (congrArg Handle.transientId hhandle) hlt
      ((h.steady i).fresh hfresh)

theorem Available.serve (h : w.Available P G) {r : Except AnyError KmsService}
    {tr : List (Event Cmd Cmd.Res)}
    (run : (runServe P false).run.exec (nodeDevice P noFault) (w.machine i) es = some (r, m, tr)) :
    ((w.put i m).modify i fun node =>
      { node with serves := node.serves ++ (r.toOption.map (⟨·, w.clock⟩)).toList }).Available P G := by
  have hput := h.benign (runServe_only (fun _ => Cmd.benign.calm) P false)
    (runServe_only (fun _ => Cmd.benign.flushes) P false) run
  refine hput.modify (fun _ => rfl) (fun _ => rfl) ?_
  have hsteady := hput.steady i
  cases r with
  | error e => simpa [Except.toOption] using hsteady
  | ok service =>
    obtain ⟨s, legacy, hpair, rfl⟩ := Prog.wp_sound runServe_wp run service rfl
    obtain ⟨id, hid, hfresh, hlt⟩ := hpair.own_transientId
    have hkept : Kept (fun _ => False) (w.machine i) m := Prog.wp_sound (kept_of_only
      (runServe_only (fun _ => Cmd.benign.flushes) P false) _) run
    obtain ⟨hslot, -⟩ := Prog.wp_sound
      (calm_of_only (runServe_only (fun _ => Cmd.benign.calm) P false) _) run
    rw [nodes_put] at hsteady ⊢
    refine hsteady.addServe ?_ (Nat.lt_succ_self _) hid hlt ((h.steady i).fresh hfresh)
    rw [(h.steady i).filled_put hslot]
    refine hpair.runs (h.steady i).seeded hkept.ownerSeed hslot (fun k hk => ?_)
      (h.steady i).filled (h.steady i).filled_lt
    simpa [serviceOf] using Prog.wp_sound (runServe_noFault hk) run _ rfl

/-- Sealing puts the answer into the ledger, under a key the node keeps. -/
theorem Available.encrypt (h : w.Available P G) (hP : P.Lawful) {n : Nat} {plaintext : Bytes}
    {inst : Instance} {service : KmsService} {answer : Except (Failure KmsStatus) EncryptResponse}
    {tr : List (Event Cmd Cmd.Res)} (running : (w.nodes i).serves[n]? = some inst)
    (run : (inst.service.encrypt P plaintext).exec (nodeDevice P noFault) (w.machine i) es =
      some ((answer, service), m, tr)) :
    (((w.put i m).setService i n service).note i inst.started plaintext answer).Available P G := by
  have hput := h.benign (KmsService.encrypt_only (fun _ => Cmd.benign.calm) P inst.service plaintext
    fun _ => trivial) (KmsService.encrypt_only (fun _ => Cmd.benign.flushes) P _ _ fun _ => trivial)
    run
  obtain ⟨hservice, hr⟩ := Prog.wp_sound
    (inst.service.encrypt_wp hP (fun _ => rfl) plaintext) run
  dsimp only at hservice hr
  subst hservice
  rw [put_setService running]
  rcases hr with ⟨-, e, rfl⟩ | ⟨t, pub, priv, c, hsealed, rfl⟩
  · exact hput
  · refine ⟨hput.agreed, hput.steady, fun e he => ?_⟩
    rcases List.mem_cons.mp he with rfl | he
    · have hinst : inst ∈ ((w.put i m).nodes i).serves := by
        rw [nodes_put]
        exact List.mem_of_getElem? running
      obtain ⟨hkeyId, hkey⟩ := ((hput.steady i).serves inst hinst).1.seals hsealed.parent
      refine ⟨t, pub, priv, hsealed.decodes, ?_, (storageParent_eq_some.mp hsealed.parent).2, hkeyId,
        hkey⟩
      show m.ledger.findObject t pub priv = _
      rw [hsealed.ledger]
      exact Ledger.findObject_head
    · exact hput.held e he

theorem Available.decrypt (h : w.Available P G) {n : Nat} {keyId : String} {ciphertext : Bytes}
    {inst : Instance} {service : KmsService} {answer : Except (Failure KmsStatus) Bytes}
    {tr : List (Event Cmd Cmd.Res)} (running : (w.nodes i).serves[n]? = some inst)
    (run : (inst.service.decrypt P keyId ciphertext).exec (nodeDevice P noFault) (w.machine i) es =
      some ((answer, service), m, tr)) : ((w.put i m).setService i n service).Available P G := by
  have hnamed := ((h.steady i).serves inst (List.mem_of_getElem? running)).1.named
  obtain ⟨rfl, -⟩ := Prog.wp_sound (hnamed.decrypt_wp keyId ciphertext) run
  rw [put_setService running]
  exact h.calm (KmsService.decrypt_only (fun _ => Cmd.benign.calm) P _ keyId ciphertext
    fun _ _ => trivial) (Prog.wp_sound (inst.service.decrypt_kept keyId ciphertext _) run)
    (fun _ _ => not_false) run

theorem Available.enroll (h : w.Available P G) {r : Except FleetError EnrollService}
    {tr : List (Event Cmd Cmd.Res)}
    (run : runEnroll.run.exec (nodeDevice P noFault) (w.machine i) es = some (r, m, tr)) :
    ((w.put i m).modify i fun node => { node with enroll := r.toOption }).Available P G := by
  have hput := h.benign (runEnroll_only fun _ => Cmd.benign.calm)
    (runEnroll_only fun _ => Cmd.benign.flushes) run
  refine hput.modify (fun _ => rfl) (fun _ => rfl) ((hput.steady i).setEnroll ?_)
  intro service hservice
  obtain ⟨k, hk, -⟩ := Prog.wp_sound runEnroll_wp run service (eq_ok_of_toOption hservice)
  exact ⟨k, hk⟩

/-- An operation that issues no command. -/
theorem Available.idle (h : w.Available P G) : (w.put i (w.machine i)).Available P G :=
  h.put (Kept.refl (w.machine i) : Kept (fun _ => False) _ _) (fun _ hk => hk) (fun _ _ => not_false)
    (h.agreed.put_same rfl rfl).1

theorem Available.effect (h : w.Available P G) (hP : P.Lawful) {op : Op}
    (hallowed : Allowed G w ⟨i, op, es⟩) (heffect : Effect P noFault w i es op w') :
    w'.Available P G := by
  cases heffect with
  | genesis run =>
    obtain ⟨rfl, rfl⟩ := hallowed
    exact h.genesis run
  | status run =>
    exact h.benign (runStatus_only (fun _ => Cmd.benign.calm) P)
      (runStatus_only (fun _ => Cmd.benign.flushes) P) run
  | enroll run => exact h.enroll run
  | enrollStop =>
    exact h.idle.modify (fun _ => rfl) (fun _ => rfl)
      ((h.idle.steady i).setEnroll fun _ hservice => by cases hservice)
  | duplicate serving run => exact h.duplicate serving run
  | joinBegin idle run => exact h.joinBegin idle run
  | joinEnd pending run => exact h.joinEnd pending hallowed run
  | joinRejected =>
    exact h.idle.modify (fun _ => rfl) (fun _ => rfl) (h.idle.steady i).endJoin
  | serve run =>
    obtain rfl : _ = false := hallowed
    exact h.serve run
  | stop running run => exact h.stop running run
  | encrypt running run => exact h.encrypt hP running run
  | decrypt running run => exact h.decrypt running run

omit [DecidableEq ι] in
theorem Available.start {tpms : ι → Tpm} (hempty : ∀ i, (tpms i).slot = none)
    (hsrk : ∀ i, ((tpms i).ownerSeed srkPublic).isSome = true) :
    (World.start tpms).Available P G where
  agreed := ⟨fun i k hk => by simp [World.fleet, World.start, hempty] at hk,
    fun d hd => absurd hd List.not_mem_nil, fun r hr => absurd hr List.not_mem_nil⟩
  steady := fun i => ⟨hsrk i, by simp [World.start, hempty], fun t ht => (by cases ht),
    fun _ hinst => absurd hinst List.not_mem_nil, List.nodup_nil,
    fun _ hx => absurd hx List.not_mem_nil, fun _ hservice => by cases hservice⟩
  held := fun _ he => absurd he List.not_mem_nil

theorem Available.run (hP : P.Lawful) {tpms : ι → Tpm} {acts : List (ClusterAct ι)}
    (hempty : ∀ i, (tpms i).slot = none)
    (hsrk : ∀ i, ((tpms i).ownerSeed srkPublic).isSome = true)
    (hg : Along (World.step P noFault) (Allowed G) (World.start tpms) acts)
    (hr : runs (World.step P noFault) (World.start tpms) acts = some w) : w.Available P G :=
  runs_invariant (fun _ _ _ h hallowed hstep => h.effect hP hallowed (step_effect hstep))
    (Available.start hempty hsrk) hg hr

omit [DecidableEq ι] in
/-- The key of an answer, seen from a service that is to give it back. -/
theorem Available.keeps (h : w.Available P G) {e : Encrypted ι} {t pub : Public} {priv : Private}
    (hheld : e.HeldAs P w.ledger (w.nodes e.node) t pub priv) {j : ι} {started : Nat}
    (hcollide : ∀ i k, (w.nodes G).tpm.slot = some k →
      keyIdOf P (w.nodes i).tpm.srk ≠ keyIdOf P k)
    (hwho : (e.node = j ∧ e.started ≤ started) ∨
      ∃ k f, (w.nodes G).tpm.slot = some k ∧ e.response.keyId = keyIdOf P k ∧
        (w.nodes j).filled = some f ∧ f < started) :
    t = (w.nodes j).tpm.srk ∨
      (w.nodes j).tpm.slot = some t ∧ ∃ f, (w.nodes j).filled = some f ∧ f < started := by
  rcases hwho with ⟨rfl, hstarted⟩ | ⟨k, f, hG, hkeyId, hfilled, hlt⟩
  · rcases hheld.key with hsrk | ⟨hslot, f, hfilled, hlt⟩
    · exact .inl hsrk
    · exact .inr ⟨hslot, f, hfilled, Nat.lt_of_lt_of_le hlt hstarted⟩
  · -- the answer is the fleet key's, and all slots that are filled hold that key
    have hsame : ∀ i k', (w.nodes i).tpm.slot = some k' → k' = k := by
      intro i k' hk'
      exact Option.some.inj ((h.agreed.slots i k' hk').symm.trans hG)
    rcases hheld.key with rfl | ⟨hslot, -⟩
    · exact absurd (hheld.keyId.symm.trans hkeyId) (hcollide e.node k hG)
    · have hsome : (w.nodes j).tpm.slot.isSome = true := by
        rw [← (h.steady j).filled, hfilled]
        rfl
      obtain ⟨k', hk'⟩ := Option.isSome_iff_exists.mp hsome
      refine .inr ⟨?_, f, hfilled, hlt⟩
      rw [hk', hsame j k' hk', hsame e.node t hslot]

end World

/-- **No data encryption key is lost.** Nodes that start with empty slots, one of which runs genesis,
and any allowed run: what `Encrypt` has answered is given back by `Decrypt` on the same node, if the
service was started no earlier than the one that answered, and under the fleet key by every service
started after its node's slot was filled.

The identifiers of keys are eight bytes of a digest. That no SRK shares the fleet key's is assumed,
and no more: SRKs may share theirs. -/
theorem ciphertexts_available (hP : P.Lawful) {tpms : ι → Tpm} {acts : List (ClusterAct ι)}
    (hempty : ∀ i, (tpms i).slot = none)
    (hsrk : ∀ i, ((tpms i).ownerSeed srkPublic).isSome = true)
    (hg : Along (World.step P noFault) (World.Allowed G) (World.start tpms) acts)
    (hr : runs (World.step P noFault) (World.start tpms) acts = some w)
    (hcollide : ∀ i k, (w.nodes G).tpm.slot = some k →
      keyIdOf P (w.nodes i).tpm.srk ≠ keyIdOf P k)
    {e : Encrypted ι} (he : e ∈ w.encrypted) {j : ι} {n : Nat} {inst : Instance}
    (hinst : (w.nodes j).serves[n]? = some inst)
    (hwho : (e.node = j ∧ e.started ≤ inst.started) ∨
      ∃ k f, (w.nodes G).tpm.slot = some k ∧ e.response.keyId = keyIdOf P k ∧
        (w.nodes j).filled = some f ∧ f < inst.started) :
    (∃ es x m tr, (inst.service.decrypt P e.response.keyId e.response.ciphertext).exec
      (nodeDevice P noFault) (w.machine j) es = some (x, m, tr)) ∧
    ∀ es r service m tr, (inst.service.decrypt P e.response.keyId e.response.ciphertext).exec
      (nodeDevice P noFault) (w.machine j) es = some ((r, service), m, tr) → r = .ok e.plaintext := by
  refine ⟨KmsService.decrypt_total _ _ _ _, ?_⟩
  intro es r service m tr run
  have h := World.Available.run hP hempty hsrk hg hr
  obtain ⟨t, pub, priv, hheld⟩ := h.held e he
  obtain ⟨hruns, -⟩ := (h.steady j).serves inst (List.mem_of_getElem? hinst)
  obtain ⟨lock, hsel, hlock, hparent⟩ := Instance.Runs.selects (m := w.machine j) hruns hheld.storage
    (fun k hk => hcollide j k (h.agreed.slots j k hk)) (h.keeps hheld hcollide hwho)
  rw [← hheld.keyId] at hsel
  exact (Prog.wp_sound (KmsService.decrypt_noFault _ hsel hlock hheld.decodes hparent hheld.found)
    run).2

end Invariant

/-! Two nodes. `false` serves with its own key before `true` runs genesis; then it joins and serves
again. Its second service is asked for what its first one sealed and for what `true` has. -/

instance {ι : Type} [DecidableEq ι] (G : ι) (w : World ι) : DecidablePred (World.Allowed G w) := by
  intro act
  obtain ⟨i, op, es⟩ := act
  cases op with
  | genesis force => exact inferInstanceAs (Decidable (i = G ∧ force = false))
  | serve forceLegacy => exact inferInstanceAs (Decidable (forceLegacy = false))
  | joinEnd response =>
    cases response with
    | some response => exact inferInstanceAs (Decidable (response ∈ w.responses))
    | none => exact .isTrue trivial
  | _ => exact .isTrue trivial

/-- Each derives an SRK of its own, and draws every other primary key. -/
def seededTpm (i : Bool) : Tpm where
  ownerSeed template := if template = srkPublic then some [if i then 1 else 2] else none

def beforeJoin : List (ClusterAct Bool) :=
  let unfilled := List.replicate 3 (performed 1) ++ [.fail (.rc 0x18b)]
  [⟨false, .serve false, unfilled ++ List.replicate 7 (performed 1)⟩,
    ⟨false, .encrypt 0 [1, 2, 3], List.replicate 4 (performed 2)⟩,
    ⟨true, .genesis false, unfilled ++ List.replicate 14 (performed 5)⟩,
    ⟨true, .serve false, List.replicate 15 (performed 1)⟩,
    ⟨true, .encrypt 0 [4, 5], List.replicate 4 (performed 6)⟩]

def joinAndServe : List (ClusterAct Bool) :=
  [⟨true, .enroll, List.replicate 5 (performed 1)⟩,
    ⟨false, .joinBegin "seed" "/var/lib/k0s",
      List.replicate 14 (performed 9) ++ [.file (some []), .file (some []), .io true]⟩,
    ⟨true, .duplicate memberRequest, [.counter 1, .io true, .io true] ++
      List.replicate 11 (performed 7) ++ [.io true, .io true]⟩,
    ⟨false, .joinEnd (some seedResponse), List.replicate 7 (performed 11) ++
      .fail (.rc 0x18b) :: List.replicate 9 (performed 11)⟩,
    ⟨false, .serve false, List.replicate 15 (performed 1)⟩]

theorem ciphertexts_available_of_two :
    ∃ (w : World Bool) (inst : Instance),
      runs (World.step .plain noFault) (World.start seededTpm) (beforeJoin ++ joinAndServe) =
        some w ∧
      (w.nodes false).serves[1]? = some inst ∧
      w.encrypted.map (fun e => (e.node, e.plaintext)) = [(true, [4, 5]), (false, [1, 2, 3])] ∧
      ∀ e ∈ w.encrypted,
        (∃ es x m tr, (inst.service.decrypt .plain e.response.keyId e.response.ciphertext).exec
          (nodeDevice .plain noFault) (w.machine false) es = some (x, m, tr)) ∧
        ∀ es r service m tr,
          (inst.service.decrypt .plain e.response.keyId e.response.ciphertext).exec
            (nodeDevice .plain noFault) (w.machine false) es = some ((r, service), m, tr) →
          r = .ok e.plaintext := by
  have hg : Along (World.step .plain noFault) (World.Allowed true) (World.start seededTpm)
      (beforeJoin ++ joinAndServe) := by
    decide +kernel
  have hall : ((runs (World.step .plain noFault) (World.start seededTpm)
      (beforeJoin ++ joinAndServe)).bind fun w => (w.nodes false).serves[1]?.map fun inst =>
        (w.encrypted.map (fun e => (e.node, e.plaintext)), (w.nodes false).filled,
          (w.nodes true).tpm.slot, decide (8 < inst.started ∧
            (∀ i, keyIdOf .plain (w.nodes i).tpm.srk ≠ keyIdOf .plain someFleetKey) ∧
            ∀ e ∈ w.encrypted, (e.node = false ∧ e.started ≤ inst.started) ∨
              e.response.keyId = keyIdOf .plain someFleetKey))) =
      some ([(true, [4, 5]), (false, [1, 2, 3])], some 8, some someFleetKey, true) := by
    decide +kernel
  obtain ⟨w, hrun, hall⟩ := Option.bind_eq_some_iff.mp hall
  obtain ⟨inst, hinst, hall⟩ := Option.map_eq_some_iff.mp hall
  simp only [Prod.mk.injEq, decide_eq_true_eq] at hall
  obtain ⟨hencrypted, hfilled, hslot, hstarted, hcollide, hwho⟩ := hall
  refine ⟨w, inst, hrun, hinst, hencrypted, ?_⟩
  intro e he
  refine ciphertexts_available Platform.plain_lawful (fun _ => rfl) (fun _ => ?_) hg hrun ?_ he hinst ?_
  · simp [seededTpm]
  · intro i k hk
    obtain rfl := Option.some.inj (hslot.symm.trans hk)
    exact hcollide i
  · rcases hwho e he with hown | hfleet
    · exact .inl hown
    · exact .inr ⟨someFleetKey, 8, hslot, hfleet, hfilled, hstarted⟩

end Sceau
