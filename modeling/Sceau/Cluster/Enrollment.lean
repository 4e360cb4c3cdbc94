import Sceau.Cluster.Availability
import Sceau.Node.Enrolling

/-!
# Enrollment completes

What an operator relies on when they start `enroll` on one node and `join` on another: if the request
is not turned away, the join ends with the seed's key in its slot. Whatever else the cluster did
before, and does between the seed's answer and the end of the join, does not matter.

Beside `Available` this takes an invariant of its own. The key in a slot is one that can be
duplicated, an enroll process has the handle of the key that is in the slot, and a join that waits has
its transport key loaded, and has sent that key and no other. The answer itself stays good because
what is on record stays on record.
-/

set_option autoImplicit false

namespace Sceau

open Lib

/-! ## What is on record stays on record -/

section Records

variable {P : Platform} {faults : TpmCmd → Bool} {m m' : Machine} {l : Ledger}

/-- A duplicate is new by its bytes, so it is in nobody's way. -/
theorem Ledger.findDup_cons {d d' : Duplicated} {ek : Option Data} {priv : Private}
    {secret : EncryptedSecret} (hfresh : l.findDup (some d.encryptionKey) d.priv d.secret = none)
    (h : l.findDup ek priv secret = some d') :
    ({ l with dups := d :: l.dups } : Ledger).findDup ek priv secret = some d' := by
  have hother : ¬ (some d.encryptionKey = ek ∧ d.priv = priv ∧ d.secret = secret) := by
    rintro ⟨rfl, rfl, rfl⟩
    cases hfresh.symm.trans h
  unfold findDup
  rw [List.find?_cons_of_neg (by simpa using hother)]
  exact h

theorem nodeDevice_findDup {c : Cmd} {e : Choice} {r : c.Res}
    (h : nodeDevice P faults c m e = some (r, m')) {ek : Option Data} {priv : Private}
    {secret : EncryptedSecret} {d : Duplicated} (hd : m.ledger.findDup ek priv secret = some d) :
    m'.ledger.findDup ek priv secret = some d := by
  by_cases hquiet : c.quiet TpmCmd.duplicates
  · have hdups := nodeDevice_dups hquiet h
    unfold Ledger.findDup
    rwa [hdups]
  · cases c with
    | tpm ctx c =>
      rcases tpmStep_cases h with ⟨-, -, -, rfl⟩ | ⟨a, hp, -⟩
      · exact hd
      cases c with
      | duplicate _ _ _ =>
        obtain ⟨k, t, -, -, hfresh, rfl⟩ := performs_duplicate hp
        exact Ledger.findDup_cons hfresh hd
      | _ => exact absurd rfl hquiet
    | _ => exact absurd trivial hquiet

theorem answers_moves {α : Type} (p : Code α) (k t : Public) (response : DuplicateResponse) :
    p.Moves (nodeDevice P faults) fun m m' =>
      m.ledger.Answers P k t response → m'.ledger.Answers P k t response := by
  induction p with
  | ret a => exact fun _ h => h
  | call c rest ih =>
    intro m e r m₁ hd
    refine Prog.wp_mono ?_ (ih r m₁)
    intro _ _ m₂ hlater h
    exact hlater ⟨h.key, h.has, nodeDevice_findDup hd h.found⟩

end Records

/-! ## One node -/

namespace Node

variable {P : Platform} {node : Node} {gone : Nat → Prop} {l : Ledger} {m : Machine} {clock : Nat}

/-- The node can take either part in an enrollment. -/
structure Enrollable (P : Platform) (node : Node) : Prop where
  fits : node.tpm.Fits P
  made : ∀ k, node.tpm.slot = some k → k.Duplicable P
  join : ∀ join ∈ node.join, ∃ id t, join.Carries P node.tpm id t
  enroll : ∀ service ∈ node.enroll, ∃ k, service.fleetKeyHandle = .persistent k ∧
    node.tpm.slot = some k

/-- The machine moves on, and what the join has loaded is not flushed. -/
theorem Enrollable.put (h : node.Enrollable P) (hkept : Kept gone ⟨node.tpm, l⟩ m)
    (hslot : ∀ k, node.tpm.slot = some k → m.tpm.slot = some k)
    (hmade : ∀ k, m.tpm.slot = some k → k.Duplicable P)
    (hgone : ∀ join ∈ node.join, ∀ id, join.transportHandle.transientId = some id → ¬ gone id) :
    (node.put clock m.tpm).Enrollable P where
  fits := h.fits.later hkept.ownerSeed
  made := hmade
  join := by
    intro join hjoin
    obtain ⟨id, t, hcarries⟩ := h.join join hjoin
    have hid : join.transportHandle.transientId = some id := congrArg Handle.transientId hcarries.handle
    exact ⟨id, t, hcarries.made, hcarries.handle,
      hkept.objects _ hcarries.loaded (hgone join hjoin id hid), hcarries.asks⟩
  enroll := by
    intro service hservice
    obtain ⟨k, hhandle, hk⟩ := h.enroll service hservice
    exact ⟨k, hhandle, hslot k hk⟩

/-- The same, where the slot is left alone and nothing that was loaded is flushed. -/
theorem Enrollable.put_same (h : node.Enrollable P) (hkept : Kept (fun _ => False) ⟨node.tpm, l⟩ m)
    (hslot : m.tpm.slot = node.tpm.slot) : (node.put clock m.tpm).Enrollable P := by
  refine h.put hkept (fun k hk => hslot.trans hk) (fun k hk => ?_) fun _ _ _ _ => not_false
  exact h.made k (hslot.symm.trans hk)

theorem Enrollable.endJoin (h : node.Enrollable P) :
    ({ node with join := none } : Node).Enrollable P :=
  ⟨h.fits, h.made, fun _ hjoin => (by cases hjoin), h.enroll⟩

end Node

/-! ## The invariant -/

section Invariant

variable {ι : Type} [DecidableEq ι] {P : Platform} {G i j : ι} {w w' : World ι} {m : Machine}
  {es : List Choice}

namespace World

def Enrollable (P : Platform) (w : World ι) : Prop := ∀ i, (w.nodes i).Enrollable P

theorem Enrollable.put (h : w.Enrollable P)
    (hi : ((w.nodes i).put w.clock m.tpm).Enrollable P) : (w.put i m).Enrollable P :=
  forall_put (C := fun _ node => node.Enrollable P) h fun _ => hi

/-- A change of the processes of a node, after its operation. -/
theorem Enrollable.modify (h : w.Enrollable P) {f : Node → Node}
    (hi : (f ((w.nodes i).put w.clock m.tpm)).Enrollable P) :
    ((w.put i m).modify i f).Enrollable P := by
  intro j
  by_cases hj : j = i
  · subst hj
    have hnode : ((w.put j m).modify j f).nodes j = f ((w.put j m).nodes j) := by
      simp [World.modify, World.setNode]
    rwa [hnode, nodes_put]
  · have hnode : ((w.put i m).modify i f).nodes j = w.nodes j := by
      simp [World.modify, World.put, World.setNode, hj]
    rw [hnode]
    exact h j

omit [DecidableEq ι] in
/-- An operation that moves no slot and flushes nothing that was loaded. -/
theorem Enrollable.benign (h : w.Enrollable P) {α : Type} {p : Code α} {a : α}
    {tr : List (Event Cmd Cmd.Res)} (hp : p.Only Cmd.calm)
    (hflush : p.Only (Cmd.Flushes fun _ => False))
    (run : p.exec (nodeDevice P noFault) (w.machine i) es = some (a, m, tr)) :
    ((w.nodes i).put w.clock m.tpm).Enrollable P :=
  (h i).put_same (Prog.wp_sound (kept_of_only hflush _) run)
    (Prog.wp_sound (calm_of_only hp _) run).1

theorem Enrollable.genesis (h : w.Enrollable P) {r : Except AnyError Unit}
    {tr : List (Event Cmd Cmd.Res)}
    (run : (runGenesis false).run.exec (nodeDevice P noFault) (w.machine i) es = some (r, m, tr)) :
    (w.put i m).Enrollable P := by
  have hkept : Kept (fun _ => False) (w.machine i) m := Prog.wp_sound (kept_of_only
    (runGenesis_only (fun _ => Cmd.benign.flushes) false fun _ _ _ => trivial) _) run
  apply h.put
  rcases Prog.wp_sound (runGenesis_slot (m := w.machine i) (h i).fits) run with
    hsame | ⟨hnone, k, hfilled, hk⟩
  · exact (h i).put_same hkept hsame
  · refine (h i).put hkept (fun k' hk' => ?_) (fun k' hk' => ?_) fun _ _ _ _ => not_false
    · cases hnone.symm.trans hk'
    · rwa [← Option.some.inj (hfilled.symm.trans hk')]

theorem Enrollable.duplicate (h : w.Enrollable P) {service : EnrollService} {request : Request}
    {answer : Except Status DuplicateResponse} {tr : List (Event Cmd Cmd.Res)}
    (run : (service.duplicate P request).exec (nodeDevice P noFault) (w.machine i) es =
      some (answer, m, tr)) : (w.put i m).Enrollable P := by
  have hslot := Prog.wp_sound (slot_of_only
    (duplicate_only P service request (fun _ => Cmd.benign.slot) (fun _ => trivial) trivial trivial
      (fun _ _ => rfl) (fun _ _ => rfl) trivial trivial trivial) _) run
  exact h.put ((h i).put_same (Prog.wp_sound (service.duplicate_kept request _) run) hslot)

theorem Enrollable.joinBegin (h : w.Enrollable P) {seed k0sDataDir : String}
    {r : Except JoinError PendingJoin} {tr : List (Event Cmd Cmd.Res)}
    (run : (joinRequest P seed k0sDataDir).run.exec (nodeDevice P noFault) (w.machine i) es =
      some (r, m, tr)) :
    ((w.put i m).modify i fun node => { node with join := r.toOption }).Enrollable P := by
  have hput := h.benign
    (joinRequest_only (fun _ => Cmd.benign.calm) P _ _ (fun _ => trivial) fun _ => trivial)
    (joinRequest_only (fun _ => Cmd.benign.flushes) P _ _ (fun _ => trivial) fun _ => trivial) run
  refine h.modify ⟨hput.fits, hput.made, fun join hjoin => ?_, hput.enroll⟩
  exact Prog.wp_sound (joinRequest_carries (m := w.machine i) (h i).fits) run join
    (eq_ok_of_toOption hjoin)

/-- A join that ends flushes its own transport key, and nothing is asked of that any more. -/
theorem Enrollable.joinEnd (h : w.Enrollable P) (havailable : w.Available P G) {join : PendingJoin}
    {response : DuplicateResponse} {r : Except JoinError Unit} {tr : List (Event Cmd Cmd.Res)}
    (hresponse : response ∈ w.responses)
    (run : (joinFinish P join response).run.exec (nodeDevice P noFault) (w.machine i) es =
      some (r, m, tr)) :
    ((w.put i m).modify i fun node => { node with join := none }).Enrollable P := by
  have hkept := Prog.wp_sound (kept_of_only (joinFinish_only (fun _ => Cmd.benign.flushes) P join
    response (fun _ _ _ => trivial) (fun _ _ _ _ _ => trivial)
    fun ctx => join.transportHandle.flushes_transientId ctx) _) run
  have hslot := havailable.joinEnd_slot hresponse run
  apply h.modify
  refine (h i).endJoin.put hkept (fun k hk => ?_) (fun k hk => ?_) fun _ hjoin => by cases hjoin
  · rcases hslot with hsame | ⟨k', hfilled, hG⟩
    · exact hsame.trans hk
    · have hGk := havailable.agreed.slots i k hk
      rw [hfilled, ← hG, hGk]
  · rcases hslot with hsame | ⟨k', hfilled, hG⟩
    · exact (h i).made k (hsame.symm.trans hk)
    · rw [← Option.some.inj (hfilled.symm.trans hk)]
      exact (h G).made k' hG

/-- A service that stops flushes its SRK, which is not the transport key. -/
theorem Enrollable.stop (h : w.Enrollable P) (havailable : w.Available P G) {n : Nat}
    {inst : Instance} {tr : List (Event Cmd Cmd.Res)}
    (running : (w.nodes i).serves[n]? = some inst)
    (run : inst.service.drop.exec (nodeDevice P noFault) (w.machine i) es = some ((), m, tr)) :
    ((w.put i m).modify i fun node =>
      { node with serves := node.serves.eraseIdx n }).Enrollable P := by
  have hsteady := havailable.steady i
  have hflush := (hsteady.serves inst (List.mem_of_getElem? running)).1.drop_flushes
  have hcalm : inst.service.drop.Only Cmd.calm := KmsService.drop_only (fun _ => Cmd.benign.calm) _
    (fun _ => trivial) fun _ _ _ => trivial
  have hslot := (Prog.wp_sound (calm_of_only hcalm _) run).1
  have hput : ((w.nodes i).put w.clock m.tpm).Enrollable P := by
    refine (h i).put (Prog.wp_sound (kept_of_only hflush _) run) (fun k hk => hslot.trans hk)
      (fun k hk => (h i).made k (hslot.symm.trans hk)) fun join hjoin id hid hgone => ?_
    apply hsteady.not_mem_eraseServe running
    rw [hgone, ← hid]
    exact List.mem_append_left _ (by simp [Option.mem_def.mp hjoin])
  exact h.modify ⟨hput.fits, hput.made, hput.join, hput.enroll⟩

theorem Enrollable.enroll (h : w.Enrollable P) {r : Except FleetError EnrollService}
    {tr : List (Event Cmd Cmd.Res)}
    (run : runEnroll.run.exec (nodeDevice P noFault) (w.machine i) es = some (r, m, tr)) :
    ((w.put i m).modify i fun node => { node with enroll := r.toOption }).Enrollable P := by
  have hslot := (Prog.wp_sound (calm_of_only (runEnroll_only fun _ => Cmd.benign.calm) _) run).1
  have hput := h.benign (runEnroll_only fun _ => Cmd.benign.calm)
    (runEnroll_only fun _ => Cmd.benign.flushes) run
  refine h.modify ⟨hput.fits, hput.made, hput.join, fun service hservice => ?_⟩
  obtain ⟨k, hhandle, hk⟩ := Prog.wp_sound runEnroll_wp run service (eq_ok_of_toOption hservice)
  exact ⟨k, hhandle, hslot.trans hk⟩

omit [DecidableEq ι] in
theorem Enrollable.note (h : w.Enrollable P) (started : Nat) (plaintext : Bytes)
    (answer : Except (Failure KmsStatus) EncryptResponse) :
    (w.note i started plaintext answer).Enrollable P := by
  cases answer <;> exact h

theorem Enrollable.effect (h : w.Enrollable P) (havailable : w.Available P G) {op : Op}
    (hallowed : Allowed G w ⟨i, op, es⟩) (heffect : Effect P noFault w i es op w') :
    w'.Enrollable P := by
  have hidle : ((w.nodes i).put w.clock (w.machine i).tpm).Enrollable P :=
    (h i).put_same (Kept.refl (w.machine i)) rfl
  cases heffect with
  | genesis run =>
    obtain ⟨rfl, rfl⟩ := hallowed
    exact h.genesis run
  | status run =>
    exact h.put (h.benign (runStatus_only (fun _ => Cmd.benign.calm) P)
      (runStatus_only (fun _ => Cmd.benign.flushes) P) run)
  | enroll run => exact h.enroll run
  | enrollStop => exact h.modify ⟨hidle.fits, hidle.made, hidle.join, fun _ hs => by cases hs⟩
  | duplicate serving run => exact h.duplicate run
  | joinBegin idle run => exact h.joinBegin run
  | joinEnd pending run => exact h.joinEnd havailable hallowed run
  | joinRejected => exact h.modify hidle.endJoin
  | serve run =>
    have hput := h.benign (runServe_only (fun _ => Cmd.benign.calm) P _)
      (runServe_only (fun _ => Cmd.benign.flushes) P _) run
    exact h.modify ⟨hput.fits, hput.made, hput.join, hput.enroll⟩
  | stop running run => exact h.stop havailable running run
  | encrypt running run =>
    have hput := h.benign
      (KmsService.encrypt_only (fun _ => Cmd.benign.calm) P _ _ fun _ => trivial)
      (KmsService.encrypt_only (fun _ => Cmd.benign.flushes) P _ _ fun _ => trivial) run
    exact Enrollable.note (h.modify ⟨hput.fits, hput.made, hput.join, hput.enroll⟩) _ _ _
  | @decrypt n keyId ciphertext inst service answer m tr running run =>
    have hslot := (Prog.wp_sound (calm_of_only (KmsService.decrypt_only (fun _ => Cmd.benign.calm) P
      inst.service keyId ciphertext fun _ _ => trivial) _) run).1
    have hput : ((w.nodes i).put w.clock m.tpm).Enrollable P :=
      (h i).put_same (Prog.wp_sound (inst.service.decrypt_kept keyId ciphertext _) run) hslot
    exact h.modify ⟨hput.fits, hput.made, hput.join, hput.enroll⟩

/-- Every operation is a run of some program on its node: what is on record stays there. -/
theorem Effect.answers {op : Op} (heffect : Effect P noFault w i es op w') {k t : Public}
    {response : DuplicateResponse} (h : w.ledger.Answers P k t response) :
    w'.ledger.Answers P k t response := by
  cases heffect with
  | genesis run | status run | enroll run | duplicate _ run | joinBegin _ run | joinEnd _ run
  | serve run | stop _ run | decrypt _ run => exact Prog.wp_sound (answers_moves _ k t response _) run h
  | @encrypt n plaintext inst service answer m tr running run =>
    cases answer <;> exact Prog.wp_sound (answers_moves _ k t response _) run h
  | enrollStop => exact h
  | joinRejected => exact h

omit [DecidableEq ι] in
theorem Enrollable.start {tpms : ι → Tpm} (hempty : ∀ i, (tpms i).slot = none)
    (hfits : ∀ i, (tpms i).Fits P) : (World.start tpms).Enrollable P := by
  intro i
  refine ⟨hfits i, fun k hk => ?_, fun _ hjoin => (by cases hjoin), fun _ hs => (by cases hs)⟩
  cases (hempty i).symm.trans hk

theorem Enrollable.run (hP : P.Lawful) {acts : List (ClusterAct ι)} (h : w.Enrollable P)
    (havailable : w.Available P G) (hg : Along (World.step P noFault) (Allowed G) w acts)
    (hr : runs (World.step P noFault) w acts = some w') : w'.Available P G ∧ w'.Enrollable P :=
  runs_invariant (I := fun w => w.Available P G ∧ w.Enrollable P)
    (fun _ _ _ hI hallowed hstep => ⟨hI.1.effect hP hallowed (step_effect hstep),
      hI.2.effect hI.1 hallowed (step_effect hstep)⟩) ⟨havailable, h⟩ hg hr

/-- The seed's answer has been sent. -/
def answered (w : World ι) (j : ι) (m : Machine) (response : DuplicateResponse) : World ι :=
  { w.put j m with responses := response :: w.responses }

/-- The join can be ended with this response, and however it is ended it succeeds and leaves `k` in
the slot. -/
def Joins (P : Platform) (w : World ι) (i : ι) (join : PendingJoin) (response : DuplicateResponse)
    (k : Public) : Prop :=
  (∃ es x m tr, (joinFinish P join response).run.exec (nodeDevice P noFault) (w.machine i) es =
    some (x, m, tr)) ∧
  ∀ es r m tr, (joinFinish P join response).run.exec (nodeDevice P noFault) (w.machine i) es =
    some (r, m, tr) → r = .ok () ∧ m.tpm.slot = some k

omit [DecidableEq ι] in
/-- A response that is on record for the key a join has sent is all the join needs. -/
theorem Enrollable.joins (h : w.Enrollable P) (hP : P.Lawful) {join : PendingJoin}
    (hjoin : (w.nodes i).join = some join) {k t : Public} {response : DuplicateResponse}
    (ht : P.unmarshall join.request.joinerTransportPublic = some t)
    (hanswers : w.ledger.Answers P k t response) (hfits : response.Fits P) :
    w.Joins P i join response k := by
  obtain ⟨id, t', hcarries⟩ := (h i).join join hjoin
  obtain rfl := Option.some.inj ((hcarries.unmarshall hP).symm.trans ht)
  refine ⟨joinFinish_total join response _, fun es r m tr run => ?_⟩
  exact Prog.wp_sound (joinFinish_completes (m := w.machine i) hcarries hanswers hfits) run

end World

/-- **Enrollment completes.** A join is pending on one node, and another node's `enroll` is asked for
what the join has sent. The seed gives an answer, and unless it turned the request away the answer is
a response: with it the join succeeds and puts the seed's key into its slot, whatever the cluster has
done before and does in between.

The two sizes are the platform's: a key's public part fits its buffer on every TPM, and a response
that does not fit the joiner's is an error of the decoder. -/
theorem enrollment_completes (hP : P.Lawful) {tpms : ι → Tpm} {acts : List (ClusterAct ι)}
    (hempty : ∀ i, (tpms i).slot = none)
    (hsrk : ∀ i, ((tpms i).ownerSeed srkPublic).isSome = true) (hfits : ∀ i, (tpms i).Fits P)
    (hg : Along (World.step P noFault) (World.Allowed G) (World.start tpms) acts)
    (hr : runs (World.step P noFault) (World.start tpms) acts = some w)
    {join : PendingJoin} (hjoin : (w.nodes i).join = some join)
    {service : EnrollService} (hservice : (w.nodes j).enroll = some service)
    {request : Request} (hrequest : request.message = join.request) :
    (∃ es x m tr, (service.duplicate P request).exec (nodeDevice P noFault) (w.machine j) es =
      some (x, m, tr)) ∧
    ∀ es answer m tr, (service.duplicate P request).exec (nodeDevice P noFault) (w.machine j) es =
        some (answer, m, tr) →
      TurnedAway P request tr ∨
      ∃ response k, answer = .ok response ∧ (w.nodes j).tpm.slot = some k ∧
        (response.Fits P → ∀ (acts' : List (ClusterAct ι)) (w' : World ι),
          Along (World.step P noFault) (World.Allowed G) (w.answered j m response) acts' →
          runs (World.step P noFault) (w.answered j m response) acts' = some w' →
          (w'.nodes i).join = some join → w'.Joins P i join response k) := by
  refine ⟨service.duplicate_total request _, fun es answer m tr run => ?_⟩
  have havailable := World.Available.run hP hempty hsrk hg hr
  obtain ⟨-, h⟩ := (World.Enrollable.start hempty hfits).run hP (World.Available.start hempty hsrk)
    hg hr
  obtain ⟨id, t, hcarries⟩ := (h i).join join hjoin
  obtain ⟨k, hhandle, hk⟩ := (h j).enroll service hservice
  have ht : P.unmarshall join.request.joinerTransportPublic = some t := hcarries.unmarshall hP
  have hasked : P.unmarshall request.message.joinerTransportPublic = some t := by
    rw [hrequest]
    exact ht
  have hduplicate := service.duplicate_noFault (m := w.machine j) hP ((h j).made k hk) hk hhandle
    hasked
  rcases Prog.wp_sound hduplicate run with haway | ⟨response, rfl, hanswers⟩
  · exact .inl haway
  · refine .inr ⟨response, k, rfl, hk, fun hresponse acts' w' hg' hr' hjoin' => ?_⟩
    -- the world the seed's operation leaves, and every world after it
    have hfirst : (w.answered j m response).Available P G := havailable.duplicate hservice run
    have hfirst' : (w.answered j m response).Enrollable P := h.duplicate run
    obtain ⟨-, hlast⟩ := hfirst'.run hP hfirst hg' hr'
    have hstill : w'.ledger.Answers P k t response :=
      runs_invariant (I := fun w => w.ledger.Answers P k t response)
        (fun _ _ _ hI _ hstep => (World.step_effect hstep).answers hI) hanswers hg' hr'
    exact hlast.joins hP hjoin' ht hstill hresponse

end Invariant

/-! Two nodes: `true` has run genesis and `enroll`, `false` has begun to join. -/

theorem seededTpm_fits (i : Bool) : (seededTpm i).Fits .plain := by
  intro template u hu
  simp only [seededTpm] at hu
  split at hu
  · obtain rfl := Option.some.inj hu
    show 1 ≤ 256
    decide
  · cases hu

def beforeAnswer : List (ClusterAct Bool) := beforeJoin ++ joinAndServe.take 2

def seedChoices : List Choice :=
  [.counter 1, .io true, .io true] ++ List.replicate 11 (performed 7) ++ [.io true, .io true]

theorem enrollment_completes_of_two :
    ∃ (w : World Bool) (join : PendingJoin) (service : EnrollService) (m : Machine)
        (tr : List (Event Cmd Cmd.Res)),
      runs (World.step .plain noFault) (World.start seededTpm) beforeAnswer = some w ∧
      (w.nodes false).join = some join ∧ (w.nodes true).enroll = some service ∧
      (service.duplicate .plain memberRequest).exec (nodeDevice .plain noFault) (w.machine true)
        seedChoices = some (.ok seedResponse, m, tr) ∧
      (w.answered true m seedResponse).Joins .plain false join seedResponse someFleetKey := by
  have hg : Along (World.step .plain noFault) (World.Allowed true) (World.start seededTpm)
      beforeAnswer := by
    decide +kernel
  have hall : ((runs (World.step .plain noFault) (World.start seededTpm) beforeAnswer).bind fun w =>
      (w.nodes false).join.bind fun join => (w.nodes true).enroll.bind fun service =>
        ((service.duplicate .plain memberRequest).exec (nodeDevice .plain noFault) (w.machine true)
          seedChoices).map fun x =>
            (decide (memberRequest.message = join.request), x.1.toOption, x.2.2.any turnsAway,
              (w.nodes true).tpm.slot)) =
      some (true, some seedResponse, false, some someFleetKey) := by
    decide +kernel
  obtain ⟨w, hrun, hall⟩ := Option.bind_eq_some_iff.mp hall
  obtain ⟨join, hjoin, hall⟩ := Option.bind_eq_some_iff.mp hall
  obtain ⟨service, hservice, hall⟩ := Option.bind_eq_some_iff.mp hall
  obtain ⟨⟨answer, m, tr⟩, hexec, hall⟩ := Option.map_eq_some_iff.mp hall
  simp only [Prod.mk.injEq, decide_eq_true_eq] at hall
  obtain ⟨hrequest, hanswer, hkept, hslot⟩ := hall
  obtain rfl := World.eq_ok_of_toOption hanswer
  refine ⟨w, join, service, m, tr, hrun, hjoin, hservice, hexec, ?_⟩
  have hcompletes := (enrollment_completes Platform.plain_lawful (fun _ => rfl)
    (fun _ => by simp [seededTpm]) seededTpm_fits hg hrun hjoin hservice hrequest).2 _ _ _ _ hexec
  rcases hcompletes with (⟨status, hbad⟩ | ⟨ev, hev, haway⟩) | ⟨response, k, hok, hk, hjoins⟩
  · have hgood : (EnrollService.requestedNode .plain memberRequest).toOption.isSome = true := by
      decide +kernel
    rw [hbad] at hgood
    cases hgood
  · rw [List.any_eq_false] at hkept
    exact absurd haway (hkept ev hev)
  · obtain rfl := Except.ok.inj hok
    obtain rfl := Option.some.inj (hslot.symm.trans hk)
    exact hjoins ⟨by decide, by decide, by decide⟩ [] _ trivial rfl hjoin

end Sceau
