import Sceau.Cluster.World
import Sceau.Node.Rules
import Sceau.Enroll.Window

/-!
# What `Decrypt` returns was once encrypted

The operations of a cluster in any order, forced or not, with responses from anywhere and requests
of any bytes. Sealed data comes into being in one place only, the `TPM2_Create` of `seal`, and what
`Encrypt` answers then is the `key_id` of the key it was created under. So the invariant is about
the ledger: all the data in it has been answered for. `Decrypt` adds that it loads under the key its
`key_id` names and under no other.

Any command may fail for no reason but `TPM2_FlushContext`, which by its specification fails only
where there is nothing to flush. If it could, an `Encrypt` might fail after its object was created.
-/

set_option autoImplicit false

namespace Sceau

open Lib

/-! ## Only sealing seals -/

section Sealing

variable {P : Platform} {faults : TpmCmd → Bool} {m m' : Machine}

/-- All the data sealed in the second ledger is sealed in the first. -/
def SealsNothing (P : Platform) (m m' : Machine) : Prop :=
  ∀ k d, m'.ledger.Sealed P k d → m.ledger.Sealed P k d

theorem SealsNothing.of_ledger (h : m'.ledger = m.ledger) : SealsNothing P m m' := by
  intro k d hs
  rwa [h] at hs

theorem nodeDevice_sealed {c : Cmd} (hc : c.quiet TpmCmd.creates) {e : Choice} {r : c.Res}
    (h : nodeDevice P faults c m e = some (r, m')) : SealsNothing P m m' := by
  have hframe := nodeDevice_frame h
  cases c with
  | tpm ctx c =>
    cases c with
    | create _ _ _ => cases hc
    | duplicate _ _ _ =>
      rcases tpmStep_cases h with ⟨-, -, -, rfl⟩ | ⟨a, hp, -⟩
      · exact .of_ledger rfl
      · obtain ⟨-, -, -, -, -, rfl⟩ := performs_duplicate hp
        exact fun k d hs => hs
    | «import» _ _ _ _ _ _ =>
      rcases tpmStep_cases h with ⟨-, -, -, rfl⟩ | ⟨a, hp, -⟩
      · exact .of_ledger rfl
      · obtain ⟨t, -, -, -, rfl⟩ := performs_import hp
        -- what an import adds is a key
        intro k d hs
        obtain ⟨o, ho, hkey, hdata⟩ := hs
        rcases List.mem_cons.mp ho with rfl | ho
        · cases hdata
        · exact ⟨o, ho, hkey, hdata⟩
    | _ => exact .of_ledger (hframe.ledger rfl)
  | _ => exact .of_ledger (hframe.ledger trivial)

theorem sealsNothing_of_only {α : Type} {p : Code α} (hp : p.Only (Cmd.quiet TpmCmd.creates))
    {es : List Choice} {a : α} {tr : List (Event Cmd Cmd.Res)}
    (h : p.exec (nodeDevice P faults) m es = some (a, m', tr)) : SealsNothing P m m' :=
  Prog.wp_sound (Prog.Only.moves (nodeDevice P faults) (fun _ _ _ hs => hs)
    (fun _ _ _ h₁ h₂ k d hs => h₁ k d (h₂ k d hs))
    (fun _ _ _ _ _ hc hd => nodeDevice_sealed hc hd) hp m) h

end Sealing

/-! ## The invariant -/

section Invariant

variable {ι : Type} {P : Platform} {faults : TpmCmd → Bool}

/-- Every service on the node names its keys. -/
def Node.Named (P : Platform) (node : Node) : Prop := ∀ inst ∈ node.serves, inst.service.Named P

structure World.Sound (P : Platform) (w : World ι) : Prop where
  named : ∀ i, (w.nodes i).Named P
  answered : ∀ k d, w.ledger.Sealed P k d →
    ∃ e ∈ w.encrypted, e.response.keyId = k ∧ e.plaintext = d

variable [DecidableEq ι] {w w' : World ι} {i : ι} {es : List Choice}

namespace World

/-- An operation that seals nothing. -/
theorem Sound.put {m : Machine} (h : w.Sound P) (hm : SealsNothing P (w.machine i) m) :
    (w.put i m).Sound P :=
  ⟨forall_put (C := fun _ => Node.Named P) h.named id, fun k d hs => h.answered k d (hm k d hs)⟩

/-- A change of what runs on a node, to services that name their keys. -/
theorem Sound.modify (h : w.Sound P) {f : Node → Node}
    (hf : ∀ node : Node, node.Named P → (f node).Named P) : (w.modify i f).Sound P :=
  ⟨forall_modify (C := fun _ => Node.Named P) h.named hf, h.answered⟩

/-- Sealing puts one object into the ledger, under the key whose `key_id` is answered. -/
theorem Sound.encrypt (h : w.Sound P) (hP : P.Lawful)
    (hflush : ∀ h, faults (.flushContext h) = false) {n : Nat} {plaintext : Bytes}
    {inst : Instance} {service : KmsService} {answer : Except (Failure KmsStatus) EncryptResponse}
    {m : Machine} {tr : List (Event Cmd Cmd.Res)} (running : (w.nodes i).serves[n]? = some inst)
    (run : (inst.service.encrypt P plaintext).exec (nodeDevice P faults) (w.machine i) es =
      some ((answer, service), m, tr)) :
    (((w.put i m).setService i n service).note i inst.started plaintext answer).Sound P := by
  obtain ⟨hservice, hr⟩ := Prog.wp_sound (inst.service.encrypt_wp hP hflush plaintext) run
  dsimp only at hservice hr
  subst hservice
  rw [put_setService running]
  rcases hr with ⟨hledger, e, rfl⟩ | ⟨t, pub, priv, c, hsealed, rfl⟩
  · exact h.put (.of_ledger hledger)
  · refine ⟨forall_put (C := fun _ => Node.Named P) h.named id, ?_⟩
    intro k d hs
    obtain ⟨o, ho, hkey, hdata⟩ := hs
    have ho' : o ∈ m.ledger.objects := ho
    rw [hsealed.ledger] at ho'
    rcases List.mem_cons.mp ho' with rfl | ho
    · obtain ⟨t', hnames, hid⟩ := (h.named i inst (List.mem_of_getElem? running)).1
      refine ⟨_, List.mem_cons_self .., ?_, ?_⟩
      · rw [← hkey, hnames.storageParent hsealed.parent]
        exact hid
      · cases hdata
        rfl
    · obtain ⟨e, he, hanswer⟩ := h.answered k d ⟨o, ho, hkey, hdata⟩
      exact ⟨e, List.mem_cons_of_mem _ he, hanswer⟩

theorem Sound.effect (h : w.Sound P) (hP : P.Lawful)
    (hflush : ∀ h, faults (.flushContext h) = false) {op : Op}
    (heffect : Effect P faults w i es op w') : w'.Sound P := by
  have hX : ∀ c : Cmd, c.benign → c.quiet TpmCmd.creates := fun _ => Cmd.benign.creates
  cases heffect with
  | genesis run =>
    exact h.put (sealsNothing_of_only (runGenesis_only hX _ fun _ _ _ => rfl) run)
  | status run => exact h.put (sealsNothing_of_only (runStatus_only hX P) run)
  | enroll run =>
    exact (h.put (sealsNothing_of_only (runEnroll_only hX) run)).modify fun _ hn => hn
  | enrollStop => exact (h.put (.of_ledger rfl)).modify fun _ hn => hn
  | duplicate serving run =>
    have hput := h.put (sealsNothing_of_only (duplicate_only P _ _ hX (fun _ => trivial) trivial
      trivial (fun _ _ => rfl) (fun _ _ => rfl) trivial trivial trivial) run)
    exact ⟨hput.named, hput.answered⟩
  | joinBegin idle run =>
    exact (h.put (sealsNothing_of_only
      (joinRequest_only hX P _ _ (fun _ => trivial) fun _ => trivial) run)).modify fun _ hn => hn
  | joinEnd pending run =>
    exact (h.put (sealsNothing_of_only (joinFinish_only hX P _ _ (fun _ _ _ => rfl)
      (fun _ _ _ _ _ => rfl) fun _ => rfl) run)).modify fun _ hn => hn
  | joinRejected => exact (h.put (.of_ledger rfl)).modify fun _ hn => hn
  | serve run =>
    refine (h.put (sealsNothing_of_only (runServe_only hX P _) run)).modify ?_
    intro node hn inst hinst
    rcases List.mem_append.mp hinst with hinst | hinst
    · exact hn inst hinst
    · obtain ⟨service, hservice, rfl⟩ := Option.map_eq_some_iff.mp (Option.mem_toList.mp hinst)
      obtain ⟨s, legacy, hpair, rfl⟩ := Prog.wp_sound runServe_wp run service
        (eq_ok_of_toOption hservice)
      exact hpair.named
  | stop running run =>
    refine (h.put (sealsNothing_of_only
      (KmsService.drop_only hX _ (fun _ => rfl) fun _ _ _ => rfl) run)).modify ?_
    exact fun node hn inst hinst => hn inst (List.mem_of_mem_eraseIdx hinst)
  | encrypt running run => exact h.encrypt hP hflush running run
  | decrypt running run =>
    have hnamed := h.named i _ (List.mem_of_getElem? running)
    obtain ⟨rfl, -⟩ := Prog.wp_sound (hnamed.decrypt_wp _ _) run
    rw [put_setService running]
    exact h.put (sealsNothing_of_only (KmsService.decrypt_only hX P _ _ _ fun _ _ => rfl) run)

omit [DecidableEq ι] in
theorem Sound.start (tpms : ι → Tpm) : (World.start tpms).Sound P :=
  ⟨fun _ _ hinst => absurd hinst List.not_mem_nil,
    fun _ _ ⟨_, ho, _⟩ => absurd ho List.not_mem_nil⟩

theorem Sound.run (hP : P.Lawful) (hflush : ∀ h, faults (.flushContext h) = false)
    {tpms : ι → Tpm} {acts : List (ClusterAct ι)}
    (h : runs (World.step P faults) (World.start tpms) acts = some w) : w.Sound P :=
  runs_invariant (fun _ _ _ hs _ hstep => hs.effect hP hflush (step_effect hstep))
    (Sound.start tpms) along_true h

end World

/-- **Soundness of `Decrypt`.** After any run, whatever `key_id` and bytes it is asked for: what it
returns was the plaintext of an `Encrypt` whose answer carried that `key_id`, and it loads under no
key with another one. -/
theorem decrypt_sound (hP : P.Lawful) (hflush : ∀ h, faults (.flushContext h) = false)
    {tpms : ι → Tpm} {acts : List (ClusterAct ι)}
    (hrun : runs (World.step P faults) (World.start tpms) acts = some w) {n : Nat}
    {inst : Instance} (hinst : (w.nodes i).serves[n]? = some inst) {keyId : String}
    {ciphertext : Bytes} {r : Except (Failure KmsStatus) Bytes} {service : KmsService} {m : Machine}
    {tr : List (Event Cmd Cmd.Res)}
    (hdecrypt : (inst.service.decrypt P keyId ciphertext).exec (nodeDevice P faults) (w.machine i)
      es = some ((r, service), m, tr)) :
    (∀ p, r = .ok p → ∃ e ∈ w.encrypted, e.response.keyId = keyId ∧ e.plaintext = p) ∧
      ∀ ev ∈ tr, ev.1.LoadsUnder P keyId := by
  have hsound := World.Sound.run hP hflush hrun
  have hnamed := hsound.named i inst (List.mem_of_getElem? hinst)
  obtain ⟨-, hsealed⟩ := Prog.wp_sound (hnamed.decrypt_wp keyId ciphertext) hdecrypt
  refine ⟨fun p hp => hsound.answered keyId p (hsealed p hp), ?_⟩
  exact Prog.wp_sound ((hnamed.decrypt_loads keyId ciphertext).trace _ _) hdecrypt

end Invariant

/-! A node that serves with its own key, encrypts three bytes and is asked for them. -/

/-- Nothing is in the slot, so the probe fails and the SRK is loaded. -/
def serveOwn : ClusterAct Unit :=
  ⟨(), .serve false,
    List.replicate 3 (performed 1) ++ .fail (.rc 0x18b) :: List.replicate 7 (performed 1)⟩

def encryptThree : ClusterAct Unit :=
  ⟨(), .encrypt 0 [1, 2, 3], List.replicate 4 (performed 2)⟩

theorem decrypt_sound_own :
    ∃ (w : World Unit) (inst : Instance) (service : KmsService) (m : Machine)
      (tr : List (Event Cmd Cmd.Res)),
      runs (World.step .plain noFlushFault)
        (World.start fun _ => { ownerSeed := fun _ => some [7] }) [serveOwn, encryptThree] =
          some w ∧
      (w.nodes ()).serves[0]? = some inst ∧
      (inst.service.decrypt .plain "sceau-0007" [1, 0, 2, 1, 2, 2]).exec
        (nodeDevice .plain noFlushFault) (w.machine ()) (List.replicate 6 (performed 3)) =
          some ((.ok [1, 2, 3], service), m, tr) ∧
      ∃ e ∈ w.encrypted, e.response.keyId = "sceau-0007" ∧ e.plaintext = [1, 2, 3] := by
  have hall : ((runs (World.step .plain noFlushFault)
      (World.start fun _ : Unit => { ownerSeed := fun _ => some [7] }) [serveOwn, encryptThree]).bind
        fun w => (w.nodes ()).serves[0]?.bind fun inst =>
          ((inst.service.decrypt .plain "sceau-0007" [1, 0, 2, 1, 2, 2]).exec
            (nodeDevice .plain noFlushFault) (w.machine ())
            (List.replicate 6 (performed 3))).map fun x => x.1.1.toOption) =
      some (some [1, 2, 3]) := by
    decide +kernel
  obtain ⟨w, hrun, hall⟩ := Option.bind_eq_some_iff.mp hall
  obtain ⟨inst, hinst, hall⟩ := Option.bind_eq_some_iff.mp hall
  obtain ⟨⟨⟨r, service⟩, m, tr⟩, hdecrypt, hr⟩ := Option.map_eq_some_iff.mp hall
  obtain rfl := World.eq_ok_of_toOption hr
  refine ⟨w, inst, service, m, tr, hrun, hinst, hdecrypt, ?_⟩
  exact (decrypt_sound Platform.plain_lawful (fun _ => rfl) hrun hinst hdecrypt).1 _ rfl

end Sceau
