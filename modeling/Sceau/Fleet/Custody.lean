import Sceau.Fleet.Conduct

/-!
# The chain of custody of a fleet key

How a key comes to be in a node's slot, over the fleet of `Fleet/Agreement.lean`: any number of nodes
and of processes on them, one action a command, any TPM command failing, processes killed anywhere,
and a join being handed whichever response was ever sent. Nothing is asked of who runs what; genesis
may be forced, on any node.

Two readings of the code meet here. Each process is `Grounded`: what it wraps, imports, makes
persistent and sends rests on what it did before, which is read off its program alone. Each answer is
**attested** by the state: a key comes from the TPM that made it, a duplicate is on record with the
key it was wrapped for. Every key in a slot then has a chain of custody: it was made by a genesis on
that node, or a join on that node imported it under a transport key of its own making, from a
duplicate that a handler wrapped for that very key, on a node that had the key in its own slot, after
the permit and the Node lookup of a request that asked for it.
-/

set_option autoImplicit false

namespace Sceau

open Lib

/-! ## What is read off the history -/

section History

variable {ι : Type}

abbrev FleetHistory (ι : Type) : Type := History (ι × Program) Cmd Cmd.Res

/-- On node `j` a handler wrapped the key: it had been let in, and the key it wrapped for is the one
its request carried. -/
def Wrapped (P : Platform) (H : FleetHistory ι) (j : ι) (d : Duplicated) : Prop :=
  ∃ service request before ctx id alg,
    H (j, .duplicate service request) before
      ⟨.tpm ctx (.duplicate (.persistent d.key) (.transient id (.external d.target)) alg),
        .ok (d.encryptionKey, d.priv, d.secret)⟩ ∧
    LetIn P request before ∧ P.unmarshall request.message.joinerTransportPublic = some d.target

/-- On node `i` a join imported the duplicate, under the transport key it was wrapped for: one it had
made itself and asked a seed for. -/
def Imported (P : Platform) (H : FleetHistory ι) (i : ι) (d : Duplicated) : Prop :=
  ∃ seed k0sDataDir before ctx id alg priv response,
    H (i, .join seed k0sDataDir) before
      ⟨.tpm ctx (.import (.transient id (.key d.target)) (some d.encryptionKey) d.key d.priv d.secret
        alg), .ok priv⟩ ∧
    Asked P before (.transient id (.key d.target)) d.target response

/-- **The chain of custody** of the key `k` on node `i`. -/
inductive Custody (P : Platform) (H : FleetHistory ι) : ι → Public → Prop
  | created {i : ι} {force : Bool} {before : List (Event Cmd Cmd.Res)} {ctx : Context}
    {template k : Public} {id : Nat}
    (made : H (i, .genesis force) before
      ⟨.tpm ctx (.createPrimary template), .ok (.transient id (.key k))⟩) : Custody P H i k
  | enrolled {i j : ι} {d : Duplicated} (seed : Custody P H j d.key) (wrapped : Wrapped P H j d)
    (imported : Imported P H i d) : Custody P H i d.key

section Later

variable {P : Platform} {H H' : FleetHistory ι} (hle : ∀ who before ev, H who before ev →
  H' who before ev)
include hle

theorem Wrapped.later {j : ι} {d : Duplicated} (h : Wrapped P H j d) : Wrapped P H' j d := by
  obtain ⟨service, request, before, ctx, id, alg, hdid, hrest⟩ := h
  exact ⟨service, request, before, ctx, id, alg, hle _ _ _ hdid, hrest⟩

theorem Imported.later {i : ι} {d : Duplicated} (h : Imported P H i d) : Imported P H' i d := by
  obtain ⟨seed, dir, before, ctx, id, alg, priv, response, hdid, hrest⟩ := h
  exact ⟨seed, dir, before, ctx, id, alg, priv, response, hle _ _ _ hdid, hrest⟩

theorem Custody.later {i : ι} {k : Public} (h : Custody P H i k) : Custody P H' i k := by
  induction h with
  | created made => exact .created (hle _ _ _ made)
  | enrolled seed wrapped imported ih => exact .enrolled ih (wrapped.later hle) (imported.later hle)

end Later

end History

/-! ## What the answers attest -/

section Attested

variable {ι : Type}

/-- What an answer says for good. -/
def Attests (l : Ledger) : Event Cmd Cmd.Res → Prop
  | ⟨.tpm _ (.createPrimary _), .ok h⟩ => ∃ id k, h = .transient id (.key k)
  | ⟨.tpm _ (.readPublic (.transient _ obj)), .ok pub⟩ => pub = obj.pub
  | ⟨.tpm _ (.trFromTpmPublic _), .ok h⟩ => ∃ k, h = .persistent k
  | ⟨.tpm _ (.loadExternalPublic pub), .ok h⟩ => ∃ id, h = .transient id (.external pub)
  | ⟨.tpm _ (.load _ _ pub), .ok h⟩ => ∃ id obj, h = .transient id obj ∧ obj.pub = pub
  | ⟨.tpm _ (.duplicate _ _ _), .ok (ek, priv, secret)⟩ =>
    ∃ d ∈ l.dups, d.encryptionKey = ek ∧ d.priv = priv ∧ d.secret = secret
  | ⟨.tpm _ (.import parent ek pub priv secret _), .ok _⟩ =>
    ∃ id, ∃ d ∈ l.dups, parent = .transient id (.key d.target) ∧ some d.encryptionKey = ek ∧
      d.key = pub ∧ d.priv = priv ∧ d.secret = secret
  | ⟨.duplicateRpc _, .ok response⟩ => FromLedger l response
  | _ => True

theorem Attests.later {l l' : Ledger} (hle : ∀ d ∈ l.dups, d ∈ l'.dups) {ev : Event Cmd Cmd.Res}
    (h : Attests l ev) : Attests l' ev := by
  unfold Attests at h ⊢
  split at h
  case h_6 =>
    obtain ⟨d, hd, hbytes⟩ := h
    exact ⟨d, hle d hd, hbytes⟩
  case h_7 =>
    obtain ⟨id, d, hd, hbytes⟩ := h
    exact ⟨id, d, hle d hd, hbytes⟩
  case h_8 =>
    obtain ⟨hhas, d, hd, hbytes⟩ := h
    exact ⟨hhas, d, hle d hd, hbytes⟩
  all_goals exact h

/-- The invariant: every answer is attested, every key in a slot has its chain of custody, and so has
every key that was wrapped. -/
structure Trail (P : Platform) (H : FleetHistory ι) (s : FleetState ι) : Prop where
  answers : ∀ who before ev, H who before ev → Attests s.ledger ev
  slots : ∀ i k, (s.tpms i).slot = some k → Custody P H i k
  dups : ∀ d ∈ s.ledger.dups, ∃ j, Wrapped P H j d ∧ Custody P H j d.key
  sent : ∀ r ∈ s.responses, FromLedger s.ledger r

section Step

variable {P : Platform} {H : FleetHistory ι} {s s' : FleetState ι}
  {who : ι × Program} {before : List (Event Cmd Cmd.Res)} {ev : Event Cmd Cmd.Res}

/-- One answer more: what is new in a slot or in the ledger needs its chain of custody. -/
theorem Trail.add (h : Trail P H s) (hev : Attests s'.ledger ev)
    (hslots : ∀ i k, (s'.tpms i).slot = some k →
      (s.tpms i).slot = some k ∨ Custody P (H.add who before ev) i k)
    (hkept : ∀ d ∈ s.ledger.dups, d ∈ s'.ledger.dups)
    (hdups : ∀ d ∈ s'.ledger.dups, d ∈ s.ledger.dups ∨
      ∃ j, Wrapped P (H.add who before ev) j d ∧ Custody P (H.add who before ev) j d.key)
    (hsent : ∀ r ∈ s'.responses, r ∈ s.responses ∨ FromLedger s'.ledger r) :
    Trail P (H.add who before ev) s' := by
  have hle : ∀ w b x, H w b x → H.add who before ev w b x := fun _ _ _ h => .inl h
  refine ⟨?_, ?_, ?_, ?_⟩
  · intro w b x hx
    rcases hx with hx | ⟨-, -, rfl⟩
    · exact (h.answers w b x hx).later hkept
    · exact hev
  · intro i k hk
    rcases hslots i k hk with hk | hk
    · exact (h.slots i k hk).later hle
    · exact hk
  · intro d hd
    rcases hdups d hd with hd | hd
    · obtain ⟨j, hwrapped, hcustody⟩ := h.dups d hd
      exact ⟨j, hwrapped.later hle, hcustody.later hle⟩
    · exact hd
  · intro r hr
    rcases hsent r hr with hr | hr
    · obtain ⟨hhas, d, hd, hbytes⟩ := h.sent r hr
      exact ⟨hhas, d, hkept d hd, hbytes⟩
    · exact hr

/-- What is in the past of a process is attested. -/
theorem Trail.returned (h : Trail P H s) (hpast : H.Covers (Rests P) who before)
    {c : TpmCmd} {a : c.Res} (hret : Returned before c a) :
    ∃ ctx earlier, earlier ⊆ before ∧ H who earlier ⟨.tpm ctx c, .ok a⟩ ∧
      Rests P who earlier (.tpm ctx c) ∧ Attests s.ledger ⟨.tpm ctx c, .ok a⟩ := by
  obtain ⟨ctx, hmem⟩ := hret
  obtain ⟨earlier, hsub, hdid, hrests⟩ := hpast _ hmem
  exact ⟨ctx, earlier, hsub, hdid, hrests, h.answers _ _ _ hdid⟩

variable [DecidableEq ι] {i : ι} {program : Program} {ctx : Context} {m' : Machine}

/-- An answer that changes neither slots nor duplicates. -/
theorem Trail.note (h : Trail P H s) {m : Machine} (hev : Attests m.ledger ev)
    (hslot : m.tpm.slot = (s.tpms i).slot) (hdups : m.ledger.dups = s.ledger.dups) :
    Trail P (H.add who before ev) (s.put i m) := by
  refine h.add hev ?_ (fun d hd => ?_) (fun d hd => .inl ?_) fun r hr => .inl hr
  · intro j k hk
    rw [put_slot] at hk
    split at hk
    · rename_i hj
      rw [hj, ← hslot]
      exact .inl hk
    · exact .inl hk
  · show d ∈ m.ledger.dups
    rwa [hdups]
  · rwa [← hdups]

/-- A handler wraps the key in its node's slot, for the key in its request. -/
theorem Trail.wrap (h : Trail P H s) (hpast : H.Covers (Rests P) (i, program) before)
    {object newParent : Handle} {alg : SymmetricDefinitionObject}
    {a : Data × Private × EncryptedSecret}
    (hserved : ∀ service request, program = .duplicate service request →
      ∃ pub, service.fleetKeyHandle = .persistent pub)
    (hmay : MayWrap P program before object newParent)
    (hp : Performs P anyFault (s.machine i) ctx (.duplicate object newParent alg) a m') :
    Trail P (H.add (i, program) before ⟨.tpm ctx (.duplicate object newParent alg), .ok a⟩)
      (s.put i m') := by
  obtain ⟨service, request, joinerPublic, rfl, rfl, hlet, hpub, hexternal⟩ := hmay
  obtain ⟨pub, hhandle⟩ := hserved service request rfl
  obtain ⟨_, _, -, -, -, id, rfl⟩ := h.returned hpast hexternal
  obtain ⟨key, t, hobj, hparent, -, rfl⟩ := performs_duplicate hp
  rw [hhandle] at hobj ⊢
  have hslot : (s.tpms i).slot = some pub ∧ key = pub := by
    simp only [Machine.resolve] at hobj
    split at hobj
    · rename_i hk
      cases hobj
      exact ⟨hk, rfl⟩
    · cases hobj
  have htarget : t = .external joinerPublic := by
    simp only [Machine.resolve] at hparent
    split at hparent
    · exact (Option.some.inj hparent).symm
    · cases hparent
  obtain ⟨hslot, rfl⟩ := hslot
  subst htarget
  have hle : ∀ w b x, H w b x → H.add (i, Program.duplicate service request) before
      ⟨.tpm ctx (.duplicate (.persistent key) (.transient id (.external joinerPublic)) alg), .ok a⟩
      w b x := fun _ _ _ h => .inl h
  refine h.add ?_ ?_ ?_ ?_ ?_
  · exact ⟨_, List.mem_cons_self .., rfl, rfl, rfl⟩
  · intro j k hk
    rw [put_slot] at hk
    split at hk
    · rename_i hj
      exact .inl (hj ▸ hk)
    · exact .inl hk
  · exact fun d hd => List.mem_cons_of_mem _ hd
  · intro d hd
    rcases List.mem_cons.mp hd with rfl | hd
    · refine .inr ⟨i, ⟨service, request, before, ctx, id, alg, .inr ⟨rfl, rfl, rfl⟩, hlet, hpub⟩, ?_⟩
      exact (h.slots i _ hslot).later hle
    · exact .inl hd
  · exact fun r hr => .inl hr

/-- A join imports what is on record, under the transport key it was wrapped for. -/
theorem Trail.import (h : Trail P H s) (hpast : H.Covers (Rests P) (i, program) before)
    {parent : Handle} {ek : Option Data} {pub : Public} {dup : Private} {secret : EncryptedSecret}
    {alg : SymmetricDefinitionObject} {a : Private}
    (hmay : MayImport P program before parent ⟨pub, dup, secret, ek⟩)
    (hp : Performs P anyFault (s.machine i) ctx (.import parent ek pub dup secret alg) a m') :
    Trail P (H.add (i, program) before ⟨.tpm ctx (.import parent ek pub dup secret alg), .ok a⟩)
      (s.put i m') := by
  obtain ⟨seed, dir, transportPublic, response, rfl, ⟨⟨template, hmade⟩, -, request, -, hrpc⟩, hdec⟩ :=
    hmay
  obtain ⟨_, _, -, -, -, id, t, rfl⟩ := h.returned hpast hmade
  obtain ⟨t', hparent, hdup, -, rfl⟩ := performs_import hp
  have ht : t' = t := by
    simp only [Machine.storageParent, Machine.resolve] at hparent
    split at hparent
    · rename_i o hres
      split at hres
      · cases hres
        split at hparent
        · exact (Option.some.inj hparent).symm
        · cases hparent
      · cases hres
    · cases hparent
  subst ht
  -- the response was sent, so the duplicate in it is on record
  obtain ⟨earlier, -, hdid, -⟩ := hpast _ hrpc
  have hfrom : FromLedger s.ledger response := h.answers _ _ _ hdid
  obtain ⟨ek', rfl, d, hd, rfl, rfl, rfl⟩ := hfrom.recorded (s := s) hdec
  have hfound : (s.ledger.findDup (some d.encryptionKey) d.priv d.secret).isSome := by
    unfold Ledger.findDup
    exact List.find?_isSome.mpr ⟨d, hd, by simp⟩
  obtain ⟨d', hd'⟩ := Option.isSome_iff_exists.mp hfound
  obtain ⟨htarget, hkey⟩ := hdup d' hd'
  obtain ⟨hmem, hek, hpriv, hsecret⟩ := Ledger.findDup_eq hd'
  refine h.note ?_ rfl rfl
  exact ⟨id, d', hmem, by rw [htarget], hek, hkey, hpriv, hsecret⟩

/-- A slot changes: its key is taken out, or one is put in that was created or imported here. -/
theorem Trail.evict (h : Trail P H s) (hpast : H.Covers (Rests P) (i, program) before)
    {object : Handle} {ph : PersistentTpmHandle} {a : Handle} (hmay : MayEvict program before object)
    (hp : Performs P anyFault (s.machine i) ctx (.evictControl object ph) a m') :
    Trail P (H.add (i, program) before ⟨.tpm ctx (.evictControl object ph), .ok a⟩) (s.put i m') := by
  -- a key that is put in has its chain of custody already
  have hput : ∀ {id : Nat} {obj : Obj}, object = .transient id obj → Custody P H i obj.pub →
      Trail P (H.add (i, program) before ⟨.tpm ctx (.evictControl object ph), .ok a⟩)
        (s.put i m') := by
    intro id obj hobj hcustody
    subst hobj
    obtain ⟨-, -, -, -, -, -, rfl⟩ := performs_evict_transient.mp hp
    refine h.add trivial ?_ (fun d hd => hd) (fun d hd => .inl hd) fun r hr => .inl hr
    intro j k hk
    rw [put_slot] at hk
    split at hk
    · rename_i hj
      obtain rfl := Option.some.inj hk
      subst hj
      exact .inr (hcustody.later fun _ _ _ h => .inl h)
    · exact .inl hk
  rcases hmay with ⟨ph', hfound⟩ | ⟨force, template, rfl, hmade⟩ | ⟨seed, dir, parent, ek, pub, dup,
    secret, alg, priv, rfl, himport, hload⟩
  · obtain ⟨_, _, -, -, -, k, rfl⟩ := h.returned hpast hfound
    obtain ⟨-, -, -, -, rfl⟩ := performs_evict_persistent.mp hp
    refine h.add trivial ?_ (fun d hd => hd) (fun d hd => .inl hd) fun r hr => .inl hr
    intro j k hk
    rw [put_slot] at hk
    split at hk
    · cases hk
    · exact .inl hk
  · obtain ⟨_, _, -, hdid, -, id, k, rfl⟩ := h.returned hpast hmade
    exact hput rfl (.created hdid)
  · obtain ⟨_, _, -, -, -, id, obj, rfl, rfl⟩ := h.returned hpast hload
    obtain ⟨_, earlier, hsub, hdid, hrests, hd⟩ := h.returned hpast himport
    obtain ⟨id', d, hd, rfl, rfl, hkey, rfl, rfl⟩ := hd
    obtain ⟨_, _, transportPublic, response, -, ⟨hmade, hread, request, hreq, hrpc⟩, -⟩ := hrests
    -- the public area the join read and sent is that of its transport key
    obtain ⟨_, _, -, -, -, hpub⟩ := h.returned hpast (hread.later hsub)
    have hpub : transportPublic = d.target := hpub
    subst hpub
    obtain ⟨j, hwrapped, hcustody⟩ := h.dups d hd
    refine hput rfl ?_
    rw [← hkey]
    exact .enrolled hcustody hwrapped ⟨seed, dir, earlier, _, id', alg, priv, response,
      by rw [hkey]; exact hdid, hmade, hread, request, hreq, hrpc⟩

theorem attests_error (l : Ledger) (c : TpmCmd) (e : TssError) :
    Attests l ⟨.tpm ctx c, .error e⟩ := by
  cases c with
  | readPublic h => cases h <;> trivial
  | _ => trivial

/-- **One answer keeps the trail.** -/
theorem fleetDevice_trail (hserved : ∀ service request, program = .duplicate service request →
      ∃ pub, service.fleetKeyHandle = .persistent pub)
    (h : Trail P H s) (hpast : H.Covers (Rests P) (i, program) before) {c : Cmd} {e : Choice}
    {r : c.Res} (hrests : Rests P (i, program) before c)
    (hd : fleetDevice P i c s e = some (r, s')) :
    Trail P (H.add (i, program) before ⟨c, r⟩) s' := by
  -- what is not looked at below moves no slot and wraps nothing
  have hcalm : c.calm → (∀ l, Attests l ⟨c, r⟩) →
      (nodeDevice P anyFault c (s.machine i) e).map (fun x => (x.1, s.put i x.2)) = some (r, s') →
      Trail P (H.add (i, program) before ⟨c, r⟩) s' := by
    intro hc hev hd
    obtain ⟨⟨r', m'⟩, hstep, heq⟩ := Option.map_eq_some_iff.mp hd
    obtain ⟨-, rfl⟩ := Prod.mk.inj heq
    obtain ⟨hslot, hdups⟩ := nodeDevice_calm hc hstep
    exact h.note (hev _) hslot hdups
  cases c with
  | tpm ctx c =>
    obtain ⟨⟨r', m'⟩, hstep, heq⟩ := Option.map_eq_some_iff.mp hd
    obtain ⟨rfl, rfl⟩ := Prod.mk.inj heq
    rcases tpmStep_cases hstep with ⟨err, -, rfl, rfl⟩ | ⟨a, hp, rfl⟩
    · exact h.note (attests_error _ c err) rfl rfl
    · cases c with
      | duplicate object newParent alg => exact h.wrap hpast hserved hrests hp
      | «import» parent ek pub dup secret alg => exact h.import hpast hrests hp
      | evictControl object ph => exact h.evict hpast hrests hp
      | createPrimary template =>
        refine hcalm trivial (fun l => ?_) hd
        obtain ⟨-, unique, -, rfl, -⟩ := performs_createPrimary.mp hp
        exact ⟨_, _, rfl⟩
      | readPublic handle =>
        refine hcalm trivial (fun l => ?_) hd
        cases handle with
        | transient id obj =>
          obtain ⟨⟨o, ho, rfl⟩, -⟩ := performs_readPublic.mp hp
          simp only [Machine.resolve] at ho
          split at ho
          · cases ho
            rfl
          · cases ho
        | _ => trivial
      | trFromTpmPublic ph =>
        refine hcalm trivial (fun l => ?_) hd
        obtain ⟨-, ⟨pub, -, rfl⟩, -⟩ := performs_trFromTpmPublic.mp hp
        exact ⟨pub, rfl⟩
      | loadExternalPublic pub =>
        refine hcalm trivial (fun l => ?_) hd
        obtain ⟨rfl, -⟩ := performs_loadExternalPublic.mp hp
        exact ⟨_, rfl⟩
      | load parent priv pub =>
        refine hcalm trivial (fun l => ?_) hd
        obtain ⟨-, t, o, -, ho, rfl, -⟩ := performs_load.mp hp
        refine ⟨_, _, rfl, ?_⟩
        rw [o.load_pub, (Ledger.findObject_eq ho).2.2.1]
      | _ => exact hcalm trivial (fun l => trivial) hd
  | duplicateRpc request =>
    cases r with
    | error u =>
      rcases e with _ | _ | _ | _ | _ | ⟨_ | resp⟩
      case reply.some =>
        simp only [fleetDevice] at hd
        split at hd
        · cases hd
        · cases hd
      all_goals exact hcalm trivial (fun l => trivial) hd
    | ok resp =>
      obtain ⟨hmem, rfl⟩ := fleetDevice_rpc hd
      have hnote : Trail P (H.add (i, program) before ⟨.duplicateRpc request, .ok resp⟩)
          (s'.put i (s'.machine i)) := h.note (h.sent resp hmem) rfl rfl
      rwa [FleetState.put_machine] at hnote
  | sendResponse response =>
    cases e with
    | io b =>
      obtain ⟨-, rfl⟩ := Prod.mk.inj (Option.some.inj hd)
      obtain ⟨object, newParent, alg, ek, priv, secret, hret, hhas, hek, hpriv, hsecret⟩ := hrests
      obtain ⟨_, _, -, -, -, d, hmem, rfl, rfl, rfl⟩ := h.returned hpast hret
      refine h.add trivial (fun j k hk => .inl hk) (fun d hd => hd) (fun d hd => .inl hd) ?_
      intro r hr
      rcases List.mem_cons.mp hr with rfl | hr
      · exact .inr ⟨hhas, d, hmem, hek, hpriv, hsecret⟩
      · exact .inl hr
    | _ => cases hd
  | _ => exact hcalm trivial (fun l => trivial) hd

end Step

end Attested

/-! ## The result -/

section Result

variable {ι : Type} [DecidableEq ι]

/-- What may be started, and where: anything anywhere, but that a handler works with the handle
`load_fleet_key` gave to `run_enroll`, a persistent one. -/
def Startable : ι × Program → Prop
  | (_, .duplicate service _) => ∃ pub, service.fleetKeyHandle = .persistent pub
  | _ => True

/-- **The chain of custody.** From empty slots, in every reachable state, every key in a slot has its
chain of custody; and every duplicate ever wrapped was wrapped on a node with a chain of custody for
the key, by a handler that had been let in, for the key its request carried. -/
theorem fleet_custody (P : Platform) (tpms : ι → Tpm) (hempty : ∀ i, (tpms i).slot = none)
    (acts : List (FleetAct ι)) (pool : FleetPool ι)
    (hg : Along (fleetSystem P).step (SpawnOnly Startable) (FleetPool.start tpms) acts)
    (hr : runs (fleetSystem P).step (FleetPool.start tpms) acts = some pool) :
    (∀ i k, (pool.shared.tpms i).slot = some k → Custody P pool.history i k) ∧
    ∀ d ∈ pool.shared.ledger.dups, ∃ j, Wrapped P pool.history j d ∧
      Custody P pool.history j d.key := by
  have hstart : Trail P (fun _ _ _ => False) ({ tpms } : FleetState ι) := by
    refine ⟨fun _ _ _ h => h.elim, ?_, by simp, by simp⟩
    intro i k hk
    rw [hempty i] at hk
    cases hk
  have htrail : Trail P pool.history pool.shared := by
    refine runs_history (I := Trail P) (fun who _ => program_grounded who) ?_ ?_ hstart hg hr
    · intro H s who before c e r s' hstartable h hpast hrests hd
      obtain ⟨i, program⟩ := who
      refine fleetDevice_trail ?_ h hpast hrests hd
      intro service request hprog
      subst hprog
      exact hstartable
    · intro H s x s' h henv
      obtain rfl := Option.some.inj henv
      exact h
  exact ⟨htrail.slots, htrail.dups⟩

omit [DecidableEq ι] in
theorem Permitted.startable {G : ι} {p : ι × Program} (h : Permitted G p) : Startable p := by
  obtain ⟨i, program⟩ := p
  cases program with
  | duplicate service request => exact h
  | _ => trivial

end Result

/-- The node that joined has the key from the one that created it. -/
theorem fleet_custody_of_two :
    ∃ pool : FleetPool Bool,
      runs (fleetSystem .plain).step twoNodes (genesisActs ++ enrollmentActs) = some pool ∧
      (pool.shared.tpms false).slot = some someFleetKey ∧
      Custody .plain pool.history false someFleetKey := by
  have hrun : (runs (fleetSystem .plain).step twoNodes (genesisActs ++ enrollmentActs)).map
      (fun pool => (pool.shared.tpms false).slot) = some (some someFleetKey) := by
    decide +kernel
  have hpermitted : Along (fleetSystem .plain).step (SpawnOnly (Permitted true)) twoNodes
      (genesisActs ++ enrollmentActs) := by
    decide +kernel
  have hg : Along (fleetSystem .plain).step (SpawnOnly Startable) twoNodes
      (genesisActs ++ enrollmentActs) := by
    refine hpermitted.mono ?_
    intro pool act hact
    cases act with
    | spawn p => exact Permitted.startable hact
    | _ => trivial
  obtain ⟨pool, hr, hslot⟩ := Option.map_eq_some_iff.mp hrun
  exact ⟨pool, hr, hslot,
    (fleet_custody .plain _ (fun _ => rfl) _ pool hg hr).1 false someFleetKey hslot⟩

end Sceau
