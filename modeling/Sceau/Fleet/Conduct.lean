import Sceau.Fleet.Agreement
import Sceau.Lib.Grounded

/-!
# What the processes of the fleet rest on

The commands that matter to who has the fleet key are four: wrapping it, importing it, changing the
slot, and sending a response. `Rests` says what a process has to have done before each of them, in
terms of its own commands and answers, and every process of the fleet is shown to keep to it whatever
it is answered. Nothing here knows what a TPM does: what the answers are worth is
`Fleet/Custody.lean`'s business.
-/

set_option autoImplicit false

namespace Sceau

open Lib

/-! ## What is read off a log

A process has no other memory than what it was answered. These are the facts about the past that a
later command is going to need, and each of them stays true as the log grows. -/

/-- The TPM command was performed, with the answer `a`. -/
def Returned (log : List (Event Cmd Cmd.Res)) (c : TpmCmd) (a : c.Res) : Prop :=
  ∃ ctx, (⟨.tpm ctx c, .ok a⟩ : Event Cmd Cmd.Res) ∈ log

theorem Returned.later {log log' : List (Event Cmd Cmd.Res)} {c : TpmCmd} {a : c.Res}
    (h : Returned log c a) (hle : log ⊆ log') : Returned log' c a := by
  obtain ⟨ctx, hmem⟩ := h
  exact ⟨ctx, hle hmem⟩

/-- The request has a permit, its certificate names a node, and that Node was found. -/
def LetIn (P : Platform) (request : Request) (log : List (Event Cmd Cmd.Res)) : Prop :=
  (∃ n : UInt64, n ≠ 0 ∧ (⟨.fetchSub, n⟩ : Event Cmd Cmd.Res) ∈ log) ∧
  ∃ name, EnrollService.requestedNode P request = .ok name ∧
    (⟨.getNode name, .ok ()⟩ : Event Cmd Cmd.Res) ∈ log

theorem LetIn.later {P : Platform} {request : Request} {log log' : List (Event Cmd Cmd.Res)}
    (h : LetIn P request log) (hle : log ⊆ log') : LetIn P request log' := by
  obtain ⟨⟨n, hn, hpermit⟩, name, hname, hnode⟩ := h
  exact ⟨⟨n, hn, hle hpermit⟩, name, hname, hle hnode⟩

/-- The transport key behind `h` was made by this process, and its public area was what the process
asked a seed to wrap for, which answered `response`. -/
def Asked (P : Platform) (log : List (Event Cmd Cmd.Res)) (h : Handle) (transportPublic : Public)
    (response : DuplicateResponse) : Prop :=
  (∃ template, Returned log (.createPrimary template) h) ∧
  Returned log (.readPublic h) transportPublic ∧
  ∃ request : DuplicateRequest, P.marshall transportPublic = some request.joinerTransportPublic ∧
    (⟨.duplicateRpc request, .ok response⟩ : Event Cmd Cmd.Res) ∈ log

/-! ## What the processes rest on

The four commands, each with the processes that may issue it and the past it needs; all other commands
need nothing. -/

section Conduct

variable {ι : Type}

/-- What a handler has to have done before it wraps. -/
def MayWrap (P : Platform) (program : Program) (log : List (Event Cmd Cmd.Res))
    (object newParent : Handle) : Prop :=
  ∃ service request joinerPublic, program = .duplicate service request ∧
    object = service.fleetKeyHandle ∧ LetIn P request log ∧
    P.unmarshall request.message.joinerTransportPublic = some joinerPublic ∧
    Returned log (.loadExternalPublic joinerPublic) newParent

/-- What a join has to have done before it imports. -/
def MayImport (P : Platform) (program : Program) (log : List (Event Cmd Cmd.Res)) (parent : Handle)
    (blob : DuplicationBlob) : Prop :=
  ∃ seed k0sDataDir transportPublic response, program = .join seed k0sDataDir ∧
    Asked P log parent transportPublic response ∧ decodeResponse P response = .ok blob

/-- What has to come before a change of the slot: the key found there is taken out, or a new one is
put in that a genesis has created or a join has imported and loaded. -/
def MayEvict (program : Program) (log : List (Event Cmd Cmd.Res)) (h : Handle) : Prop :=
  (∃ ph, Returned log (.trFromTpmPublic ph) h) ∨
  (∃ force template, program = .genesis force ∧ Returned log (.createPrimary template) h) ∨
  ∃ seed k0sDataDir parent ek pub dup secret alg priv, program = .join seed k0sDataDir ∧
    Returned log (.import parent ek pub dup secret alg) priv ∧
    Returned log (.load parent priv pub) h

/-- What has to come before a response: the duplicate in it. -/
def MaySend (log : List (Event Cmd Cmd.Res)) (response : DuplicateResponse) : Prop :=
  ∃ object newParent alg ek priv secret,
    Returned log (.duplicate object newParent alg) (ek, priv, secret) ∧
    response.hasEncryptionKey = true ∧ ek.value = response.encryptionKey ∧
    priv.value = response.duplicatePrivate ∧ secret.value = response.encryptedSecret

/-- What a command of a process rests on. -/
def Rests (P : Platform) (who : ι × Program) (log : List (Event Cmd Cmd.Res)) : Cmd → Prop
  | .tpm _ (.duplicate object newParent _) => MayWrap P who.2 log object newParent
  | .tpm _ (.import parent ek pub dup secret _) => MayImport P who.2 log parent ⟨pub, dup, secret, ek⟩
  | .tpm _ (.evictControl h _) => MayEvict who.2 log h
  | .sendResponse response => MaySend log response
  | _ => True

variable {P : Platform} {who : ι × Program} {log : List (Event Cmd Cmd.Res)} {ε α : Type}

theorem Cmd.benign.rests {c : Cmd} (h : c.benign) (log : List (Event Cmd Cmd.Res)) :
    Rests P who log c := by
  cases c with
  | tpm ctx c =>
    cases c with
    | evictControl _ _ => cases h
    | duplicate _ _ _ => cases h
    | «import» _ _ _ _ _ _ => cases h
    | _ => trivial
  | sendResponse _ => exact h.elim
  | _ => trivial

/-- A program of commands that rest on nothing. -/
theorem grounded_of_only {p : Code α} (hp : p.Only fun c => ∀ log, Rests P who log c) :
    p.Grounded (Rests P who) (fun _ _ => True) log :=
  hp.grounded fun log' _ h => h log'

theorem groundedOk_of_only {x : Fallible ε α} (hx : x.run.Only fun c => ∀ log, Rests P who log c) :
    Prog.GroundedOk (Rests P who) x (fun _ _ => True) log :=
  hx.groundedOk fun log' _ h => h log'

section Tpm

variable [FromTss ε]

theorem grounded_tpmCall {ctx : Context} {c : TpmCmd} (h : Rests P who log (.tpm ctx c)) :
    Prog.GroundedOk (Rests P who) (tpmCall (ε := ε) ctx c) (fun log' a => Returned log' c a) log := by
  refine ⟨h, fun r a ha => ?_⟩
  cases r with
  | error e => cases ha
  | ok b =>
    obtain rfl := Except.ok.inj ha
    exact ⟨ctx, by simp⟩

theorem grounded_nullauth {ctx : Context} {f : Context → Fallible ε α}
    {Q : List (Event Cmd Cmd.Res) → α → Prop}
    (hlater : ∀ log₁ log₂ a, log₁ ⊆ log₂ → Q log₁ a → Q log₂ a)
    (hf : ∀ ctx' log', log ⊆ log' → Prog.GroundedOk (Rests P who) (f ctx') Q log') :
    Prog.GroundedOk (Rests P who) (ctx.executeWithNullauthSession f) Q log := by
  unfold Context.executeWithNullauthSession
  refine Prog.GroundedOk.bind (grounded_tpmCall (c := .startAuthSession .hmac) trivial) ?_
  intro session log₁ h₁ _
  cases session with
  | none => exact fun _ h => by cases h
  | some session =>
    refine Prog.GroundedOk.bind (grounded_tpmCall (c := .trSessSetAttributes session false) trivial) ?_
    intro _ log₂ h₂ _
    refine Prog.GroundedOk.bind (Prog.GroundedOk.lift (hf _ _ (List.Subset.trans h₁ h₂))) ?_
    intro res log₃ _ hres
    refine Prog.GroundedOk.bind (grounded_tpmCall (c := .flushContext (.session session)) trivial) ?_
    intro _ log₄ h₄ _ a ha
    exact hlater _ _ _ h₄ (hres a ha)

end Tpm

theorem MayEvict.later {log' : List (Event Cmd Cmd.Res)} {program : Program} {h : Handle}
    (hmay : MayEvict program log h) (hle : log ⊆ log') : MayEvict program log' h := by
  rcases hmay with ⟨ph, hfound⟩ | ⟨force, template, hprog, hmade⟩ | ⟨seed, dir, parent, ek, pub, dup,
    secret, alg, priv, hprog, himport, hload⟩
  · exact .inl ⟨ph, hfound.later hle⟩
  · exact .inr (.inl ⟨force, template, hprog, hmade.later hle⟩)
  · exact .inr (.inr ⟨seed, dir, parent, ek, pub, dup, secret, alg, priv, hprog, himport.later hle,
      hload.later hle⟩)

theorem MayImport.later {log' : List (Event Cmd Cmd.Res)} {program : Program} {h : Handle}
    {blob : DuplicationBlob} (hmay : MayImport P program log h blob) (hle : log ⊆ log') :
    MayImport P program log' h blob := by
  obtain ⟨seed, dir, pub, response, hprog, ⟨⟨template, hmade⟩, hread, request, hreq, hrpc⟩, hdec⟩ :=
    hmay
  exact ⟨seed, dir, pub, response, hprog,
    ⟨⟨template, hmade.later hle⟩, hread.later hle, request, hreq, hle hrpc⟩, hdec⟩

namespace Fleet

variable {context : Context}

/-- The slot is changed by what may change it. -/
theorem persist_grounded {h : Handle} (hmay : MayEvict who.2 log h) :
    Prog.GroundedOk (Rests P who) (persist context h) (fun _ _ => True) log := by
  unfold persist
  refine Prog.GroundedOk.bind (Q := fun _ _ => True) (fun _ _ => trivial) fun ph log₁ h₁ _ => ?_
  refine grounded_nullauth (fun _ _ _ _ h => h) fun ctx log₂ h₂ => ?_
  have hevict : Rests P who log₂ (.tpm ctx (.evictControl h ph)) :=
    hmay.later (List.Subset.trans h₁ h₂)
  exact (grounded_tpmCall hevict).mono fun _ _ _ _ _ => trivial

/-- The key found in the slot may be taken out of it. -/
theorem deletePersistedFleetKey_grounded :
    Prog.GroundedOk (Rests P who) (deletePersistedFleetKey context) (fun _ _ => True) log := by
  have hload : Prog.GroundedOk (Rests P who) (loadFleetKey context)
      (fun log' h => ∃ ph, Returned log' (.trFromTpmPublic ph) h) log := by
    unfold loadFleetKey
    refine Prog.GroundedOk.bind (Q := fun _ _ => True) (fun _ _ => trivial) fun ph log₁ _ _ => ?_
    refine grounded_nullauth ?_ fun ctx log₂ _ => ?_
    · intro log₁ log₂ h hle hfound
      obtain ⟨ph, hfound⟩ := hfound
      exact ⟨ph, hfound.later hle⟩
    · exact (grounded_tpmCall (c := .trFromTpmPublic ph) trivial).mono
        fun _ _ h a ha => ⟨ph, h a ha⟩
  unfold deletePersistedFleetKey
  refine Prog.GroundedOk.bind (Prog.GroundedOk.lift hload) fun found log₁ _ hfound => ?_
  cases found with
  | error e => exact fun _ _ => trivial
  | ok existing =>
    -- `persist` and this are the same command, on another handle
    refine Prog.GroundedOk.bind (Q := fun _ _ => True) (fun _ _ => trivial) fun ph log₂ h₂ _ => ?_
    refine Prog.GroundedOk.bind (Q := fun _ _ => True) ?_ fun _ _ _ _ _ _ => trivial
    refine grounded_nullauth (fun _ _ _ _ h => h) fun ctx log₃ h₃ => ?_
    obtain ⟨ph', hexisting⟩ := hfound existing rfl
    have hevict : Rests P who log₃ (.tpm ctx (.evictControl existing ph)) :=
      .inl ⟨ph', hexisting.later (List.Subset.trans h₂ h₃)⟩
    exact (grounded_tpmCall hevict).mono fun _ _ _ _ _ => trivial

theorem createAndPersist_grounded {force : Bool} (hwho : who.2 = .genesis force) :
    Prog.GroundedOk (Rests P who) (createAndPersist context) (fun _ _ => True) log := by
  unfold createAndPersist
  refine Prog.GroundedOk.bind (groundedOk_of_only
    (duplicableStoragePublic_only (fun _ hc log => hc.rests log) context)) fun pub log₁ _ _ => ?_
  refine Prog.GroundedOk.bind (Q := fun log' h => Returned log' (.createPrimary pub) h) ?_ ?_
  · refine grounded_nullauth (fun _ _ _ hle h => h.later hle) fun ctx log₂ _ => ?_
    exact grounded_tpmCall (c := .createPrimary pub) trivial
  · intro created log₂ _ hmade
    exact persist_grounded (.inr (.inl ⟨force, pub, hwho, hmade⟩))

theorem createFleetKey_grounded {force force' : Bool} (hwho : who.2 = .genesis force') :
    Prog.GroundedOk (Rests P who) (createFleetKey context force) (fun _ _ => True) log := by
  unfold createFleetKey
  split
  · exact Prog.GroundedOk.bind deletePersistedFleetKey_grounded
      fun _ _ _ _ => createAndPersist_grounded hwho
  · refine Prog.GroundedOk.bind (Prog.GroundedOk.lift (grounded_of_only
      (loadFleetKey_only (fun _ hc log => hc.rests log) context))) fun found log₁ _ _ => ?_
    cases found with
    | ok existing => exact fun _ _ => trivial
    | error e => exact createAndPersist_grounded hwho

theorem createTransportKey_grounded :
    Prog.GroundedOk (Rests P who) (createTransportKey context) (fun log' transport =>
      (∃ template, Returned log' (.createPrimary template) transport.1) ∧
        Returned log' (.readPublic transport.1) transport.2) log := by
  unfold createTransportKey
  refine Prog.GroundedOk.bind (groundedOk_of_only
    (duplicableStoragePublic_only (fun _ hc log => hc.rests log) context)) fun pub log₁ _ _ => ?_
  refine Prog.GroundedOk.bind (Q := fun log' h => Returned log' (.createPrimary pub) h) ?_ ?_
  · refine grounded_nullauth (fun _ _ _ hle h => h.later hle) fun ctx log₂ _ => ?_
    exact grounded_tpmCall (c := .createPrimary pub) trivial
  intro created log₂ _ hmade
  refine Prog.GroundedOk.bind (Q := fun log' a => Returned log' (.readPublic created) a) ?_ ?_
  · refine grounded_nullauth (fun _ _ _ hle h => h.later hle) fun ctx log₃ _ => ?_
    exact grounded_tpmCall (c := .readPublic created) trivial
  · intro transportPublic log₃ h₃ hread
    exact Prog.GroundedOk.pure ⟨⟨pub, hmade.later h₃⟩, hread⟩

theorem importAndPersist_grounded {h : Handle} {blob : DuplicationBlob}
    (hmay : MayImport P who.2 log h blob) :
    Prog.GroundedOk (Rests P who) (importAndPersist context h blob) (fun _ _ => True) log := by
  obtain ⟨seed, dir, -, -, hwho, -⟩ := id hmay
  unfold importAndPersist
  refine Prog.GroundedOk.bind (groundedOk_of_only
    (startSession_only (fun _ hc log => hc.rests log) context _)) fun session log₁ h₁ _ => ?_
  have himport : Prog.GroundedOk (Rests P who) (context.executeWithSession (some session)
      fun ctx => importAndLoad ctx h blob) (fun log' key => ∃ priv,
        Returned log' (.import h blob.encryptionKey blob.fleetKeyPublic blob.duplicatePrivate
          blob.encryptedSecret duplicationSymmetricAlg) priv ∧
        Returned log' (.load h priv blob.fleetKeyPublic) key) log₁ := by
    unfold importAndLoad
    refine Prog.GroundedOk.bind (grounded_tpmCall (c := .import h blob.encryptionKey
      blob.fleetKeyPublic blob.duplicatePrivate blob.encryptedSecret duplicationSymmetricAlg)
      (hmay.later h₁)) fun priv log₂ _ hpriv => ?_
    refine (grounded_tpmCall (c := .load h priv blob.fleetKeyPublic) trivial).longer.mono ?_
    intro log₃ r hload key hkey
    exact ⟨priv, hpriv.later hload.1, hload.2 key hkey⟩
  refine Prog.GroundedOk.bind (Prog.GroundedOk.lift himport) fun result log₂ _ hresult => ?_
  refine Prog.GroundedOk.bind (grounded_tpmCall (c := .flushContext (.session session)) trivial) ?_
  intro _ log₃ h₃ _
  cases result with
  | error e => exact fun _ h => by cases h
  | ok key =>
    obtain ⟨priv, himported, hloaded⟩ := hresult key rfl
    show Prog.GroundedOk (Rests P who) (deletePersistedFleetKey context >>= _ :
      Fallible FleetError Handle) _ log₃
    refine Prog.GroundedOk.bind deletePersistedFleetKey_grounded fun _ log₄ h₄ _ => ?_
    have hle := List.Subset.trans h₃ h₄
    refine Prog.GroundedOk.bind (persist_grounded (.inr (.inr ⟨seed, dir, h, _, _, _, _, _, priv,
      hwho, himported.later hle, hloaded.later hle⟩))) fun persisted log₅ _ _ => ?_
    refine Prog.GroundedOk.bind (Q := fun _ _ => True) ?_ fun _ _ _ _ _ _ => trivial
    refine grounded_nullauth (fun _ _ _ _ h => h) fun ctx log₆ _ => ?_
    exact (grounded_tpmCall (c := .flushContext h) trivial).mono fun _ _ _ _ _ => trivial

/-- A handler that was let in wraps for the key in its request, and returns what the TPM returned. -/
theorem duplicateForJoiner_grounded {service : EnrollService} {request : Request}
    {joinerPublic : Public} (hwho : who.2 = .duplicate service request)
    (hlet : LetIn P request log)
    (hpub : P.unmarshall request.message.joinerTransportPublic = some joinerPublic) :
    Prog.GroundedOk (Rests P who) (duplicateForJoiner context service.fleetKeyHandle joinerPublic)
      (fun log' blob => ∃ object newParent alg ek, blob.encryptionKey = some ek ∧
        Returned log' (.duplicate object newParent alg)
          (ek, blob.duplicatePrivate, blob.encryptedSecret)) log := by
  have hbenign : ∀ c : Cmd, c.benign → ∀ log, Rests P who log c := fun _ hc log => hc.rests log
  unfold duplicateForJoiner
  refine Prog.GroundedOk.bind (groundedOk_of_only (only_nullauth_benign hbenign
    fun _ => only_benign hbenign rfl)) fun fleetKeyPublic log₁ h₁ _ => ?_
  refine Prog.GroundedOk.bind (grounded_tpmCall (c := .loadExternalPublic joinerPublic) trivial) ?_
  intro external log₂ h₂ hexternal
  refine Prog.GroundedOk.bind (groundedOk_of_only
    (duplicationAuthPolicySession_only hbenign context)) fun session log₃ h₃ _ => ?_
  have hwrap : MayWrap P who.2 log₃ service.fleetKeyHandle external :=
    ⟨service, request, joinerPublic, hwho, rfl,
      hlet.later (List.Subset.trans h₁ (List.Subset.trans h₂ h₃)), hpub, hexternal.later h₃⟩
  refine Prog.GroundedOk.bind (Prog.GroundedOk.lift (grounded_tpmCall (c := .duplicate
    service.fleetKeyHandle external duplicationSymmetricAlg) hwrap)) fun result log₄ _ hresult => ?_
  refine Prog.GroundedOk.bind (grounded_tpmCall (c := .flushContext (.session session)) trivial) ?_
  intro _ log₅ h₅ _
  refine Prog.GroundedOk.bind (Prog.GroundedOk.lift
    (grounded_tpmCall (c := .flushContext external) trivial)) fun _ log₆ h₆ _ => ?_
  cases result with
  | error e => exact fun _ h => by cases h
  | ok wrapped =>
    exact Prog.GroundedOk.pure ⟨_, _, _, wrapped.1, rfl,
      ((hresult wrapped rfl).later h₅).later h₆⟩

end Fleet

/-! ## The processes

Genesis, join and the handlers are followed through their code. The rest of the processes issue none
of the four commands. -/

theorem joinRequest_grounded (seed k0sDataDir : String) :
    Prog.GroundedOk (Rests P who) (joinRequest P seed k0sDataDir) (fun log' join =>
      (∃ template, Returned log' (.createPrimary template) join.transportHandle) ∧
      ∃ pub, Returned log' (.readPublic join.transportHandle) pub ∧
        P.marshall pub = some join.request.joinerTransportPublic) log := by
  have hfile : ∀ path log, Prog.GroundedOk (Rests P who) (readToString path) (fun _ _ => True) log := by
    intro path log
    refine Prog.GroundedOk.bind (Q := fun _ _ => True) ⟨trivial, fun _ _ _ => trivial⟩ ?_
    intro content log' _ _
    cases content with
    | error => exact fun _ _ => trivial
    | ok => exact fun _ _ => trivial
  unfold joinRequest
  refine Prog.GroundedOk.bind (groundedOk_of_only
    (only_contextNew fun _ hc log => hc.rests log)) fun context log₁ _ _ => ?_
  refine Prog.GroundedOk.bind (Prog.GroundedOk.mapErr Fleet.createTransportKey_grounded) ?_
  intro transport log₂ _ htransport
  obtain ⟨⟨template, hmade⟩, hread⟩ := htransport
  refine Prog.GroundedOk.bind (hfile _ _) fun _ log₃ h₃ _ => ?_
  refine Prog.GroundedOk.bind (hfile _ _) fun _ log₄ h₄ _ => ?_
  refine Prog.GroundedOk.bind (Q := fun _ _ => True) ⟨trivial, fun _ _ _ => trivial⟩ ?_
  intro connected log₅ h₅ _
  have hle := List.Subset.trans h₃ (List.Subset.trans h₄ h₅)
  cases connected with
  | error => exact fun _ h => by cases h
  | ok =>
    dsimp only
    split
    · exact fun _ h => by cases h
    · rename_i joinerTransportPublic hmarshall
      exact Prog.GroundedOk.pure ⟨⟨template, hmade.later hle⟩, _, hread.later hle, hmarshall⟩

theorem runJoin_grounded {seed k0sDataDir : String} (hwho : who.2 = .join seed k0sDataDir) :
    Prog.GroundedOk (Rests P who) (runJoin P seed k0sDataDir) (fun _ _ => True) log := by
  unfold runJoin
  refine Prog.GroundedOk.bind (joinRequest_grounded seed k0sDataDir) fun join log₁ _ hjoin => ?_
  obtain ⟨⟨template, hmade⟩, pub, hread, hmarshall⟩ := hjoin
  have hrpc : (issue (.duplicateRpc join.request)).Grounded (Rests P who) (fun log' r =>
      (⟨.duplicateRpc join.request, r⟩ : Event Cmd Cmd.Res) ∈ log') log₁ :=
    ⟨trivial, fun r => List.mem_append_right _ (List.mem_singleton.mpr rfl)⟩
  refine Prog.GroundedOk.bind (Prog.GroundedOk.lift hrpc) fun answer log₂ h₂ hmem => ?_
  cases answer with
  | error => exact fun _ _ => trivial
  | ok response =>
    show Prog.GroundedOk (Rests P who) (joinFinish P join response) _ log₂
    unfold joinFinish
    cases hdec : decodeResponse P response with
    | error e => exact fun _ _ => trivial
    | ok blob =>
      have hmay : MayImport P who.2 log₂ join.transportHandle blob :=
        ⟨seed, k0sDataDir, pub, response, hwho,
          ⟨⟨template, hmade.later h₂⟩, hread.later h₂, join.request, hmarshall, hmem⟩, hdec⟩
      show Prog.GroundedOk (Rests P who) (Prog.mapErr JoinError.fleet
        (Fleet.importAndPersist join.context join.transportHandle blob) >>= _ :
          Fallible JoinError Unit) _ log₂
      refine Prog.GroundedOk.bind
        (Prog.GroundedOk.mapErr (Fleet.importAndPersist_grounded hmay)) ?_
      exact fun _ _ _ _ _ _ => trivial

theorem serveDuplicate_grounded {service : EnrollService} {request : Request}
    (hwho : who.2 = .duplicate service request) (hlet : LetIn P request log) :
    Prog.GroundedOk (Rests P who) (service.serveDuplicate P request)
      (fun log' response => MaySend log' response) log := by
  unfold EnrollService.serveDuplicate
  cases hpub : P.unmarshall request.message.joinerTransportPublic with
  | none => exact fun _ h => by cases h
  | some joinerPublic =>
    show Prog.GroundedOk (Rests P who) (service.lockedDuplicate joinerPublic >>= _ :
      Fallible Status DuplicateResponse) _ log
    refine Prog.GroundedOk.bind (Q := fun log' blob => ∃ object newParent alg ek,
      blob.encryptionKey = some ek ∧ Returned log' (.duplicate object newParent alg)
        (ek, blob.duplicatePrivate, blob.encryptedSecret)) ?_ ?_
    · unfold EnrollService.lockedDuplicate
      refine Prog.GroundedOk.bind (Q := fun _ _ => True) ⟨trivial, fun _ _ _ => trivial⟩ ?_
      intro locked log₁ h₁ _
      cases locked with
      | error => exact fun _ h => by cases h
      | ok =>
        refine Prog.GroundedOk.bind (Prog.GroundedOk.lift
          (Fleet.duplicateForJoiner_grounded hwho (hlet.later h₁) hpub)) fun blob log₂ _ hblob => ?_
        refine Prog.GroundedOk.bind (Q := fun _ _ => True) ⟨trivial, fun _ _ _ => trivial⟩ ?_
        intro _ log₃ h₃ _
        cases blob with
        | error e => exact fun _ h => by cases h
        | ok blob =>
          obtain ⟨object, newParent, alg, ek, hek, hret⟩ := hblob blob rfl
          exact Prog.GroundedOk.pure ⟨object, newParent, alg, ek, hek, hret.later h₃⟩
    · intro blob log₁ _ hblob
      obtain ⟨object, newParent, alg, ek, hek, hret⟩ := hblob
      unfold EnrollService.response
      split
      · exact fun _ h => by cases h
      · exact Prog.GroundedOk.pure ⟨object, newParent, alg, ek, _, _, hret, by simp [hek],
          by simp [hek], rfl, rfl⟩

theorem duplicate_grounded {service : EnrollService} {request : Request}
    (hwho : who.2 = .duplicate service request) :
    ((service.duplicate P request).bind sendAnswer).Grounded (Rests P who) (fun _ _ => True) log := by
  have hsend : ∀ {log' : List (Event Cmd Cmd.Res)} {answer : Except Status DuplicateResponse},
      (∀ response, answer = .ok response → MaySend log' response) →
        (sendAnswer answer).Grounded (Rests P who) (fun _ _ => True) log' := by
    intro log' answer hanswer
    cases answer with
    | error st => exact trivial
    | ok response => exact ⟨hanswer response rfl, fun _ => trivial⟩
  refine Prog.Grounded.bind ?_
  rw [duplicate_eq]
  refine ⟨trivial, fun n => ?_⟩
  dsimp only
  by_cases hn : n = 0
  · rw [if_pos hn]
    exact ⟨trivial, fun _ => trivial⟩
  · rw [if_neg hn, handleDuplicate_eq]
    cases hname : EnrollService.requestedNode P request with
    | error st => exact ⟨trivial, fun _ => trivial⟩
    | ok name =>
      refine ⟨trivial, fun r => ?_⟩
      cases r with
      | error => exact ⟨trivial, fun _ => trivial⟩
      | ok u =>
        cases u
        refine Prog.Grounded.bind ((serveDuplicate_grounded hwho ⟨⟨n, hn, by simp⟩, name, hname,
          by simp⟩).mono ?_)
        intro log' answer hanswer
        cases answer with
        | error st => exact ⟨trivial, fun _ => trivial⟩
        | ok response =>
          have hmay := hanswer response rfl
          rw [settle_ok]
          split
          · refine ⟨trivial, fun _ => hsend fun response' hr => ?_⟩
            obtain rfl := Except.ok.inj hr
            obtain ⟨object, newParent, alg, ek, priv, secret, hret, hbytes⟩ := hmay
            exact ⟨object, newParent, alg, ek, priv, secret,
              hret.later (List.subset_append_left _ _), hbytes⟩
          · exact hsend fun response' hr => Except.ok.inj hr ▸ hmay

/-- **Every process rests on its past**, whatever it is answered. -/
theorem program_grounded (who : ι × Program) :
    (who.2.code P).Grounded (Rests P who) (fun _ _ => True) [] := by
  have hbenign : ∀ c : Cmd, c.benign → ∀ log, Rests P who log c := fun _ hc log => hc.rests log
  have hforget : ∀ {x : Fallible AnyError Unit} {Q : List (Event Cmd Cmd.Res) → Unit → Prop},
      Prog.GroundedOk (Rests P who) x Q [] →
        (x.run.bind fun _ => .ret ()).Grounded (Rests P who) (fun _ _ => True) [] :=
    fun hx => Prog.Grounded.bind (hx.mono fun _ _ _ => trivial)
  obtain ⟨i, program⟩ := who
  cases program with
  | genesis force =>
    refine hforget (Q := fun _ _ => True) ?_
    unfold runGenesis
    refine Prog.GroundedOk.bind (Prog.GroundedOk.mapErr (groundedOk_of_only
      (only_contextNew hbenign))) fun context log₁ _ _ => ?_
    refine Prog.GroundedOk.bind (Prog.GroundedOk.mapErr (Prog.GroundedOk.mapErr
      (Fleet.createFleetKey_grounded rfl))) fun _ _ _ _ _ _ => trivial
  | join seed k0sDataDir =>
    exact Prog.Grounded.bind ((runJoin_grounded rfl).mono fun _ _ _ => trivial)
  | duplicate service request => exact duplicate_grounded rfl
  | enroll => exact grounded_of_only (Prog.Only.bind (runEnroll_only hbenign) fun _ => trivial)
  | serve forceLegacy =>
    exact grounded_of_only (Prog.Only.bind (runServe_only hbenign P forceLegacy) fun _ => trivial)
  | encrypt service plaintext =>
    exact grounded_of_only (Prog.Only.bind (KmsService.encrypt_only hbenign P service plaintext
      fun _ _ => trivial) fun _ => trivial)
  | decrypt service keyId ciphertext =>
    exact grounded_of_only (Prog.Only.bind (KmsService.decrypt_only hbenign P service keyId ciphertext
      fun _ _ _ => trivial) fun _ => trivial)
  | stop service =>
    exact grounded_of_only (KmsService.drop_only hbenign service (fun _ _ => trivial)
      fun _ _ _ _ => trivial)
  | status => exact grounded_of_only (Prog.Only.bind (runStatus_only hbenign P) fun _ => trivial)

end Conduct

end Sceau
