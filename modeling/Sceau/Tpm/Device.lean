import Sceau.Tpm.Esapi

/-!
# The TPM as a device

What the repository relies on of a TPM 2.0 and its resource manager, as a `Lib.Device`. Nothing
cryptographic is modelled as a function on bytes. Instead a **ledger**, shared by all TPMs of a
system, records which objects some TPM created and which duplicates some TPM wrapped, and the
commands that unwrap consult it: an object loads only under the key it was created under, and a
duplicate imports only under the transport key it was wrapped for. The bytes themselves are the
environment's choice, required to be fresh and otherwise arbitrary.

Each command has two outcomes. It may **fail**, and then has no effect: always possible when the
TPM has to refuse it (`refuses`), and otherwise when the fault model `faults` allows the command to
fail for no reason. Or it is **performed**, which is impossible when the TPM has to refuse it.
-/

set_option autoImplicit false

namespace Sceau

open Lib

/-! ## State -/

/-- A transient object in the TPM, tagged with the ESAPI context that loaded it. -/
structure LoadedObject where
  ctx : Nat
  id : Nat
  obj : Obj
  deriving DecidableEq

/-- An open session and the policy digest it has accumulated. -/
structure OpenSession where
  ctx : Nat
  session : AuthSession
  policy : Digest := .empty
  deriving DecidableEq

theorem noObject_lt : ∀ o ∈ ([] : List LoadedObject), o.id < 0 :=
  fun _ h => absurd h List.not_mem_nil

theorem noSession_lt : ∀ s ∈ ([] : List OpenSession), s.session.id < 0 :=
  fun _ h => absurd h List.not_mem_nil

/-- One TPM. `slot` is what it holds at the fleet key's persistent handle. `ownerSeed` is what its
owner hierarchy derives for a template; `none` stands for a template whose key it draws at random
each time. -/
structure Tpm where
  ownerSeed : Public → Option Bytes
  slot : Option Public := none
  objects : List LoadedObject := []
  sessions : List OpenSession := []
  next : Nat := 0
  objects_lt : ∀ o ∈ objects, o.id < next := by exact noObject_lt
  sessions_lt : ∀ s ∈ sessions, s.session.id < next := by exact noSession_lt

namespace Tpm

def addObject (t : Tpm) (ctx : Nat) (obj : Obj) : Tpm :=
  { t with
    objects := ⟨ctx, t.next, obj⟩ :: t.objects
    next := t.next + 1
    objects_lt := by
      intro o ho
      rcases List.mem_cons.mp ho with rfl | ho
      · exact Nat.lt_succ_self _
      · exact Nat.lt_succ_of_lt (t.objects_lt o ho)
    sessions_lt := fun s hs => Nat.lt_succ_of_lt (t.sessions_lt s hs) }

def addSession (t : Tpm) (ctx : Nat) (ty : SessionType) : Tpm :=
  { t with
    sessions := { ctx, session := ⟨t.next, ty⟩ } :: t.sessions
    next := t.next + 1
    objects_lt := fun o ho => Nat.lt_succ_of_lt (t.objects_lt o ho)
    sessions_lt := by
      intro s hs
      rcases List.mem_cons.mp hs with rfl | hs
      · exact Nat.lt_succ_self _
      · exact Nat.lt_succ_of_lt (t.sessions_lt s hs) }

/-- `TPM2_FlushContext` of a transient object. -/
def dropObject (t : Tpm) (id : Nat) : Tpm :=
  { t with
    objects := t.objects.filter (·.id ≠ id)
    objects_lt := fun o ho => t.objects_lt o (List.mem_of_mem_filter ho) }

/-- `TPM2_FlushContext` of a session. -/
def dropSession (t : Tpm) (id : Nat) : Tpm :=
  { t with
    sessions := t.sessions.filter (·.session.id ≠ id)
    sessions_lt := fun s hs => t.sessions_lt s (List.mem_of_mem_filter hs) }

/-- `TPM2_PolicyCommandCode` on a session. -/
def setPolicy (t : Tpm) (id : Nat) (policy : Digest) : Tpm :=
  { t with
    sessions := t.sessions.map fun s => if s.session.id = id then { s with policy } else s
    sessions_lt := by
      intro s hs
      obtain ⟨s', hs', rfl⟩ := List.mem_map.mp hs
      split
      · exact t.sessions_lt s' hs'
      · exact t.sessions_lt s' hs' }

/-- A new ESAPI context only takes a number. -/
def takeId (t : Tpm) : Tpm :=
  { t with
    next := t.next + 1
    objects_lt := fun o ho => Nat.lt_succ_of_lt (t.objects_lt o ho)
    sessions_lt := fun s hs => Nat.lt_succ_of_lt (t.sessions_lt s hs) }

/-- The primary key `TPM2_CreatePrimary` makes of a template. -/
def primary (t : Tpm) (template : Public) (random : Bytes) : Public :=
  { template with unique := (t.ownerSeed template).getD random }

end Tpm

/-- What an object created under a storage key contains: sealed data, or (an imported one) a key. -/
inductive Content where
  | data (d : Bytes)
  | key
  deriving DecidableEq

structure CreatedObject where
  parent : Public
  pub : Public
  priv : Private
  content : Content
  deriving DecidableEq

/-- The object `TPM2_Load` makes of it. -/
def CreatedObject.load (o : CreatedObject) : Obj :=
  match o.content with
  | .data d => .sealedData o.pub d
  | .key => .key o.pub

@[simp] theorem CreatedObject.load_pub (o : CreatedObject) : o.load.pub = o.pub := by
  unfold load
  cases o.content <;> rfl

/-- A `TPM2_Duplicate` of `key` wrapped for the transport key `target`. -/
structure Duplicated where
  key : Public
  target : Public
  encryptionKey : Data
  priv : Private
  secret : EncryptedSecret
  deriving DecidableEq

structure Ledger where
  objects : List CreatedObject := []
  dups : List Duplicated := []

namespace Ledger

def findObject (l : Ledger) (parent pub : Public) (priv : Private) : Option CreatedObject :=
  l.objects.find? fun o => o.parent = parent ∧ o.pub = pub ∧ o.priv = priv

def findDup (l : Ledger) (encryptionKey : Option Data) (priv : Private)
    (secret : EncryptedSecret) : Option Duplicated :=
  l.dups.find? fun d => some d.encryptionKey = encryptionKey ∧ d.priv = priv ∧ d.secret = secret

end Ledger

structure Machine where
  tpm : Tpm
  ledger : Ledger := {}

namespace Machine

variable (m : Machine)

/-- The object a handle stands for, if it still does. A persistent handle is good only while the
slot holds the key it was made for. -/
def resolve (ctx : Context) : Handle → Option Obj
  | .transient id obj => if ⟨ctx.id, id, obj⟩ ∈ m.tpm.objects then some obj else none
  | .persistent pub => if m.tpm.slot = some pub then some (.key pub) else none
  | .session _ => none

def openSession (ctx : Context) (s : AuthSession) : Option OpenSession :=
  m.tpm.sessions.find? fun e => e.ctx = ctx.id ∧ e.session = s

/-- USER-role authorization: the ambient session is an open HMAC session. -/
def hasAuth (ctx : Context) : Bool :=
  match ctx.session with
  | some s => s.sessionType == .hmac && (m.openSession ctx s).isSome
  | none => false

/-- The policy digest of the ambient session, if that is an open policy session. -/
def ambientPolicy (ctx : Context) : Option Digest :=
  match ctx.session with
  | some s => if s.sessionType = .policy then (m.openSession ctx s).map (·.policy) else none
  | none => none

/-- A storage key an object can be created, loaded or imported under. -/
def storageParent (ctx : Context) (h : Handle) : Option Public :=
  match m.resolve ctx h with
  | some (.key pub) =>
    if pub.objectAttributes.restricted && pub.objectAttributes.decrypt then some pub else none
  | _ => none

end Machine

/-- The persistent handle of `fleet.rs`, the only one the model's TPM has. -/
def fleetKeyPersistentHandle : Nat := 0x81020001

/-- `TPM_RC_ATTRIBUTES`: a child is fixed to its TPM exactly when it is fixed to a parent that is. -/
def attributesConsistent (parent child : Public) : Bool :=
  child.objectAttributes.fixedTpm ==
    (child.objectAttributes.fixedParent && parent.objectAttributes.fixedTpm)

/-! ## Refusals -/

/-- The commands the TPM cannot perform in this state, and so has to fail. -/
def refuses (m : Machine) (ctx : Context) : TpmCmd → Bool
  | .startAuthSession _ => false
  | .trSessSetAttributes s _ => (m.openSession ctx s).isNone
  | .policyCommandCode s _ => s.sessionType == .hmac || (m.openSession ctx s).isNone
  | .policyGetDigest s => s.sessionType == .hmac || (m.openSession ctx s).isNone
  | .flushContext (.transient id obj) => !decide (⟨ctx.id, id, obj⟩ ∈ m.tpm.objects)
  | .flushContext (.session s) => (m.openSession ctx s).isNone
  | .flushContext (.persistent _) => true
  | .createPrimary _ => !m.hasAuth ctx
  | .readPublic h => (m.resolve ctx h).isNone
  | .trFromTpmPublic h => h.value != fleetKeyPersistentHandle || m.tpm.slot.isNone
  | .loadExternalPublic _ => false
  | .duplicate object newParent _ =>
    match m.resolve ctx object, m.resolve ctx newParent with
    | some (.key pub), some _ =>
      pub.objectAttributes.fixedTpm || pub.objectAttributes.fixedParent ||
        pub.authPolicy != .policyCommandCode .duplicate ||
        m.ambientPolicy ctx != some pub.authPolicy
    | _, _ => true
  | .import parent encryptionKey pub duplicate secret _ =>
    match m.storageParent ctx parent with
    | some t =>
      !m.hasAuth ctx ||
        match m.ledger.findDup encryptionKey duplicate secret with
        | some d => d.target != t || d.key != pub
        -- Anybody can wrap an object for a public key; such a blob is in no ledger.
        | none => false
    | none => true
  | .load parent priv pub =>
    match m.storageParent ctx parent with
    | some t => !m.hasAuth ctx || (m.ledger.findObject t pub priv).isNone
    | none => true
  | .evictControl object persistent =>
    !m.hasAuth ctx || persistent.value != fleetKeyPersistentHandle ||
      match object with
      -- `TPM_RC_NV_DEFINED`: a transient object goes into an empty handle only.
      | .transient id (.key pub) =>
        !decide (⟨ctx.id, id, .key pub⟩ ∈ m.tpm.objects) || m.tpm.slot.isSome
      | .persistent pub => m.tpm.slot != some pub
      | _ => true
  | .create parent template sensitive =>
    match m.storageParent ctx parent with
    | some t => !m.hasAuth ctx || sensitive.isEmpty || !attributesConsistent t template
    | none => true
  | .unseal h =>
    match m.resolve ctx h with
    | some (.sealedData _ _) => !m.hasAuth ctx
    | _ => true

/-! ## Effects -/

/-- What the environment contributes to a command that is performed: the TPM's random numbers and
wrapped blobs. -/
structure Rnd where
  unique : Bytes := []
  priv : Bytes := []
  data : Bytes := []
  secret : Bytes := []
  /-- `Esys_StartAuthSession` comes back without a handle -/
  noHandle : Bool := false

/-- The effect of a command that is not refused. `none` when the random choice is not one a TPM
can make: a blob it already returned, or one that does not fit its buffer. -/
def perform (P : Platform) (m : Machine) (ctx : Context) :
    (c : TpmCmd) → Rnd → Option (c.Res × Machine)
  | .startAuthSession ty, rnd =>
    if rnd.noHandle then some (none, m)
    else some (some ⟨m.tpm.next, ty⟩, { m with tpm := m.tpm.addSession ctx.id ty })
  | .trSessSetAttributes _ _, _ => some ((), m)
  | .policyCommandCode s code, _ =>
    some ((), { m with tpm := m.tpm.setPolicy s.id (.policyCommandCode code) })
  | .policyGetDigest s, _ =>
    (m.openSession ctx s).map fun e => (e.policy, m)
  | .flushContext (.transient id _), _ => some ((), { m with tpm := m.tpm.dropObject id })
  | .flushContext (.session s), _ => some ((), { m with tpm := m.tpm.dropSession s.id })
  | .flushContext (.persistent _), _ => none
  | .createPrimary template, rnd =>
    if rnd.unique.length ≤ P.uniqueMax then
      let obj := Obj.key (m.tpm.primary template rnd.unique)
      some (.transient m.tpm.next obj, { m with tpm := m.tpm.addObject ctx.id obj })
    else none
  | .readPublic h, _ => (m.resolve ctx h).map fun o => (o.pub, m)
  | .trFromTpmPublic _, _ => m.tpm.slot.map fun pub => (.persistent pub, m)
  | .loadExternalPublic pub, _ =>
    some (.transient m.tpm.next (.external pub),
      { m with tpm := m.tpm.addObject ctx.id (.external pub) })
  | .duplicate object newParent _, rnd =>
    match m.resolve ctx object, m.resolve ctx newParent with
    | some o, some t =>
      if (m.ledger.findDup (some ⟨rnd.data⟩) ⟨rnd.priv⟩ ⟨rnd.secret⟩).isSome then none
      else some ((⟨rnd.data⟩, ⟨rnd.priv⟩, ⟨rnd.secret⟩),
        { m with ledger := { m.ledger with
            dups := ⟨o.pub, t.pub, ⟨rnd.data⟩, ⟨rnd.priv⟩, ⟨rnd.secret⟩⟩ :: m.ledger.dups } })
    | _, _ => none
  | .import parent _ pub _ _ _, rnd =>
    match m.storageParent ctx parent with
    | some t =>
      if (m.ledger.findObject t pub ⟨rnd.priv⟩).isSome then none
      else some (⟨rnd.priv⟩,
        { m with ledger := { m.ledger with
            objects := ⟨t, pub, ⟨rnd.priv⟩, .key⟩ :: m.ledger.objects } })
    | none => none
  | .load parent priv pub, _ =>
    match m.storageParent ctx parent with
    | some t =>
      (m.ledger.findObject t pub priv).map fun o =>
        (.transient m.tpm.next o.load, { m with tpm := m.tpm.addObject ctx.id o.load })
    | none => none
  | .evictControl (.transient _ obj) _, _ =>
    some (.persistent obj.pub, { m with tpm := { m.tpm with slot := some obj.pub } })
  | .evictControl h _, _ => some (h, { m with tpm := { m.tpm with slot := none } })
  | .create parent template sensitive, rnd =>
    match m.storageParent ctx parent with
    | some t =>
      let pub := { template with unique := rnd.unique }
      if rnd.unique.length ≤ P.uniqueMax ∧ rnd.priv.length ≤ P.privateMax ∧
          m.ledger.findObject t pub ⟨rnd.priv⟩ = none then
        some ((⟨rnd.priv⟩, pub),
          { m with ledger := { m.ledger with
              objects := ⟨t, pub, ⟨rnd.priv⟩, .data sensitive⟩ :: m.ledger.objects } })
      else none
    | none => none
  | .unseal h, _ =>
    match m.resolve ctx h with
    | some (.sealedData _ d) => some (d, m)
    | _ => none

/-! ## The device -/

/-- What the environment does with a command: fail a TPM command, or have it performed; answer one
that is not the TPM's. -/
inductive Choice where
  | fail (e : TssError)
  | ok (rnd : Rnd)
  | counter (value : UInt64)
  | io (succeeds : Bool)
  | file (content : Option Bytes)
  | reply (response : Option DuplicateResponse)

/-- A command performed, all random bytes being `tag`. -/
def performed (tag : UInt8) : Choice :=
  .ok { unique := [tag], priv := [tag], data := [tag], secret := [tag] }

/-- One TPM command. `faults c` says whether `c` may fail without the TPM having to refuse it, and
whether it may come back without a handle. -/
def tpmStep (P : Platform) (faults : TpmCmd → Bool) (ctx : Context) (c : TpmCmd) (m : Machine) :
    Choice → Option (Except TssError c.Res × Machine)
  | .fail e => if faults c || refuses m ctx c then some (.error e, m) else none
  | .ok rnd =>
    if refuses m ctx c || (rnd.noHandle && !faults c) then none
    else (perform P m ctx c rnd).map fun x => (.ok x.1, x.2)
  | _ => none

/-- The device of a program alone on its TPM. Whatever is not the TPM's answers as it likes: the
files, the network, the cluster and the permit counter of another process's making. -/
def nodeDevice (P : Platform) (faults : TpmCmd → Bool) : Device Cmd Cmd.Res Machine Choice
  | .tpm ctx c, m, e => tpmStep P faults ctx c m e
  | .openContext, m, .fail e => some (.error e, m)
  | .openContext, m, .ok _ => some (.ok { id := m.tpm.next }, { m with tpm := m.tpm.takeId })
  | .fetchSub, m, .counter n => some (n, m)
  | .fetchAdd, m, .io _ => some ((), m)
  | .notifyOne, m, .io _ => some ((), m)
  | .getNode _, m, .io b => some (if b then .ok () else .error (), m)
  | .lockContext, m, .io b => some (if b then .ok () else .error (), m)
  | .unlockContext, m, .io _ => some ((), m)
  | .readFile _, m, .file b => some (b.elim (.error ()) .ok, m)
  | .connect _, m, .io b => some (if b then .ok () else .error (), m)
  | .duplicateRpc _, m, .reply r => some (r.elim (.error ()) .ok, m)
  | .sendResponse _, m, .io _ => some ((), m)
  | _, _, _ => none

/-- Every command may fail. -/
def anyFault : TpmCmd → Bool := fun _ => true

/-- Every command but `TPM2_FlushContext` may fail. -/
def noFlushFault : TpmCmd → Bool
  | .flushContext _ => false
  | _ => true

/-- A command fails only where the TPM has to refuse it. -/
def noFault : TpmCmd → Bool := fun _ => false

end Sceau
