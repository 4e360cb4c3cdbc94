import Sceau.Enroll.Code
import Sceau.Sealer.Code

/-!
# A node's commands (`join.rs`, `kms.rs`, `main.rs`, the start of `run_enroll`)

What an operator runs on a node — genesis, join, enroll, serve, status — and what the apiserver
asks of a running serve. Argument parsing, the socket and the TLS set-up are left out: they touch
neither the TPM nor a sealer, and a process that fails there ends as one that was stopped.

`join` is cut where it waits for the seed: `joinRequest` before the RPC, `joinFinish` after it.
-/

set_option autoImplicit false

namespace Sceau

open Lib

/-! ## Join (`join.rs`) -/

inductive JoinError where
  | fleet (e : FleetError)
  | tss (e : TssError)
  | read (path : String)
  | connect (uri : String)
  | rejected
  | unmarshall
  deriving DecidableEq

instance : FromTss JoinError := ⟨.tss⟩

/-- A transport key waiting for the seed's response. -/
structure PendingJoin where
  context : Context
  transportHandle : Handle
  request : DuplicateRequest
  deriving DecidableEq

/-- `std::fs::read_to_string(path).map_err(..)?`. -/
def readToString (path : String) : Fallible JoinError Bytes := do
  match ← liftM (issue (.readFile path)) with
  | .ok content => return content
  | .error () => throw (.read path)

/-- `run_join` up to the RPC. -/
def joinRequest (P : Platform) (seed k0sDataDir : String) : Fallible JoinError PendingJoin := do
  let context ← Context.new
  let (transportHandle, transportPublic) ←
    Prog.mapErr JoinError.fleet (Fleet.createTransportKey context)
  let _ ← readToString (k0sDataDir ++ "/kubelet/pki/kubelet-client-current.pem")
  let _ ← readToString (k0sDataDir ++ "/pki/ca.crt")
  let uri := "https://" ++ seed
  match ← liftM (issue (.connect uri)) with
  | .error () => throw (.connect uri)
  | .ok () =>
    match P.marshall transportPublic with
    | none => throw (.tss .invalidParam)
    | some joinerTransportPublic =>
      return { context, transportHandle, request := { joinerTransportPublic } }

/-- The seed's response as a blob. -/
def decodeResponse (P : Platform) (response : DuplicateResponse) :
    Except JoinError DuplicationBlob :=
  match P.unmarshall response.fleetKeyPublic with
  | none => .error .unmarshall
  | some fleetKeyPublic =>
    match P.privateTryFrom response.duplicatePrivate with
    | none => .error .unmarshall
    | some duplicatePrivate =>
      match P.encryptedSecretTryFrom response.encryptedSecret with
      | none => .error .unmarshall
      | some encryptedSecret =>
        if response.hasEncryptionKey then
          match P.dataTryFrom response.encryptionKey with
          | none => .error .unmarshall
          | some data =>
            .ok { fleetKeyPublic, duplicatePrivate, encryptedSecret, encryptionKey := some data }
        else .ok { fleetKeyPublic, duplicatePrivate, encryptedSecret, encryptionKey := none }

/-- `run_join` from the response on. -/
def joinFinish (P : Platform) (join : PendingJoin) (response : DuplicateResponse) :
    Fallible JoinError Unit := do
  let blob ← ExceptT.mk (.ret (decodeResponse P response))
  let _ ← Prog.mapErr JoinError.fleet
    (Fleet.importAndPersist join.context join.transportHandle blob)
  return ()

/-- `run_join`. -/
def runJoin (P : Platform) (seed k0sDataDir : String) : Fallible JoinError Unit := do
  let join ← joinRequest P seed k0sDataDir
  match ← liftM (issue (.duplicateRpc join.request)) with
  | .error () => throw .rejected
  | .ok response => joinFinish P join response

/-! ## The KMS service (`kms.rs`) -/

/-- A `std::sync::Mutex`: a panic while it is held poisons it. -/
structure Mutex (α : Type) where
  value : α
  poisoned : Bool := false
  deriving DecidableEq

/-- What follows "sceau: " in an internal status. -/
inductive KmsCause where
  | tpm (e : TpmError)
  | poisoned
  deriving DecidableEq

inductive KmsStatus where
  | internal (cause : KmsCause)
  | invalidArgument (message : String)
  deriving DecidableEq

structure KmsService where
  sealer : Mutex TpmSealer
  legacySealer : Option (Mutex TpmSealer)
  deriving DecidableEq

structure EncryptResponse where
  ciphertext : Bytes
  keyId : String
  deriving DecidableEq

structure StatusResponse where
  version : String
  healthz : String
  keyId : String
  deriving DecidableEq

/-- Call a sealer under its lock: a poisoned lock is an error, and a panic poisons it. -/
def Mutex.call {α : Type} (lock : Mutex TpmSealer)
    (f : TpmSealer → Fallible (Failure TpmError) α) :
    Code (Except (Failure KmsStatus) α × Mutex TpmSealer) := do
  if lock.poisoned then
    return (.error (.error (.internal .poisoned)), lock)
  else
    match ← (f lock.value).run with
    | .ok a => return (.ok a, lock)
    | .error (.error e) => return (.error (.error (.internal (.tpm e))), lock)
    | .error .panic => return (.error .panic, { lock with poisoned := true })

namespace KmsService

variable (P : Platform) (self : KmsService)

/-- `KmsService::new`. -/
def new (sealer : TpmSealer) : KmsService := { sealer := { value := sealer }, legacySealer := none }

/-- `KmsService::with_legacy_fallback`. -/
def withLegacyFallback (sealer legacySealer : TpmSealer) : KmsService :=
  { sealer := { value := sealer }, legacySealer := some { value := legacySealer } }

/-- `KmsService::key_id`: of a poisoned sealer, the default. -/
def keyId : String := if self.sealer.poisoned then "" else self.sealer.value.keyId

/-- `status`. -/
def status : StatusResponse := { version := "v2", healthz := "ok", keyId := self.keyId }

/-- `encrypt`. -/
def encrypt (plaintext : Bytes) :
    Code (Except (Failure KmsStatus) EncryptResponse × KmsService) := do
  let (sealed, sealer) ← self.sealer.call fun sealer => sealer.seal P plaintext
  return (sealed.map fun ciphertext => { ciphertext, keyId := self.sealer.value.keyId },
    { self with sealer })

def unknownKeyId (keyId : String) : KmsStatus := .invalidArgument ("unknown key_id " ++ keyId)

/-- `decrypt`. -/
def decrypt (keyId : String) (ciphertext : Bytes) :
    Code (Except (Failure KmsStatus) Bytes × KmsService) := do
  -- a poisoned lock is reported before the key_id is looked at
  if self.sealer.poisoned ∨ keyId = self.sealer.value.keyId then
    let (plaintext, sealer) ← self.sealer.call fun sealer => sealer.unseal P ciphertext
    return (plaintext, { self with sealer })
  else
    match self.legacySealer with
    | none => return (.error (.error (unknownKeyId keyId)), self)
    | some legacy =>
      if legacy.poisoned ∨ keyId = legacy.value.keyId then
        let (plaintext, legacy) ← legacy.call fun sealer => sealer.unseal P ciphertext
        return (plaintext, { self with legacySealer := some legacy })
      else return (.error (.error (unknownKeyId keyId)), self)

/-- The end of serve: the sealers are dropped. -/
def drop : Code Unit := do
  self.sealer.value.drop
  match self.legacySealer with
  | none => return ()
  | some legacy => legacy.value.drop

end KmsService

/-! ## The subcommands (`main.rs`) -/

inductive AnyCause where
  | tss (e : TssError)
  | tpm (e : TpmError)
  | fleet (e : FleetError)
  deriving DecidableEq

/-- `anyhow::Error`: a cause and the contexts added to it, outermost first. -/
structure AnyError where
  cause : AnyCause
  contexts : List String := []
  deriving DecidableEq

instance : FromTss AnyError := ⟨fun e => { cause := .tss e }⟩

/-- `.context(msg)`. -/
def withContext {α : Type} (msg : String) (x : Fallible AnyError α) : Fallible AnyError α :=
  Prog.mapErr (fun e => { e with contexts := msg :: e.contexts }) x

/-- The question mark on a sealer's result, under `anyhow`. -/
def ofTpm {α : Type} (x : Fallible TpmError α) : Fallible AnyError α :=
  Prog.mapErr (fun e => { cause := .tpm e }) x

def ofFleet {α : Type} (x : Fallible FleetError α) : Fallible AnyError α :=
  Prog.mapErr (fun e => { cause := .fleet e }) x

section Main

variable (P : Platform)

/-- `build_sealer`. -/
def buildSealer : Fallible AnyError (TpmSealer × Option TpmSealer) := do
  let probe ← withContext "connecting to TPM" Context.new
  match ← liftM (Fleet.loadFleetKey probe).run with
  | .ok fleetKey =>
    let primary ← ofTpm (TpmSealer.fromPrimary P probe fleetKey)
    let legacy ← withContext "building legacy per-node SRK fallback for Decrypt"
      (ofTpm (TpmSealer.new P))
    return (primary, some legacy)
  | .error _ =>
    let sealer ← ofTpm (TpmSealer.new P)
    return (sealer, none)

/-- The sealers `run_serve` starts with. -/
def chooseSealer (forceLegacy : Bool) : Fallible AnyError (TpmSealer × Option TpmSealer) := do
  if forceLegacy then
    let sealer ← ofTpm (TpmSealer.new P)
    return (sealer, none)
  else buildSealer P

/-- `run_serve` up to the point where it serves. -/
def runServe (forceLegacy : Bool) : Fallible AnyError KmsService := do
  let (sealer, legacySealer) ← withContext "initializing TPM sealer" (chooseSealer P forceLegacy)
  match legacySealer with
  | some legacy => return KmsService.withLegacyFallback sealer legacy
  | none => return KmsService.new sealer

/-- `run_genesis`. -/
def runGenesis (force : Bool) : Fallible AnyError Unit := do
  let context ← withContext "connecting to TPM" Context.new
  let _ ← withContext "creating fleet sealing key" (ofFleet (Fleet.createFleetKey context force))
  return ()

/-- `run_status`: what it prints, `fleet_key` and `key_id`. -/
def runStatus : Fallible AnyError (Bool × String) := do
  let probe ← withContext "connecting to TPM" Context.new
  match ← liftM (Fleet.loadFleetKey probe).run with
  | .ok fleetKey =>
    let sealer ← withContext "reading fleet key's public area"
      (ofTpm (TpmSealer.fromPrimary P probe fleetKey))
    return (true, sealer.keyId)
  | .error _ =>
    let sealer ← withContext "initializing per-node SRK" (ofTpm (TpmSealer.new P))
    return (false, sealer.keyId)

end Main

/-- `run_enroll` as far as the TPM is concerned: a context, and the fleet key in it. -/
def runEnroll : Fallible FleetError EnrollService := do
  let context ← Context.new
  let fleetKeyHandle ← Fleet.loadFleetKey context
  return { context, fleetKeyHandle }

end Sceau
