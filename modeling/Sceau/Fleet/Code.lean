import Sceau.Sealer.Code
import Sceau.Tpm.Device

/-!
# Fleet-key duplication (`fleet.rs`)

The four primitives of the fleet key — create it (`genesis`), make a transport key (`join`), wrap
the fleet key for somebody else's transport key (`enroll`), unwrap it and keep it (`join`) — and the
private helpers under them, function by function and command by command.
-/

set_option autoImplicit false

namespace Sceau

open Lib

inductive FleetError where
  | tpm (e : TpmError)
  | tss (e : TssError)
  | noSessionHandle
  deriving DecidableEq

instance : FromTss FleetError := ⟨.tss⟩

/-- `DuplicationBlob`: everything a joiner needs to import the fleet key. -/
structure DuplicationBlob where
  fleetKeyPublic : Public
  duplicatePrivate : Private
  encryptedSecret : EncryptedSecret
  encryptionKey : Option Data
  deriving DecidableEq

/-- `duplication_symmetric_alg`. -/
def duplicationSymmetricAlg : SymmetricDefinitionObject := .aes128Cfb

/-- The public area `duplicable_storage_public` builds around a policy digest. -/
def duplicableStorageTemplate (authPolicy : Digest) : Public where
  publicAlgorithm := .rsa
  nameHashingAlgorithm := .sha256
  objectAttributes :=
    { sensitiveDataOrigin := true
      userWithAuth := true
      decrypt := true
      restricted := true }
  authPolicy := authPolicy
  parameters := .rsaRestrictedDecryption duplicationSymmetricAlg 2048 0

namespace Fleet

variable (context : Context)

/-! ## Sessions -/

/-- `start_session`. -/
def startSession (sessionType : SessionType) : Fallible FleetError AuthSession := do
  match ← context.startAuthSession sessionType with
  | none => throw .noSessionHandle
  | some session =>
    context.trSessSetAttributes session true
    return session

/-- `PolicySession::try_from`: an HMAC session is not one. -/
def policySessionTryFrom (session : AuthSession) : Fallible FleetError AuthSession :=
  if session.sessionType = .hmac then throw .noSessionHandle else return session

/-- `duplication_auth_policy_digest`. -/
def duplicationAuthPolicyDigest : Fallible FleetError Digest := do
  let trialSession ← startSession context .trial
  let policySession ← policySessionTryFrom trialSession
  context.policyCommandCode policySession .duplicate
  let digest ← context.policyGetDigest policySession
  context.flushContext (.session trialSession)
  return digest

/-- `duplication_auth_policy_session`. -/
def duplicationAuthPolicySession : Fallible FleetError AuthSession := do
  let session ← startSession context .policy
  let policySession ← policySessionTryFrom session
  context.policyCommandCode policySession .duplicate
  return session

/-- `duplicable_storage_public`. -/
def duplicableStoragePublic : Fallible FleetError Public := do
  let authPolicy ← duplicationAuthPolicyDigest context
  return duplicableStorageTemplate authPolicy

/-! ## The persistent slot -/

/-- `PersistentTpmHandle::new(FLEET_KEY_PERSISTENT_HANDLE)?`. -/
def persistentHandle : Fallible FleetError PersistentTpmHandle :=
  ExceptT.mk (.ret (ofTss (PersistentTpmHandle.new fleetKeyPersistentHandle)))

/-- `load_fleet_key`. -/
def loadFleetKey : Fallible FleetError Handle := do
  let persistentHandle ← persistentHandle
  context.executeWithNullauthSession fun ctx => ctx.trFromTpmPublic persistentHandle

/-- `persist`. -/
def persist (transient : Handle) : Fallible FleetError Handle := do
  let persistentHandle ← persistentHandle
  context.executeWithNullauthSession fun ctx => ctx.evictControl transient persistentHandle

/-- `delete_persisted_fleet_key`. -/
def deletePersistedFleetKey : Fallible FleetError Unit := do
  match ← liftM (loadFleetKey context).run with
  | .error _ => return ()
  | .ok existing =>
    let persistentHandle ← persistentHandle
    let _ ← context.executeWithNullauthSession fun ctx => ctx.evictControl existing persistentHandle
    return ()

/-! ## Genesis -/

/-- The tail of `create_fleet_key`, after the check for an existing key. -/
def createAndPersist : Fallible FleetError Handle := do
  let pub ← duplicableStoragePublic context
  let created ← context.executeWithNullauthSession fun ctx => ctx.createPrimary pub
  persist context created

/-- `create_fleet_key`. -/
def createFleetKey (force : Bool) : Fallible FleetError Handle := do
  if force then
    deletePersistedFleetKey context
    createAndPersist context
  else
    match ← liftM (loadFleetKey context).run with
    | .ok existing => return existing
    | .error _ => createAndPersist context

/-! ## Duplication -/

/-- `create_transport_key`. -/
def createTransportKey : Fallible FleetError (Handle × Public) := do
  let template ← duplicableStoragePublic context
  let created ← context.executeWithNullauthSession fun ctx => ctx.createPrimary template
  let pub ← context.executeWithNullauthSession fun ctx => ctx.readPublic created
  return (created, pub)

/-- `duplicate_for_joiner`. -/
def duplicateForJoiner (fleetKeyHandle : Handle) (joinerTransportPublic : Public) :
    Fallible FleetError DuplicationBlob := do
  let fleetKeyPublic ← context.executeWithNullauthSession fun ctx => ctx.readPublic fleetKeyHandle
  let external ← context.executeWithoutSession fun ctx =>
    ctx.loadExternalPublic joinerTransportPublic
  let policySession ← duplicationAuthPolicySession context
  let result ← liftM (context.executeWithSession (some policySession) fun ctx =>
    ctx.duplicate fleetKeyHandle external duplicationSymmetricAlg :
      Fallible FleetError (Data × Private × EncryptedSecret)).run
  context.flushContext (.session policySession)
  -- `let _ =`: whether the wrapping target could be flushed does not matter
  let _ ← liftM (context.executeWithoutSession fun ctx => ctx.flushContext external :
    Fallible TssError Unit).run
  let (encryptionKey, duplicatePrivate, encryptedSecret) ← ExceptT.mk (.ret result)
  return { fleetKeyPublic, duplicatePrivate, encryptedSecret, encryptionKey := some encryptionKey }

/-- The closure of `import_and_persist`: import the duplicate and load the result. -/
def importAndLoad (ctx : Context) (transportKeyHandle : Handle) (blob : DuplicationBlob) :
    Fallible FleetError Handle := do
  let importedPrivate ← ctx.import transportKeyHandle blob.encryptionKey blob.fleetKeyPublic
    blob.duplicatePrivate blob.encryptedSecret duplicationSymmetricAlg
  ctx.load transportKeyHandle importedPrivate blob.fleetKeyPublic

/-- `import_and_persist`. -/
def importAndPersist (transportKeyHandle : Handle) (blob : DuplicationBlob) :
    Fallible FleetError Handle := do
  let session ← startSession context .hmac
  let result ← liftM (context.executeWithSession (some session) fun ctx =>
    importAndLoad ctx transportKeyHandle blob).run
  context.flushContext (.session session)
  let fleetKeyHandle ← ExceptT.mk (.ret result)
  deletePersistedFleetKey context
  let persisted ← persist context fleetKeyHandle
  context.executeWithNullauthSession fun ctx => ctx.flushContext transportKeyHandle
  return persisted

end Fleet

end Sceau
