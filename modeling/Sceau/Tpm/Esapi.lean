import Sceau.Lib.Prog

/-!
# The ESAPI surface

The part of `tss-esapi` the repository calls, as a command signature: the structures that cross
the interface, one constructor of `TpmCmd` per `Context` method, and one wrapper per method under
the method's name. What a command *does* is `Tpm/Device.lean`'s business; nothing here decides an
outcome.

Three conventions:

* A handle carries what ESAPI remembers about the object behind it. For a transient object that
  is the object itself, which cannot change while it is loaded. For the persistent fleet key it is
  the public area read when the handle was made, because that is what ESAPI checks a later
  command against.
* The ambient session `execute_with_session` installs is a field of the `Context` handed to the
  closure, so it is scoped exactly as the closure is.
* Every wrapper is polymorphic in the error type, `FromTss` being the `From<tss_esapi::Error>` the
  question mark uses.
-/

set_option autoImplicit false

namespace Sceau

open Lib

abbrev Bytes := List UInt8

/-! ## Structures -/

/-- `tss_esapi::Error`: a TPM response code, or the one error the wrappers raise themselves. -/
inductive TssError where
  | rc (code : Nat)
  | wrongValueFromTpm
  | invalidParam
  deriving DecidableEq

/-- The attribute bits the templates of `tpm.rs` and `fleet.rs` set. -/
structure ObjectAttributes where
  fixedTpm : Bool := false
  fixedParent : Bool := false
  sensitiveDataOrigin : Bool := false
  userWithAuth : Bool := false
  decrypt : Bool := false
  restricted : Bool := false
  deriving DecidableEq

inductive PublicAlgorithm where
  | rsa
  | keyedHash
  | other (alg : Nat)
  deriving DecidableEq

inductive HashingAlgorithm where
  | sha256
  | other (alg : Nat)
  deriving DecidableEq

inductive SymmetricDefinitionObject where
  | aes128Cfb
  | other (alg : Nat)
  deriving DecidableEq

inductive CommandCode where
  | duplicate
  | other (code : Nat)
  deriving DecidableEq

/-- A policy digest. The empty one and the one `PolicyCommandCode` leaves in a fresh session are
told apart by name, since the hash that separates them is the TPM's. -/
inductive Digest where
  | empty
  | policyCommandCode (code : CommandCode)
  | other (value : Bytes)
  deriving DecidableEq

inductive PublicParameters where
  | rsaRestrictedDecryption (symmetric : SymmetricDefinitionObject) (keyBits exponent : Nat)
  | keyedHashNull
  | other (raw : Bytes)
  deriving DecidableEq

/-- `tss_esapi::structures::Public`. As a template its `unique` is empty; as the public area of an
object it identifies the object, private part included. -/
structure Public where
  publicAlgorithm : PublicAlgorithm
  nameHashingAlgorithm : HashingAlgorithm := .sha256
  objectAttributes : ObjectAttributes
  authPolicy : Digest := .empty
  parameters : PublicParameters
  unique : Bytes := []
  deriving DecidableEq

/-- `TPM2B_PRIVATE`, an opaque buffer outside the TPM. -/
structure Private where
  value : Bytes
  deriving DecidableEq

/-- `TPM2B_DATA`. -/
structure Data where
  value : Bytes
  deriving DecidableEq

/-- `TPM2B_ENCRYPTED_SECRET`. -/
structure EncryptedSecret where
  value : Bytes
  deriving DecidableEq

inductive SessionType where
  | hmac
  | policy
  | trial
  deriving DecidableEq

structure AuthSession where
  id : Nat
  sessionType : SessionType
  deriving DecidableEq

/-- A loaded object: with its sensitive area, with the public area alone (`TPM2_LoadExternal`), or
a sealed-data object. -/
inductive Obj where
  | key (pub : Public)
  | external (pub : Public)
  | sealedData (pub : Public) (data : Bytes)
  deriving DecidableEq

namespace Obj

def pub : Obj → Public
  | .key p => p
  | .external p => p
  | .sealedData p _ => p

end Obj

/-- `ObjectHandle`, `KeyHandle` and `SessionHandle`: the conversions between them are infallible. -/
inductive Handle where
  | transient (id : Nat) (obj : Obj)
  | persistent (pub : Public)
  | session (s : AuthSession)
  deriving DecidableEq

structure Context where
  id : Nat
  session : Option AuthSession := none
  deriving DecidableEq

structure PersistentTpmHandle where
  value : Nat
  deriving DecidableEq

namespace PersistentTpmHandle

/-- `PersistentTpmHandle::new`: the handle's high byte has to be the persistent range's. -/
def new (value : Nat) : Except TssError PersistentTpmHandle :=
  if value / 0x1000000 = 0x81 then .ok ⟨value⟩ else .error .invalidParam

end PersistentTpmHandle

/-! ## Messages of the enrollment RPC (`proto/enroll/v1`) -/

structure DuplicateRequest where
  joinerTransportPublic : Bytes
  deriving DecidableEq

structure DuplicateResponse where
  fleetKeyPublic : Bytes
  duplicatePrivate : Bytes
  encryptedSecret : Bytes
  hasEncryptionKey : Bool
  encryptionKey : Bytes
  deriving DecidableEq

/-! ## Commands -/

inductive TpmCmd where
  | startAuthSession (sessionType : SessionType)
  | trSessSetAttributes (s : AuthSession) (continueSession : Bool)
  | policyCommandCode (s : AuthSession) (code : CommandCode)
  | policyGetDigest (s : AuthSession)
  | flushContext (h : Handle)
  | createPrimary (template : Public)
  | readPublic (h : Handle)
  | trFromTpmPublic (h : PersistentTpmHandle)
  | loadExternalPublic (pub : Public)
  | duplicate (object newParent : Handle) (alg : SymmetricDefinitionObject)
  | «import» (parent : Handle) (encryptionKey : Option Data) (pub : Public) (duplicate : Private)
      (secret : EncryptedSecret) (alg : SymmetricDefinitionObject)
  | load (parent : Handle) (priv : Private) (pub : Public)
  | evictControl (object : Handle) (persistent : PersistentTpmHandle)
  | create (parent : Handle) (template : Public) (sensitive : Bytes)
  | unseal (h : Handle)
  deriving DecidableEq

namespace TpmCmd

/-- What a successful command returns. -/
abbrev Res : TpmCmd → Type
  | .startAuthSession _ => Option AuthSession
  | .trSessSetAttributes _ _ => Unit
  | .policyCommandCode _ _ => Unit
  | .policyGetDigest _ => Digest
  | .flushContext _ => Unit
  | .createPrimary _ => Handle
  | .readPublic _ => Public
  | .trFromTpmPublic _ => Handle
  | .loadExternalPublic _ => Handle
  | .duplicate _ _ _ => Data × Private × EncryptedSecret
  | .import _ _ _ _ _ _ => Private
  | .load _ _ _ => Handle
  | .evictControl _ _ => Handle
  | .create _ _ _ => Private × Public
  | .unseal _ => Bytes

end TpmCmd

/-- Everything the programs of this repository ask of their surroundings. The TPM commands are one
constructor; the others are the atomics, the mutex, the Node lookup, the files and the two ends of
the enrollment RPC. -/
inductive Cmd where
  | openContext
  | tpm (ctx : Context) (c : TpmCmd)
  | fetchSub
  | fetchAdd
  | notifyOne
  | getNode (name : String)
  | lockContext
  | unlockContext
  | readFile (path : String)
  | connect (uri : String)
  | duplicateRpc (request : DuplicateRequest)
  | sendResponse (response : DuplicateResponse)
  deriving DecidableEq

namespace Cmd

abbrev Res : Cmd → Type
  | .openContext => Except TssError Context
  | .tpm _ c => Except TssError c.Res
  | .fetchSub => UInt64
  | .fetchAdd => Unit
  | .notifyOne => Unit
  | .getNode _ => Except Unit Unit
  | .lockContext => Except Unit Unit
  | .unlockContext => Unit
  | .readFile _ => Except Unit Bytes
  | .connect _ => Except Unit Unit
  | .duplicateRpc _ => Except Unit DuplicateResponse
  | .sendResponse _ => Unit

end Cmd

/-- The programs of this repository, and the fallible ones. -/
abbrev Code (α : Type) : Type := Prog Cmd Cmd.Res α

abbrev Fallible (ε α : Type) : Type := ExceptT ε (Prog Cmd Cmd.Res) α

/-- A command that is not the TPM's. -/
def issue (c : Cmd) : Code c.Res := .call c .ret

/-- `From<tss_esapi::Error>`. -/
class FromTss (ε : Type) where
  fromTss : TssError → ε

instance : FromTss TssError := ⟨id⟩

/-! ## The `Context` methods -/

section Methods

variable {ε α : Type} [FromTss ε]

/-- The question mark on a `tss_esapi::Result`. -/
def ofTss (r : Except TssError α) : Except ε α :=
  match r with
  | .ok a => .ok a
  | .error e => .error (FromTss.fromTss e)

def tpmCall (ctx : Context) (c : TpmCmd) : Fallible ε c.Res :=
  ExceptT.mk (.call (.tpm ctx c) fun r => .ret (ofTss r))

namespace Context

/-- `Context::new`. -/
def new : Fallible ε Context := ExceptT.mk (.call .openContext fun r => .ret (ofTss r))

variable (ctx : Context)

def startAuthSession (ty : SessionType) : Fallible ε (Option AuthSession) :=
  tpmCall ctx (.startAuthSession ty)

def trSessSetAttributes (s : AuthSession) (continueSession : Bool) : Fallible ε Unit :=
  tpmCall ctx (.trSessSetAttributes s continueSession)

def policyCommandCode (s : AuthSession) (code : CommandCode) : Fallible ε Unit :=
  tpmCall ctx (.policyCommandCode s code)

def policyGetDigest (s : AuthSession) : Fallible ε Digest := tpmCall ctx (.policyGetDigest s)

def flushContext (h : Handle) : Fallible ε Unit := tpmCall ctx (.flushContext h)

def createPrimary (template : Public) : Fallible ε Handle := tpmCall ctx (.createPrimary template)

def readPublic (h : Handle) : Fallible ε Public := tpmCall ctx (.readPublic h)

def trFromTpmPublic (h : PersistentTpmHandle) : Fallible ε Handle :=
  tpmCall ctx (.trFromTpmPublic h)

def loadExternalPublic (pub : Public) : Fallible ε Handle := tpmCall ctx (.loadExternalPublic pub)

def duplicate (object newParent : Handle) (alg : SymmetricDefinitionObject) :
    Fallible ε (Data × Private × EncryptedSecret) :=
  tpmCall ctx (.duplicate object newParent alg)

def «import» (parent : Handle) (encryptionKey : Option Data) (pub : Public)
    (duplicate : Private) (secret : EncryptedSecret) (alg : SymmetricDefinitionObject) :
    Fallible ε Private :=
  tpmCall ctx (.import parent encryptionKey pub duplicate secret alg)

def load (parent : Handle) (priv : Private) (pub : Public) : Fallible ε Handle :=
  tpmCall ctx (.load parent priv pub)

def evictControl (object : Handle) (persistent : PersistentTpmHandle) : Fallible ε Handle :=
  tpmCall ctx (.evictControl object persistent)

def create (parent : Handle) (template : Public) (sensitive : Bytes) :
    Fallible ε (Private × Public) :=
  tpmCall ctx (.create parent template sensitive)

def «unseal» (h : Handle) : Fallible ε Bytes := tpmCall ctx (.unseal h)

/-- `Context::execute_with_session`. -/
def executeWithSession (s : Option AuthSession) (f : Context → α) : α :=
  f { ctx with session := s }

/-- `Context::execute_without_session`. -/
def executeWithoutSession (f : Context → α) : α := f { ctx with session := none }

/-- `Context::execute_with_nullauth_session`: a fresh HMAC session around the closure, flushed
whatever the closure returned. -/
def executeWithNullauthSession (f : Context → Fallible ε α) : Fallible ε α := do
  match ← ctx.startAuthSession .hmac with
  | none => throw (FromTss.fromTss .wrongValueFromTpm)
  | some s =>
    ctx.trSessSetAttributes s false
    let res ← liftM (ctx.executeWithSession (some s) f).run
    ctx.flushContext (.session s)
    ExceptT.mk (.ret res)

end Context

end Methods

/-! ## What else the repository takes from outside -/

/-- The pure functions of the crates and of the TPM: marshalling, object names, hashing, the
capacity of a private buffer, and certificate parsing. -/
structure Platform where
  /-- `Public::marshall` -/
  marshall : Public → Option Bytes
  /-- `Public::unmarshall` -/
  unmarshall : Bytes → Option Public
  /-- the `Name` the TPM computes from a public area -/
  nameOf : Public → Bytes
  /-- `Sha256::digest` -/
  sha256 : Bytes → Bytes
  /-- capacities of the `TPM2B` buffers -/
  uniqueMax : Nat
  privateMax : Nat
  secretMax : Nat
  dataMax : Nat
  /-- `parse_x509_certificate`: the Subject's CommonName attributes in order, each with what
  `as_str` makes of it -/
  parseX509 : Bytes → Option (List (Option String))

namespace Platform

variable (P : Platform)

/-- `Private::try_from`. -/
def privateTryFrom (b : Bytes) : Option Private :=
  if b.length ≤ P.privateMax then some ⟨b⟩ else none

/-- `EncryptedSecret::try_from`. -/
def encryptedSecretTryFrom (b : Bytes) : Option EncryptedSecret :=
  if b.length ≤ P.secretMax then some ⟨b⟩ else none

/-- `Data::try_from`. -/
def dataTryFrom (b : Bytes) : Option Data :=
  if b.length ≤ P.dataMax then some ⟨b⟩ else none

end Platform

end Sceau
