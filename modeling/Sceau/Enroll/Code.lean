import Sceau.Fleet.Code

/-!
# The enrollment service (`enroll.rs`, `authz.rs`, the peer-certificate half of `certs.rs`)

The seed side of enrollment: who a request comes from, whether that node is a member of the
cluster, the permit counter around it all, and the duplication itself.

A status carries its gRPC code and what its message displays. The texts the source spells out are
strings here; where the source displays another error the status carries that error.
-/

set_option autoImplicit false

namespace Sceau

open Lib

/-! ## Identity (`certs.rs`, `authz.rs`) -/

inductive AuthzError where
  | notNodeIdentity (cn : String)
  | unknownNode (nodeName : String)
  deriving DecidableEq

inductive CertError where
  | parse (label : String)
  | noCommonName (label : String)
  deriving DecidableEq

/-- `str::strip_prefix`. -/
def stripPrefix (s p : String) : Option String :=
  if p.toList.isPrefixOf s.toList then some (String.ofList (s.toList.drop p.toList.length))
  else none

/-- `NODE_IDENTITY_PREFIX`. -/
def nodeIdentityPrefix : String := "system:node:"

/-- `node_name_from_cn`. -/
def nodeNameFromCn (cn : String) : Except AuthzError String :=
  match stripPrefix cn nodeIdentityPrefix with
  | none => .error (.notNodeIdentity cn)
  | some name => if name = "" then .error (.notNodeIdentity cn) else .ok name

/-- `common_name_from_x509`: the first CommonName, if it is a string. -/
def commonNameFromX509 (commonNames : List (Option String)) (label : String) :
    Except CertError String :=
  match commonNames.head? with
  | some (some cn) => .ok cn
  | _ => .error (.noCommonName label)

/-- `peer_cert_common_name`. -/
def peerCertCommonName (P : Platform) (der : Bytes) : Except CertError String :=
  match P.parseX509 der with
  | none => .error (.parse "peer certificate")
  | some commonNames => commonNameFromX509 commonNames "peer certificate"

/-- `authorize_node`: whatever kube answers but a Node is refused. -/
def authorizeNode (nodeName : String) : Fallible AuthzError Unit := do
  match ← liftM (issue (.getNode nodeName)) with
  | .ok () => return ()
  | .error () => throw (.unknownNode nodeName)

/-! ## Statuses -/

inductive StatusCode where
  | permissionDenied
  | internal
  deriving DecidableEq

/-- What follows the prefix of a status message. -/
inductive Cause where
  | text (message : String)
  | cert (e : CertError)
  | authz (e : AuthzError)
  | fleet (e : FleetError)
  | tss (context : String)
  | poisoned
  deriving DecidableEq

/-- `tonic::Status`, its message being "sceau enroll: " and the cause. -/
structure Status where
  code : StatusCode
  cause : Cause
  deriving DecidableEq

def denied (cause : Cause) : Status := ⟨.permissionDenied, cause⟩

def internal (cause : Cause) : Status := ⟨.internal, cause⟩

/-- `map_err(f)?`. -/
def orStatus {ε α : Type} (r : Except ε α) (f : ε → Status) : Fallible Status α :=
  match r with
  | .ok a => return a
  | .error e => throw (f e)

/-! ## The service -/

/-- `tonic::Request<DuplicateRequest>`: the verified chain, leaf first, and the message. -/
structure Request where
  peerCerts : Option (List Bytes)
  message : DuplicateRequest
  deriving DecidableEq

/-- The fields of `EnrollService` that do not change. -/
structure EnrollService where
  context : Context
  fleetKeyHandle : Handle
  deriving DecidableEq

namespace EnrollService

variable (P : Platform) (self : EnrollService)

/-- The part of `handle_duplicate` that looks at the certificate alone. -/
def requestedNode (request : Request) : Except Status String :=
  match request.peerCerts with
  | none => .error (denied (.text "no client certificate presented"))
  | some peerCerts =>
    match peerCerts.head? with
    | none => .error (denied (.text "empty client certificate chain"))
    | some leaf =>
      match peerCertCommonName P leaf with
      | .error e => .error (denied (.cert e))
      | .ok cn =>
        match nodeNameFromCn cn with
        | .error e => .error (denied (.authz e))
        | .ok nodeName => .ok nodeName

/-- `self.context.lock()` and the duplication under it. -/
def lockedDuplicate (joinerPublic : Public) : Fallible Status DuplicationBlob := do
  match ← liftM (issue .lockContext) with
  | .error () => throw (internal .poisoned)
  | .ok () =>
    let blob ← liftM (Fleet.duplicateForJoiner self.context self.fleetKeyHandle joinerPublic).run
    -- the guard goes out of scope whatever the duplication returned
    liftM (issue .unlockContext)
    orStatus blob fun e => internal (.fleet e)

/-- The response to a duplication. -/
def response (blob : DuplicationBlob) : Fallible Status DuplicateResponse :=
  match P.marshall blob.fleetKeyPublic with
  | none => throw (internal (.tss "marshalling"))
  | some fleetKeyPublic =>
    return {
      fleetKeyPublic
      duplicatePrivate := blob.duplicatePrivate.value
      encryptedSecret := blob.encryptedSecret.value
      hasEncryptionKey := blob.encryptionKey.isSome
      encryptionKey := match blob.encryptionKey with
        | some data => data.value
        | none => [] }

/-- What `handle_duplicate` does for a request it has authorized. -/
def serveDuplicate (request : Request) : Fallible Status DuplicateResponse := do
  match P.unmarshall request.message.joinerTransportPublic with
  | none => throw (internal (.tss "unmarshalling joiner transport public"))
  | some joinerPublic =>
    let blob ← self.lockedDuplicate joinerPublic
    response P blob

/-- `EnrollService::handle_duplicate`. -/
def handleDuplicate (request : Request) : Fallible Status DuplicateResponse := do
  let nodeName ← orStatus (requestedNode P request) id
  let authorized ← liftM (authorizeNode nodeName).run
  orStatus authorized fun e => denied (.authz e)
  self.serveDuplicate P request

/-- The end of `Enroll::duplicate`: what becomes of the permit. -/
def settle (wasLastPermit : Bool) : Except Status DuplicateResponse →
    Code (Except Status DuplicateResponse)
  | .ok response => do
    if wasLastPermit then
      issue .notifyOne
    return .ok response
  | .error status => do
    issue .fetchAdd
    return .error status

/-- `Enroll::duplicate`. -/
def duplicate (request : Request) : Code (Except Status DuplicateResponse) := do
  let permitsBefore ← issue .fetchSub
  if permitsBefore = 0 then
    issue .fetchAdd
    return .error (denied (.text "--max already reached"))
  else
    let handled ← (self.handleDuplicate P request).run
    settle (permitsBefore = 1) handled

end EnrollService

end Sceau
