import Sceau.Sealer.Envelope

/-!
# The TPM sealer (`tpm.rs`)

`TpmSealer`, function by function. Sealing creates a sealed-data object under the sealer's primary
key and returns the object's two halves as an envelope; unsealing loads such an envelope back under
the primary and reads it. The primary is the node's own SRK (`new`) or a key handed in
(`fromPrimary`, the fleet key).

`seal` can also panic, when the created public area does not marshal: a panic unwinds through the
question marks like an error and is told apart from one by `Failure`.
-/

set_option autoImplicit false

namespace Sceau

open Lib

/-- How a handler can end without a value: by returning an error, or by unwinding. -/
inductive Failure (ε : Type) where
  | error (e : ε)
  | panic
  deriving DecidableEq

instance {ε : Type} [FromTss ε] : FromTss (Failure ε) := ⟨fun e => .error (FromTss.fromTss e)⟩

/-- `MAX_SEAL_DATA`. -/
def maxSealData : Nat := 128

def hexDigit (n : Nat) : Char :=
  ['0', '1', '2', '3', '4', '5', '6', '7', '8', '9', 'a', 'b', 'c', 'd', 'e', 'f'].getD n '0'

/-- `hex::encode`. -/
def hexEncode (bytes : Bytes) : List Char :=
  bytes.flatMap fun b => [hexDigit (b.toNat / 16), hexDigit (b.toNat % 16)]

/-- `derive_key_id`. -/
def deriveKeyId (P : Platform) (nameBytes : Bytes) : String :=
  "sceau-" ++ String.ofList ((hexEncode (P.sha256 nameBytes)).take 16)

/-- The `key_id` of a sealer whose primary has this public area. -/
def keyIdOf (P : Platform) (pub : Public) : String := deriveKeyId P (P.nameOf pub)

/-- `srk_public`. -/
def srkPublic : Public where
  publicAlgorithm := .rsa
  nameHashingAlgorithm := .sha256
  objectAttributes :=
    { fixedTpm := true
      fixedParent := true
      sensitiveDataOrigin := true
      userWithAuth := true
      decrypt := true
      restricted := true }
  parameters := .rsaRestrictedDecryption .aes128Cfb 2048 0

/-- `sealed_public`. -/
def sealedPublic (fixed : Bool) : Public where
  publicAlgorithm := .keyedHash
  nameHashingAlgorithm := .sha256
  objectAttributes :=
    { fixedTpm := fixed
      fixedParent := fixed
      userWithAuth := true }
  parameters := .keyedHashNull

structure TpmSealer where
  context : Context
  primary : Handle
  keyId : String
  childFixed : Bool
  ownsTransientPrimary : Bool
  deriving DecidableEq

namespace TpmSealer

variable (P : Platform)

/-- `TpmSealer::new`: the per-node SRK. -/
def new : Fallible TpmError TpmSealer := do
  let context ← Context.new
  let (primary, keyId, childFixed) ← context.executeWithNullauthSession fun ctx => do
    let primary ← ctx.createPrimary srkPublic
    let pub ← ctx.readPublic primary
    return (primary, deriveKeyId P (P.nameOf pub), pub.objectAttributes.fixedTpm)
  return { context, primary, keyId, childFixed, ownsTransientPrimary := true }

/-- `TpmSealer::from_primary`: an already loaded key. -/
def fromPrimary (context : Context) (primary : Handle) : Fallible TpmError TpmSealer := do
  let pub ← context.executeWithNullauthSession fun ctx => ctx.readPublic primary
  return {
    context
    primary
    keyId := deriveKeyId P (P.nameOf pub)
    childFixed := pub.objectAttributes.fixedTpm
    ownsTransientPrimary := false }

variable (self : TpmSealer)

/-- `TpmSealer::seal`. -/
def «seal» (plaintext : Bytes) : Fallible (Failure TpmError) Bytes := do
  if plaintext.length > maxSealData then
    throw (.error (.plaintextTooLarge plaintext.length))
  else
    let (priv, pub) ← self.context.executeWithNullauthSession fun ctx =>
      ctx.create self.primary (sealedPublic self.childFixed) plaintext
    match envelopeEncode P.marshall Private.value pub priv with
    | some ciphertext => return ciphertext
    | none => throw .panic

/-- `TpmSealer::unseal`. -/
def «unseal» (ciphertext : Bytes) : Fallible (Failure TpmError) Bytes :=
  match envelopeDecode P.unmarshall P.privateTryFrom ciphertext with
  | none => throw .panic
  | some (.error e) => throw (.error e)
  | some (.ok (pub, priv)) =>
    self.context.executeWithNullauthSession fun ctx => do
      let handle ← ctx.load self.primary priv pub
      let data ← ctx.unseal handle
      ctx.flushContext handle
      return data

/-- `Drop for TpmSealer`. -/
def drop : Code Unit := do
  if self.ownsTransientPrimary then
    let _ ← (self.context.executeWithNullauthSession fun ctx =>
      ctx.flushContext (ε := TssError) self.primary).run
  else
    return ()

end TpmSealer

end Sceau
