import Sceau.Fleet.Code

/-!
# The platform

What the development assumes of `tss-esapi`'s codecs, and the smallest platform that meets it. The
assumption is about the public areas this repository's templates give rise to, and no others: a
public area marshals, its bytes fit the envelope's length field, and unmarshalling gives it back.
-/

set_option autoImplicit false

namespace Sceau

/-- The templates objects are created from: the SRK, the two kinds of sealed data, and the
duplicable storage key of `fleet.rs`. -/
def templates : List Public :=
  [srkPublic, sealedPublic true, sealedPublic false,
    duplicableStorageTemplate (.policyCommandCode .duplicate)]

/-- The template a public area came from. -/
def Public.template (p : Public) : Public := { p with unique := [] }

/-- A key made from the fleet key's template. -/
def someFleetKey : Public :=
  { duplicableStorageTemplate (.policyCommandCode .duplicate) with unique := [5] }

/-- A machine with that key in its slot, and nothing besides. -/
def keyedMachine : Machine := { tpm := { ownerSeed := fun _ => none, slot := some someFleetKey } }

namespace Platform

/-- `unmarshall` inverts `marshall`, within the sizes of this repository's objects. -/
structure Lawful (P : Platform) : Prop where
  roundTrip : ∀ p : Public, p.template ∈ templates → p.unique.length ≤ P.uniqueMax →
    ∃ b, P.marshall p = some b ∧ b.length < 65536 ∧ P.unmarshall b = some p

/-- The bytes of a public area: the number of its template, then its unique field. -/
def plainMarshall (p : Public) : Option Bytes :=
  (templates.idxOf? p.template).map fun i => UInt8.ofNat i :: p.unique

def plainUnmarshall : Bytes → Option Public
  | [] => none
  | t :: u => templates[t.toNat]?.map fun p => { p with unique := u }

/-- A small platform, for evaluating the model: the codec above, names that are the marshalled
bytes, and certificates that are their CommonName in ASCII. -/
def plain : Platform where
  marshall := plainMarshall
  unmarshall := plainUnmarshall
  nameOf p := (plainMarshall p).getD []
  sha256 := id
  uniqueMax := 256
  privateMax := 256
  secretMax := 256
  dataMax := 256
  parseX509 der := some [some (String.ofList (der.map fun b => Char.ofNat b.toNat))]

theorem plainUnmarshall_marshall {p : Public} {b : Bytes} (h : plainMarshall p = some b) :
    plainUnmarshall b = some p := by
  unfold plainMarshall at h
  obtain ⟨i, hi, rfl⟩ := Option.map_eq_some_iff.mp h
  obtain ⟨hlt, hget, -⟩ := List.idxOf?_eq_some_iff.mp hi
  have hbyte : (UInt8.ofNat i).toNat = i := by
    have h4 : templates.length = 4 := rfl
    rw [UInt8.toNat_ofNat', Nat.mod_eq_of_lt (by omega)]
  simp only [plainUnmarshall, hbyte]
  rw [List.getElem?_eq_getElem hlt, hget]
  rfl

theorem plain_lawful : plain.Lawful := by
  refine ⟨fun p ht hu => ?_⟩
  obtain ⟨i, hi⟩ := Option.isSome_iff_exists.mp (List.isSome_idxOf?.mpr ht)
  have hm : plainMarshall p = some (UInt8.ofNat i :: p.unique) := by
    rw [plainMarshall, hi]
    rfl
  refine ⟨_, hm, ?_, plainUnmarshall_marshall hm⟩
  have hmax : plain.uniqueMax = 256 := rfl
  rw [List.length_cons]
  omega

end Platform

end Sceau
