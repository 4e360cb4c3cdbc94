import Sceau.Tpm.Esapi

/-!
# The ciphertext envelope (`tpm.rs`)

`version(1) || public_len(u16 BE) || public || private`. The codec is kept generic in the two types
and in their byte conversions, which are `tss-esapi`'s; `Sealer/Code.lean` instantiates it.

Indexing and slicing are the checked ones of the source: out of range is a panic, and a panic is
`none`. That the decoder never does panic is a theorem, not a convention.
-/

set_option autoImplicit false

namespace Sceau

/-- `TpmError`. -/
inductive TpmError where
  | tss (e : TssError)
  | plaintextTooLarge (len : Nat)
  | malformedEnvelope
  deriving DecidableEq

instance : FromTss TpmError := ⟨.tss⟩

/-- `ENVELOPE_VERSION`. -/
def envelopeVersion : UInt8 := 1

/-- `(n as u16).to_be_bytes()`. -/
def be16 (n : Nat) : Bytes := [UInt8.ofNat (n % 65536 / 256), UInt8.ofNat (n % 256)]

/-- `u16::from_be_bytes`. -/
def fromBe16 (hi lo : UInt8) : Nat := hi.toNat * 256 + lo.toNat

@[simp] theorem be16_length (n : Nat) : (be16 n).length = 2 := rfl

theorem fromBe16_be16 {n : Nat} (h : n < 65536) :
    fromBe16 (UInt8.ofNat (n % 65536 / 256)) (UInt8.ofNat (n % 256)) = n := by
  simp only [fromBe16, UInt8.toNat_ofNat']
  omega

/-- `bytes[a..b]`. -/
def slice (bytes : Bytes) (a b : Nat) : Option Bytes :=
  if a ≤ b ∧ b ≤ bytes.length then some ((bytes.take b).drop a) else none

theorem slice_mid (a b c : Bytes) :
    slice (a ++ b ++ c) a.length (a.length + b.length) = some b := by
  unfold slice
  rw [if_pos ⟨by omega, by simp⟩, ← List.length_append, List.take_left, List.drop_left]

theorem slice_tail (a b : Bytes) : slice (a ++ b) a.length (a ++ b).length = some b := by
  unfold slice
  rw [if_pos ⟨by simp, Nat.le_refl _⟩, List.take_length, List.drop_left]

section Codec

variable {Pub Priv : Type}

/-- `envelope_encode`. A public area that does not marshal is the `expect` panicking. -/
def envelopeEncode (marshall : Pub → Option Bytes) (value : Priv → Bytes) (pub : Pub)
    (priv : Priv) : Option Bytes :=
  (marshall pub).map fun publicBytes =>
    envelopeVersion :: (be16 publicBytes.length ++ publicBytes ++ value priv)

/-- `envelope_decode`. -/
def envelopeDecode (unmarshall : Bytes → Option Pub) (tryFrom : Bytes → Option Priv)
    (ciphertext : Bytes) : Option (Except TpmError (Pub × Priv)) :=
  if ciphertext.length < 3 then some (.error .malformedEnvelope)
  else do
    let version ← ciphertext[0]?
    if version ≠ envelopeVersion then some (.error .malformedEnvelope)
    else do
      let publicLen := fromBe16 (← ciphertext[1]?) (← ciphertext[2]?)
      if ciphertext.length < 3 + publicLen then some (.error .malformedEnvelope)
      else do
        match unmarshall (← slice ciphertext 3 (3 + publicLen)) with
        | none => some (.error .malformedEnvelope)
        | some pub => do
          match tryFrom (← slice ciphertext (3 + publicLen) ciphertext.length) with
          | none => some (.error .malformedEnvelope)
          | some priv => some (.ok (pub, priv))

variable {marshall : Pub → Option Bytes} {value : Priv → Bytes}
  {unmarshall : Bytes → Option Pub} {tryFrom : Bytes → Option Priv}

/-- What the decoder makes of a well-framed envelope. -/
theorem envelopeDecode_frame {pb : Bytes} (rest : Bytes) (h : pb.length < 65536) :
    envelopeDecode unmarshall tryFrom (envelopeVersion :: (be16 pb.length ++ pb ++ rest)) =
      some (match unmarshall pb, tryFrom rest with
        | some pub, some priv => .ok (pub, priv)
        | _, _ => .error .malformedEnvelope) := by
  have hlen := fromBe16_be16 h
  -- the three header bytes, as the prefix both slices start from
  have hframe : envelopeVersion :: (be16 pb.length ++ pb ++ rest) =
      (envelopeVersion :: be16 pb.length) ++ pb ++ rest := by simp
  have hpub : slice (envelopeVersion :: (be16 pb.length ++ pb ++ rest)) 3 (3 + pb.length) =
      some pb := by
    rw [hframe]
    exact slice_mid (envelopeVersion :: be16 pb.length) pb rest
  have hpriv : slice (envelopeVersion :: (be16 pb.length ++ pb ++ rest)) (3 + pb.length)
      (envelopeVersion :: (be16 pb.length ++ pb ++ rest)).length = some rest := by
    have hstart : ((envelopeVersion :: be16 pb.length) ++ pb).length = 3 + pb.length := by
      rw [List.length_append]
      rfl
    rw [hframe, ← hstart]
    exact slice_tail ((envelopeVersion :: be16 pb.length) ++ pb) rest
  unfold envelopeDecode
  rw [if_neg (by simp)]
  simp only [be16, List.cons_append, List.nil_append, List.getElem?_cons_zero,
    List.getElem?_cons_succ, Option.bind_eq_bind, Option.bind_some, hlen] at hpub hpriv ⊢
  rw [if_neg (by simp), if_neg (by simp; omega), hpub, hpriv]
  cases hu : unmarshall pb with
  | none => simp [hu]
  | some pub => cases ht : tryFrom rest <;> simp [hu, ht]

/-- **Round trip**, for a public area that fits the length field. -/
theorem envelopeDecode_encode {pub : Pub} {priv : Priv} {pb c : Bytes} (hm : marshall pub = some pb)
    (hlen : pb.length < 65536) (hu : unmarshall pb = some pub)
    (hv : tryFrom (value priv) = some priv) (hc : envelopeEncode marshall value pub priv = some c) :
    envelopeDecode unmarshall tryFrom c = some (.ok (pub, priv)) := by
  unfold envelopeEncode at hc
  rw [hm] at hc
  simp only [Option.map_some, Option.some.injEq] at hc
  rw [← hc, envelopeDecode_frame _ hlen, hu, hv]

/-- The checks come before the slices: no input makes the decoder panic. -/
theorem envelopeDecode_ne_none (c : Bytes) : envelopeDecode unmarshall tryFrom c ≠ none := by
  by_cases hshort : c.length < 3
  · simp [envelopeDecode, hshort]
  · obtain ⟨version, hi, lo, rest, rfl⟩ : ∃ version hi lo rest, c = version :: hi :: lo :: rest := by
      match c, hshort with
      | version :: hi :: lo :: rest, _ => exact ⟨version, hi, lo, rest, rfl⟩
      | [], h => simp at h
      | [_], h => simp at h
      | [_, _], h => simp at h
    have hthree : ¬ (version :: hi :: lo :: rest).length < 3 := hshort
    simp only [envelopeDecode, if_neg hthree, List.getElem?_cons_zero, List.getElem?_cons_succ,
      Option.bind_eq_bind, Option.bind_some]
    split
    · simp
    · split
      · simp
      · rename_i hlen
        rw [slice, if_pos ⟨Nat.le_add_right _ _, Nat.le_of_not_lt hlen⟩]
        simp only [Option.bind_some]
        split
        · simp
        · rw [slice, if_pos ⟨Nat.le_of_not_lt hlen, Nat.le_refl _⟩]
          simp only [Option.bind_some]
          split <;> simp

end Codec

end Sceau
