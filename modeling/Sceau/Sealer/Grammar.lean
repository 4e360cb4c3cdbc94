import Sceau.Platform

/-!
# The envelope's grammar

`envelope_encode` and `envelope_decode` compute the split of an envelope independently: the one
writes the public area's length and lets the end of input delimit the private part, the other reads
the length back and slices. Both meet in `Framed`, the one way to cut an envelope in two. A framed
input decodes to whatever its two parts parse to, an input that is not framed is malformed, and a
truncated envelope is framed exactly as long as the cut stays within the private part.
-/

set_option autoImplicit false

namespace Sceau

/-! ## Framing -/

/-- `01 || be16(len pb) || pb || rest`. -/
structure Framed (c pb rest : Bytes) : Prop where
  eq : c = envelopeVersion :: (be16 pb.length ++ pb ++ rest)
  fits : pb.length ≤ 65535

theorem be16_fromBe16 (hi lo : UInt8) : be16 (fromBe16 hi lo) = [hi, lo] := by
  have hhi := hi.toNat_lt
  have hlo := lo.toNat_lt
  have h1 : (hi.toNat * 256 + lo.toNat) % 65536 / 256 = hi.toNat := by omega
  have h2 : (hi.toNat * 256 + lo.toNat) % 256 = lo.toNat := by omega
  simp only [be16, fromBe16, h1, h2, UInt8.ofNat_toNat]

/-- The length field determines the cut. -/
theorem Framed.unique {c pb rest pb' rest' : Bytes} (h : Framed c pb rest)
    (h' : Framed c pb' rest') : pb = pb' ∧ rest = rest' := by
  have heq := h.eq.symm.trans h'.eq
  simp only [List.cons.injEq, true_and, List.append_assoc] at heq
  have hhead := List.append_inj heq rfl
  have hlen : pb.length = pb'.length := by
    have hbytes := hhead.1
    have h1 := fromBe16_be16 (Nat.lt_succ_of_le h.fits)
    have h2 := fromBe16_be16 (Nat.lt_succ_of_le h'.fits)
    simp only [be16, List.cons.injEq, and_true] at hbytes
    rw [← h1, hbytes.1, hbytes.2, h2]
  exact List.append_inj hhead.2 hlen

theorem Framed.append {c pb rest : Bytes} (h : Framed c pb rest) (tail : Bytes) :
    Framed (c ++ tail) pb (rest ++ tail) := by
  refine ⟨?_, h.fits⟩
  rw [h.eq]
  simp only [List.cons_append, List.append_assoc]

theorem Framed.length {c pb rest : Bytes} (h : Framed c pb rest) :
    c.length = 3 + pb.length + rest.length := by
  rw [h.eq]
  simp only [List.length_cons, List.length_append, be16_length]
  omega

/-- Enough bytes after the header are a frame. -/
theorem framed_of_length {hi lo : UInt8} {tail : Bytes} (h : fromBe16 hi lo ≤ tail.length) :
    Framed (envelopeVersion :: hi :: lo :: tail) (tail.take (fromBe16 hi lo))
      (tail.drop (fromBe16 hi lo)) := by
  have hlen : (tail.take (fromBe16 hi lo)).length = fromBe16 hi lo := List.length_take_of_le h
  constructor
  · rw [hlen, be16_fromBe16, List.append_assoc, List.take_append_drop]
    rfl
  · rw [hlen]
    have hhi := hi.toNat_lt
    have hlo := lo.toNat_lt
    unfold fromBe16
    omega

/-- A cut inside the private part shortens it. -/
theorem Framed.dropLast {c pb rest : Bytes} (h : Framed c pb rest) {k : Nat} (hk : k ≤ rest.length) :
    Framed (c.take (c.length - k)) pb (rest.take (rest.length - k)) := by
  refine ⟨?_, h.fits⟩
  have hcut : c.length - k = ((envelopeVersion :: (be16 pb.length ++ pb)).length) +
      (rest.length - k) := by
    rw [h.length]
    simp only [List.length_cons, List.length_append, be16_length]
    omega
  have hc : c = (envelopeVersion :: (be16 pb.length ++ pb)) ++ rest := by
    rw [h.eq]
    simp only [List.cons_append]
  rw [hcut, hc, List.take_length_add_append]
  simp only [List.cons_append]

/-- A cut beyond the private part leaves no frame: putting the tail back would give the whole
envelope a second one. -/
theorem Framed.not_framed_of_cut {c pb rest : Bytes} (h : Framed c pb rest) {k : Nat}
    (hk : rest.length < k) (pb' rest' : Bytes) : ¬ Framed (c.take (c.length - k)) pb' rest' := by
  intro hcut
  have hwhole := hcut.append (c.drop (c.length - k))
  rw [List.take_append_drop] at hwhole
  have htail := congrArg List.length (h.unique hwhole).2
  have hlen := h.length
  rw [List.length_append, List.length_drop] at htail
  omega

/-! ## The decoder -/

section Decoder

variable {Pub Priv : Type} {unmarshall : Bytes → Option Pub} {tryFrom : Bytes → Option Priv}

theorem Framed.decode {c pb rest : Bytes} (h : Framed c pb rest) :
    envelopeDecode unmarshall tryFrom c =
      some (match unmarshall pb, tryFrom rest with
        | some pub, some priv => .ok (pub, priv)
        | _, _ => .error .malformedEnvelope) := by
  rw [h.eq]
  exact envelopeDecode_frame rest (Nat.lt_succ_of_le h.fits)

theorem envelopeDecode_of_not_framed {c : Bytes} (h : ∀ pb rest, ¬ Framed c pb rest) :
    envelopeDecode unmarshall tryFrom c = some (.error .malformedEnvelope) := by
  match c with
  | [] => rfl
  | [_] => rfl
  | [_, _] => rfl
  | version :: hi :: lo :: tail =>
    simp only [envelopeDecode, List.length_cons, List.getElem?_cons_zero,
      List.getElem?_cons_succ, Option.bind_eq_bind, Option.bind_some]
    rw [if_neg (by omega)]
    by_cases hv : version = envelopeVersion
    · subst hv
      have hlen : ¬ fromBe16 hi lo ≤ tail.length := fun hle => h _ _ (framed_of_length hle)
      rw [if_neg (by simp), if_pos (by omega)]
    · rw [if_pos hv]

/-- **The grammar.** What decodes is a frame of two parts that parse. -/
theorem envelopeDecode_eq_ok_iff {c : Bytes} {pub : Pub} {priv : Priv} :
    envelopeDecode unmarshall tryFrom c = some (.ok (pub, priv)) ↔
      ∃ pb rest, Framed c pb rest ∧ unmarshall pb = some pub ∧ tryFrom rest = some priv := by
  constructor
  · intro hdecode
    by_contra hnone
    have hfr : ∀ pb rest, ¬ Framed c pb rest := by
      intro pb rest hf
      rw [hf.decode] at hdecode
      cases hu : unmarshall pb with
      | none => simp [hu] at hdecode
      | some pub' =>
        cases ht : tryFrom rest with
        | none => simp [hu, ht] at hdecode
        | some priv' =>
          simp only [hu, ht, Option.some.injEq, Except.ok.injEq, Prod.mk.injEq] at hdecode
          obtain ⟨rfl, rfl⟩ := hdecode
          exact hnone ⟨pb, rest, hf, hu, ht⟩
    rw [envelopeDecode_of_not_framed hfr] at hdecode
    simp at hdecode
  · rintro ⟨pb, rest, hf, hu, ht⟩
    rw [hf.decode, hu, ht]

/-- What does not decode is malformed. -/
theorem envelopeDecode_ok_or_malformed (c : Bytes) :
    (∃ pub priv, envelopeDecode unmarshall tryFrom c = some (.ok (pub, priv))) ∨
      envelopeDecode unmarshall tryFrom c = some (.error .malformedEnvelope) := by
  by_cases hf : ∃ pb rest, Framed c pb rest
  · obtain ⟨pb, rest, hf⟩ := hf
    rw [hf.decode]
    cases unmarshall pb with
    | none => exact .inr rfl
    | some pub =>
      cases tryFrom rest with
      | none => exact .inr rfl
      | some priv => exact .inl ⟨pub, priv, rfl⟩
  · exact .inr (envelopeDecode_of_not_framed fun pb rest h => hf ⟨pb, rest, h⟩)

end Decoder

/-! ## The encoder -/

variable {P : Platform}

theorem envelopeEncode_framed {pub : Public} {priv : Private} {pb c : Bytes}
    (hm : P.marshall pub = some pb) (hlen : pb.length ≤ 65535)
    (hc : envelopeEncode P.marshall Private.value pub priv = some c) : Framed c pb priv.value := by
  unfold envelopeEncode at hc
  rw [hm] at hc
  simp only [Option.map_some, Option.some.injEq] at hc
  exact ⟨hc.symm, hlen⟩

/-- **Round trip.** On public areas that fit the length field and private parts that are buffers of
the crate's, decoding inverts encoding, so encoding is injective. -/
theorem envelope_round_trip (P : Platform)
    (hunmarshall : ∀ pub pb, P.marshall pub = some pb → P.unmarshall pb = some pub) :
    (∀ pub pb priv, P.marshall pub = some pb → pb.length ≤ 65535 →
      P.privateTryFrom priv.value = some priv →
      ∃ c, envelopeEncode P.marshall Private.value pub priv = some c ∧
        envelopeDecode P.unmarshall P.privateTryFrom c = some (.ok (pub, priv))) ∧
    ∀ pub pb priv pub' pb' priv', P.marshall pub = some pb → pb.length ≤ 65535 →
      P.privateTryFrom priv.value = some priv → P.marshall pub' = some pb' →
      pb'.length ≤ 65535 → P.privateTryFrom priv'.value = some priv' →
      envelopeEncode P.marshall Private.value pub priv =
        envelopeEncode P.marshall Private.value pub' priv' → pub = pub' ∧ priv = priv' := by
  have hround : ∀ pub pb priv, P.marshall pub = some pb → pb.length ≤ 65535 →
      P.privateTryFrom priv.value = some priv →
      ∃ c, envelopeEncode P.marshall Private.value pub priv = some c ∧
        envelopeDecode P.unmarshall P.privateTryFrom c = some (.ok (pub, priv)) := by
    intro pub pb priv hm hlen hv
    have hc : envelopeEncode P.marshall Private.value pub priv =
        some (envelopeVersion :: (be16 pb.length ++ pb ++ priv.value)) := by
      rw [envelopeEncode, hm]
      rfl
    exact ⟨_, hc, envelopeDecode_encode hm (Nat.lt_succ_of_le hlen) (hunmarshall pub pb hm) hv hc⟩
  refine ⟨hround, ?_⟩
  intro pub pb priv pub' pb' priv' hm hlen hv hm' hlen' hv' heq
  obtain ⟨c, hc, hd⟩ := hround pub pb priv hm hlen hv
  obtain ⟨c', hc', hd'⟩ := hround pub' pb' priv' hm' hlen' hv'
  obtain rfl : c = c' := Option.some.inj (hc.symm.trans (heq.trans hc'))
  have hsame := hd.symm.trans hd'
  simp only [Option.some.injEq, Except.ok.injEq, Prod.mk.injEq] at hsame
  exact hsame

/-- Sealed data with a private part, and the envelopes of two private parts told apart. -/
theorem envelope_round_trip_sealed :
    (∃ c, envelopeEncode Platform.plain.marshall Private.value (sealedPublic true) ⟨[1, 2, 3]⟩ = some c ∧
      envelopeDecode Platform.plain.unmarshall Platform.plain.privateTryFrom c =
        some (.ok (sealedPublic true, ⟨[1, 2, 3]⟩))) ∧
    envelopeEncode Platform.plain.marshall Private.value (sealedPublic true) ⟨[1, 2, 3]⟩ ≠
      envelopeEncode Platform.plain.marshall Private.value (sealedPublic true) ⟨[1, 2, 4]⟩ := by
  have h := envelope_round_trip Platform.plain fun _ _ => Platform.plainUnmarshall_marshall
  refine ⟨h.1 _ [1] _ (by decide) (by decide) (by decide), fun heq => ?_⟩
  have hsame := h.2 _ [1] _ _ [1] _ (by decide) (by decide) (by decide) (by decide) (by decide)
    (by decide) heq
  exact absurd hsame.2 (by decide)

/-- **`envelope_decode`, exactly.** It indexes and slices in range, accepts the inputs of the
grammar, in the one way they can be cut, and calls every other input malformed. An envelope that
lost bytes is malformed once the loss reaches the public area; before that it reads as an envelope
with a shorter private part. -/
theorem envelopeDecode_exact :
    (∀ (Pub Priv : Type) (unmarshall : Bytes → Option Pub) (tryFrom : Bytes → Option Priv)
        (c : Bytes),
      envelopeDecode unmarshall tryFrom c ≠ none ∧
      (∀ pub priv, envelopeDecode unmarshall tryFrom c = some (.ok (pub, priv)) ↔
        ∃ pb rest, Framed c pb rest ∧ unmarshall pb = some pub ∧ tryFrom rest = some priv) ∧
      (∀ pb rest pb' rest', Framed c pb rest → Framed c pb' rest' → pb = pb' ∧ rest = rest') ∧
      ((¬ ∃ pub priv, envelopeDecode unmarshall tryFrom c = some (.ok (pub, priv))) →
        envelopeDecode unmarshall tryFrom c = some (.error .malformedEnvelope))) ∧
    ∀ (P : Platform) (pub : Public) (pb : Bytes) (priv : Private) (c : Bytes) (k : Nat),
      P.marshall pub = some pb → pb.length ≤ 65535 → P.unmarshall pb = some pub →
      P.privateTryFrom priv.value = some priv →
      envelopeEncode P.marshall Private.value pub priv = some c →
      envelopeDecode P.unmarshall P.privateTryFrom (c.take (c.length - k)) =
        some (if priv.value.length < k then .error .malformedEnvelope
          else .ok (pub, ⟨priv.value.take (priv.value.length - k)⟩)) := by
  constructor
  · intro Pub Priv unmarshall tryFrom c
    refine ⟨envelopeDecode_ne_none c, fun _ _ => envelopeDecode_eq_ok_iff,
      fun _ _ _ _ h h' => h.unique h', ?_⟩
    intro hnot
    rcases @envelopeDecode_ok_or_malformed Pub Priv unmarshall tryFrom c with h | h
    · exact absurd h hnot
    · exact h
  · intro P pub pb priv c k hm hlen hu hv hc
    have hframe := envelopeEncode_framed hm hlen hc
    by_cases hk : priv.value.length < k
    · rw [if_pos hk]
      exact envelopeDecode_of_not_framed (hframe.not_framed_of_cut hk)
    · rw [if_neg hk, envelopeDecode_eq_ok_iff]
      have hmax : priv.value.length ≤ P.privateMax := by
        unfold Platform.privateTryFrom at hv
        split at hv
        · assumption
        · simp at hv
      refine ⟨pb, _, hframe.dropLast (Nat.le_of_not_lt hk), hu, ?_⟩
      rw [Platform.privateTryFrom, if_pos]
      exact Nat.le_trans (List.length_take_le' _ _) hmax

/-- A four-byte private part cut to two bytes, and cut into the public area. -/
theorem envelopeDecode_exact_cut :
    ∃ c, envelopeEncode Platform.plain.marshall Private.value (sealedPublic true) ⟨[1, 2, 3, 4]⟩ =
        some c ∧
      envelopeDecode Platform.plain.unmarshall Platform.plain.privateTryFrom
        (c.take (c.length - 2)) = some (.ok (sealedPublic true, ⟨[1, 2]⟩)) ∧
      envelopeDecode Platform.plain.unmarshall Platform.plain.privateTryFrom
        (c.take (c.length - 5)) = some (.error .malformedEnvelope) :=
  ⟨[1, 0, 1, 1, 1, 2, 3, 4], by decide,
    envelopeDecode_exact.2 Platform.plain (sealedPublic true) [1] ⟨[1, 2, 3, 4]⟩ _ 2 (by decide)
      (by decide) (by decide) (by decide) (by decide),
    envelopeDecode_exact.2 Platform.plain (sealedPublic true) [1] ⟨[1, 2, 3, 4]⟩ _ 5 (by decide)
      (by decide) (by decide) (by decide) (by decide)⟩

end Sceau
