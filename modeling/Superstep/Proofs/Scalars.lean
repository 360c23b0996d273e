import Superstep.Proofs.Canonical

/-!
# Superstep — the encoded forms of scalars

Each value of a scalar type has one encoded form, and that form is found again in front of all
bytes. Only a string of 4 GiB or more is too long for its length field (`Scalar.Fits`). Everything
follows from the one description of what a decoder accepts:

* **`LawfulCodec.run_decode_eq_ok`** — a value is decoded off its encoded form and off nothing else;
* **`Reads.eq_of_isPrefix`** — of two forms that are read, neither is the beginning of the other;
* **`Blob.decode_eq_ok`** — a blob is decoded if it is the one that encoding makes;
* **`Scalar.exact_codecs`** — all of it, for every scalar type.
-/

namespace Superstep

/-! ## Any codec

What follows from the laws of a codec alone, whatever its values are. -/

/-- **No form that is read is the beginning of another.** -/
theorem Reads.eq_of_isPrefix {α : Type} {d : Decoder α} {bytes bytes' : Bytes} {a b : α}
    (ha : Reads d bytes a) (hb : Reads d bytes' b) (h : bytes <+: bytes') :
    a = b ∧ bytes = bytes' := by
  obtain ⟨more, rfl⟩ := h
  have hrun := hb []
  rw [List.append_nil, ha more] at hrun
  obtain ⟨hvalue, hmore⟩ := Prod.mk.inj hrun
  refine ⟨Except.ok.inj hvalue, ?_⟩
  rw [hmore, List.append_nil]

section Codec

variable {α : Type} [Codec α]

/-- A value has a blob unless the length of that blob does not fit its field. -/
theorem Blob.exists_encode_eq_ok {a : α} :
    (∃ blob, Blob.encode a = .ok blob) ↔ totalLen (Codec.encode a) < wordLimit := by
  constructor
  · rintro ⟨blob, h⟩
    exact (of_encode h).1
  · intro h
    exact ⟨_, encode_eq h⟩

variable [LawfulCodec α]

/-- **What is decoded** is a value that is read back, off its encoded form. -/
theorem LawfulCodec.run_decode_eq_ok {input rest : Bytes} {a : α} :
    Codec.decode.run input = (.ok a, rest) ↔
      Reads Codec.decode (Codec.encode a) a ∧ input = Codec.encode a ++ rest := by
  constructor
  · intro h
    obtain ⟨hinput, hreads⟩ := of_decode h
    exact ⟨hreads, hinput⟩
  · rintro ⟨hreads, rfl⟩
    exact hreads rest

/-- **A blob is decoded** if it is the one that encoding makes. -/
theorem Blob.decode_eq_ok {blob : Bytes} {a : α} :
    Blob.decode blob = .ok a ↔ Blob.encode a = .ok blob := by
  constructor
  · intro h
    obtain ⟨record, hbody, hrecord⟩ := bind_eq_ok_iff.1 h
    obtain ⟨hfits, rfl⟩ := of_body hbody
    obtain ⟨-, hencoded⟩ := LawfulCodec.run_decode_eq_ok.1 (Decoder.complete_eq_ok_iff.1 hrecord)
    rw [List.append_nil] at hencoded
    subst hencoded
    exact encode_eq hfits
  · intro h
    obtain ⟨hfits, rfl⟩ := of_encode h
    have hlen : (Codec.encode a).length < wordLimit := by
      rw [totalLen] at hfits
      omega
    apply bind_eq_ok_iff.2
    exact ⟨_, body_framed hfits, (LawfulCodec.reads a hlen).complete "blob"⟩

end Codec

/-! ## Scalars

Of the thirteen types only strings have values that do not fit, and all the others have forms of at
most eight bytes. -/

namespace Scalar

/-- The value fits its encoded form: a string is less than 4 GiB long. -/
def Fits : (s : Scalar) → s.Carrier → Prop
  | string, text => (Utf8.encode text).length < wordLimit
  | _, _ => True

/-- Encoded scalars are short, except strings. -/
theorem length_encode_le {s : Scalar} (h : s ≠ .string) (v : s.Carrier) :
    (Codec.encode v).length ≤ 8 := by
  cases s with
  | string => exact absurd rfl h
  | bool => show [_].length ≤ 8; simp
  | unit => exact Nat.zero_le 8
  | _ => exact (BigEndian.length_encode _ _).trans_le (by decide)

/-- **A value is read back** just if it fits. -/
theorem reads_iff {s : Scalar} {v : s.Carrier} :
    Reads Codec.decode (Codec.encode v) v ↔ s.Fits v := by
  by_cases hs : s = .string
  · subst hs
    exact ⟨fun h => (of_decode_string (h [])).2, reads_string⟩
  · have hlen := length_encode_le hs v
    have hlt : (Codec.encode v).length < wordLimit := Nat.lt_of_le_of_lt hlen (by decide)
    refine iff_of_true (LawfulCodec.reads v hlt) ?_
    cases s <;> first | exact trivial | exact absurd rfl hs

/-- **Scalar codecs are exact.** A value that fits is decoded off its encoded form, whatever
follows, and leaves all that follows; and whatever is decoded was the encoded form of a value that
fits. So two values are equal just if their encoded forms are, and no encoded form is the beginning
of that of another value. A blob is decoded as a value just if it is the blob of that value, which
there is as long as its length fits the length field; and a buffer that is overwritten by the blob
of a value holds the same blob, whatever it held before. -/
theorem exact_codecs (s : Scalar) :
    (∀ (input rest : Bytes) (v : s.Carrier),
      Codec.decode.run input = (.ok v, rest) ↔ s.Fits v ∧ input = Codec.encode v ++ rest)
    ∧ (∀ v w : s.Carrier, s.Fits v → s.Fits w → (Codec.encode v = Codec.encode w ↔ v = w))
    ∧ (∀ v w : s.Carrier, s.Fits v → s.Fits w → Codec.encode v <+: Codec.encode w → v = w)
    ∧ (∀ (blob : Bytes) (v : s.Carrier), Blob.decode blob = .ok v ↔ Blob.encode v = .ok blob)
    ∧ (∀ v : s.Carrier,
      (∃ blob, Blob.encode v = .ok blob) ↔ Blob.totalLen (Codec.encode v) < wordLimit)
    ∧ ∀ (buffer : Bytes) (v : s.Carrier), Blob.encodeOver buffer v = Blob.encode v := by
  have hfront : ∀ v w : s.Carrier, s.Fits v → s.Fits w → Codec.encode v <+: Codec.encode w →
      v = w := by
    intro v w hv hw h
    exact ((reads_iff.2 hv).eq_of_isPrefix (reads_iff.2 hw) h).1
  refine ⟨?_, ?_, hfront, ?_, ?_, ?_⟩
  · intro input rest v
    rw [← reads_iff]
    exact LawfulCodec.run_decode_eq_ok
  · intro v w hv hw
    constructor
    · intro h
      apply hfront v w hv hw
      rw [h]
    · rintro rfl
      rfl
  · intro blob v
    exact Blob.decode_eq_ok
  · intro v
    exact Blob.exists_encode_eq_ok
  · intro buffer v
    exact Blob.encodeOver_eq buffer v

theorem exact_codecs_string :
    let short : Scalar.string.Carrier := "n"
    let long : Scalar.string.Carrier := "né"
    Fits .string short ∧ Fits .string long
      ∧ Codec.decode.run (Codec.encode long ++ [7]) = (.ok long, [7])
      ∧ Codec.encode short ≠ Codec.encode long ∧ ¬ Codec.encode short <+: Codec.encode long
      ∧ ∃ blob, Blob.encode long = .ok blob ∧ Blob.decode blob = .ok long
        ∧ Blob.encodeOver [1, 2, 3] long = .ok blob := by
  intro short long
  obtain ⟨hdecode, heq, hfront, hblob, hexists, hover⟩ := exact_codecs .string
  have hshort : Fits .string short := by show (Utf8.encode "n").length < wordLimit; decide +kernel
  have hlong : Fits .string long := by show (Utf8.encode "né").length < wordLimit; decide +kernel
  have hne : short ≠ long := by decide
  obtain ⟨blob, hencode⟩ := (hexists long).2 (by decide +kernel)
  refine ⟨hshort, hlong, ?_, ?_, ?_, blob, hencode, ?_, ?_⟩
  · exact (hdecode _ _ long).2 ⟨hlong, rfl⟩
  · exact fun h => hne ((heq short long hshort hlong).1 h)
  · exact fun h => hne (hfront short long hshort hlong h)
  · exact (hblob blob long).2 hencode
  · rw [hover]
    exact hencode

end Scalar

end Superstep
