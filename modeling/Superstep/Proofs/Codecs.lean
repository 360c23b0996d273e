import Superstep.Codec.Scalar
import Superstep.Proofs.Decoder
import Superstep.Proofs.Utf8

/-!
# Superstep — what codecs promise

`LawfulCodec` holds the laws that containers rely on: a value whose encoded form is less than
4 GiB long is read back from it, whatever follows; what is read was the one encoded form of the
value; and decoding over an old value forgets the old value. `LawfulId` adds that the order of
ids is a total order in which only equal ids compare equal. `LawfulRefill` is the converse of the
last law: what can be decoded over an old value can be decoded. `Oblivious` says this of failures
too: they are the same for all old values, which stay as they are.

* **`Scalar.instLawfulCodec`**, **`Key.instLawfulId`** — every type that a graph can be built
  from keeps these laws;
* **`LawfulRefill.of_eq_ok`** — an encoded form is the only thing that is read as its value.
-/

namespace Superstep

/-- The laws of a codec. -/
class LawfulCodec (α : Type) [Codec α] : Prop where
  /-- No encoded form is shorter than the shortest. -/
  minLen_le : ∀ a : α, Codec.minLen (α := α) ≤ (Codec.encode a).length
  /-- An encoded form is read back, unless it is too long for the lengths in it. -/
  reads : ∀ a : α, (Codec.encode a).length < wordLimit → Reads Codec.decode (Codec.encode a) a
  /-- What was read is an encoded form that is read back. -/
  of_decode : ∀ {input rest} {a : α}, Codec.decode.run input = (.ok a, rest) →
    input = Codec.encode a ++ rest ∧ Reads Codec.decode (Codec.encode a) a
  /-- Decoding over a value is decoding. -/
  decodeInto_eq : ∀ (old : α) {input rest} {a : α}, Codec.decode.run input = (.ok a, rest) →
    Codec.decodeInto old input = ⟨.ok (), a, rest⟩

/-- Decoding over a value reads nothing that decoding does not read. -/
class LawfulRefill (α : Type) [Codec α] : Prop where
  run_of_decodeInto : ∀ (old : α) {input}, (Codec.decodeInto old input).outcome = .ok () →
    ∃ (a : α) (rest : Bytes), Codec.decode.run input = (.ok a, rest)

/-- Decoding over a value is decoding, and a failure leaves the value as it was. -/
class Oblivious (α : Type) [Codec α] : Prop where
  decodeInto_eq_ofDecoder : ∀ (old : α) (input : Bytes),
    Codec.decodeInto old input = Refill.ofDecoder Codec.decode old input

/-- The laws of ids. -/
class LawfulId (α : Type) [VertexId α] : Prop extends
  LawfulCodec α, Std.TransOrd α, Std.LawfulEqOrd α

namespace Decoder

theorem run_take_eq_ok {n : Nat} {input bytes rest : Bytes} :
    (take n).run input = (.ok bytes, rest) ↔ input = bytes ++ rest ∧ bytes.length = n := by
  show (if n ≤ input.length then (.ok (input.take n), input.drop n)
    else (.error (.overread n input.length), input) : Except Corruption Bytes × Bytes) = _ ↔ _
  constructor
  · intro h
    split at h
    · next hle =>
      cases h
      exact ⟨(List.take_append_drop n input).symm, List.length_take_of_le hle⟩
    · cases h
  · rintro ⟨rfl, rfl⟩
    rw [if_pos (by simp), List.take_left, List.drop_left]

/-- **A decoder that ends well went through each of its parts.** -/
theorem run_bind_eq_ok {α β : Type} {d : Decoder α} {f : α → Decoder β} {input rest : Bytes}
    {b : β} : (d >>= f).run input = (.ok b, rest) ↔
      ∃ a middle, d.run input = (.ok a, middle) ∧ (f a).run middle = (.ok b, rest) := by
  rw [run_bind]
  constructor
  · intro h
    split at h
    · next a middle hd => exact ⟨a, middle, hd, h⟩
    · cases h
  · rintro ⟨a, middle, hd, hf⟩
    rw [hd]
    exact hf

theorem run_pure_eq_ok {α : Type} {a b : α} {input rest : Bytes} :
    (pure a : Decoder α).run input = (.ok b, rest) ↔ a = b ∧ input = rest := by
  rw [run_pure]
  constructor
  · intro h
    cases h
    exact ⟨rfl, rfl⟩
  · rintro ⟨rfl, rfl⟩
    rfl

theorem run_ofExcept_eq_ok {α : Type} {e : Except Corruption α} {a : α} {input rest : Bytes} :
    (ofExcept e).run input = (.ok a, rest) ↔ e = .ok a ∧ input = rest := by
  cases e with
  | error cause => exact ⟨fun h => (by cases h), fun h => (by cases h.1)⟩
  | ok value => rw [ofExcept, run_pure_eq_ok, Except.ok.injEq]

theorem run_word_eq_ok {width n : Nat} {input rest : Bytes} :
    (word width).run input = (.ok n, rest) ↔
      n < BigEndian.limit width ∧ input = BigEndian.encode width n ++ rest := by
  rw [word, run_bind_eq_ok]
  constructor
  · rintro ⟨bytes, middle, htake, hpure⟩
    obtain ⟨rfl, rfl⟩ := run_take_eq_ok.1 htake
    obtain ⟨rfl, rfl⟩ := run_pure_eq_ok.1 hpure
    exact ⟨BigEndian.decode_lt bytes, by rw [BigEndian.encode_decode]⟩
  · rintro ⟨hn, rfl⟩
    refine ⟨BigEndian.encode width n, rest, run_take_eq_ok.2 ⟨rfl, by simp⟩, ?_⟩
    rw [BigEndian.decode_encode, Nat.mod_eq_of_lt hn]
    rfl

theorem run_byte_eq_ok {b : UInt8} {input rest : Bytes} :
    byte.run input = (.ok b, rest) ↔ input = b :: rest := by
  rw [byte, run_bind_eq_ok]
  constructor
  · rintro ⟨n, middle, hword, hpure⟩
    obtain ⟨hn, rfl⟩ := run_word_eq_ok.1 hword
    obtain ⟨rfl, rfl⟩ := run_pure_eq_ok.1 hpure
    simp [BigEndian.encode, BigEndian.limit]
  · rintro rfl
    refine ⟨b.toNat, rest, run_word_eq_ok.2 ⟨b.toNat_lt, ?_⟩, ?_⟩
    · simp [BigEndian.encode, BigEndian.limit]
    · rw [UInt8.ofNat_toNat]
      rfl

theorem run_word32_eq_ok {n : UInt32} {input rest : Bytes} :
    word32.run input = (.ok n, rest) ↔ input = BigEndian.encode 4 n.toNat ++ rest := by
  constructor
  · intro h
    obtain ⟨word, middle, hword, hpure⟩ := run_bind_eq_ok.1 h
    obtain ⟨hlt, rfl⟩ := run_word_eq_ok.1 hword
    obtain ⟨rfl, rfl⟩ := run_pure_eq_ok.1 hpure
    have hsame : (UInt32.ofNat word).toNat = word := UInt32.toNat_ofNat_of_lt hlt
    rw [hsame]
  · rintro rfl
    exact Reads.word32 n rest

theorem run_word64_eq_ok {n : UInt64} {input rest : Bytes} :
    word64.run input = (.ok n, rest) ↔ input = BigEndian.encode 8 n.toNat ++ rest := by
  constructor
  · intro h
    obtain ⟨word, middle, hword, hpure⟩ := run_bind_eq_ok.1 h
    obtain ⟨hlt, rfl⟩ := run_word_eq_ok.1 hword
    obtain ⟨rfl, rfl⟩ := run_pure_eq_ok.1 hpure
    have hsame : (UInt64.ofNat word).toNat = word := UInt64.toNat_ofNat_of_lt hlt
    rw [hsame]
  · rintro rfl
    exact Reads.word64 n rest

/-- **A count is accepted** if the input is long enough for as many of the shortest items. -/
theorem run_lengthPrefix_eq_ok {minItem n : Nat} {input rest : Bytes} :
    (lengthPrefix minItem).run input = (.ok n, rest) ↔
      n < wordLimit ∧ input = BigEndian.encode 4 n ++ rest ∧ n * minItem ≤ rest.length := by
  rw [lengthPrefix, run_bind_eq_ok]
  constructor
  · rintro ⟨len, middle, hword, hrest⟩
    obtain ⟨hlen, rfl⟩ := run_word_eq_ok.1 hword
    obtain ⟨left, middle', hleft, hif⟩ := run_bind_eq_ok.1 hrest
    cases hleft
    split at hif
    · cases hif
    · next hle =>
      obtain ⟨rfl, rfl⟩ := run_pure_eq_ok.1 hif
      exact ⟨hlen, rfl, Nat.le_of_not_lt hle⟩
  · rintro ⟨hn, rfl, hle⟩
    refine ⟨n, rest, run_word_eq_ok.2 ⟨hn, rfl⟩, ?_⟩
    rw [run_bind_eq_ok]
    refine ⟨rest.length, rest, rfl, ?_⟩
    rw [if_neg (Nat.not_lt.2 hle)]
    rfl

/-- Some bytes behind their length, and what is made of them. -/
theorem run_prefixed_eq_ok {α : Type} {f : Bytes → Decoder α} {input rest : Bytes} {a : α} :
    (do f (← take (← lengthPrefix 1))).run input = (.ok a, rest) ↔
      ∃ bytes middle, bytes.length < wordLimit
        ∧ input = BigEndian.encode 4 bytes.length ++ (bytes ++ middle)
        ∧ (f bytes).run middle = (.ok a, rest) := by
  constructor
  · intro h
    obtain ⟨len, middle, hlen, htake⟩ := run_bind_eq_ok.1 h
    obtain ⟨hlt, rfl, _⟩ := run_lengthPrefix_eq_ok.1 hlen
    obtain ⟨bytes, left, hbytes, hf⟩ := run_bind_eq_ok.1 htake
    obtain ⟨rfl, rfl⟩ := run_take_eq_ok.1 hbytes
    exact ⟨bytes, left, hlt, rfl, hf⟩
  · rintro ⟨bytes, middle, hlt, rfl, hf⟩
    -- a length of bytes never asks for more than the bytes that it counts
    have hroom : bytes.length * 1 ≤ (bytes ++ middle).length := by simp
    have hlen := run_lengthPrefix_eq_ok.2 ⟨hlt, rfl, hroom⟩
    exact run_bind_eq_ok.2 ⟨_, _, hlen, run_bind_eq_ok.2 ⟨_, _, Reads.take bytes middle, hf⟩⟩

theorem run_finish_eq_ok {what : String} {input : Bytes} :
    ((finish what).run input).1 = .ok () ↔ input = [] := by
  show ((if input.length = 0 then pure () else fail _ : Decoder Unit).run input).1 = _ ↔ _
  rw [← List.length_eq_zero_iff]
  split
  · next hzero => exact iff_of_true rfl hzero
  · next hleft => exact iff_of_false (fun h => by cases h) hleft

/-- A record that has to fill its input is read off all of it. -/
theorem complete_eq_ok_iff {α : Type} {d : Decoder α} {what : String} {input : Bytes} {a : α} :
    d.complete what input = .ok a ↔ d.run input = (.ok a, []) := by
  constructor
  · intro h
    obtain ⟨b, rest, hread, hlast⟩ := run_bind_eq_ok.1 (Prod.ext h rfl)
    obtain ⟨_, left, hfinish, hpure⟩ := run_bind_eq_ok.1 hlast
    obtain rfl := run_finish_eq_ok.1 (congrArg Prod.fst hfinish)
    obtain ⟨rfl, _⟩ := run_pure_eq_ok.1 hpure
    exact hread
  · intro h
    unfold complete
    rw [run_bind, h]
    rfl

end Decoder

/-- A run that ends well, in all its parts. -/
theorem Refill.eq_of_outcome {α : Type} {r : Refill α} (h : r.outcome = .ok ()) :
    r = ⟨.ok (), r.target, r.rest⟩ := by
  rw [← h]

namespace LawfulCodec

/-- A codec without a way of its own to decode over a value. -/
theorem decodeInto_ofDecoder {α : Type} {d : Decoder α} {input rest : Bytes} {a : α}
    (h : d.run input = (.ok a, rest)) (old : α) :
    Refill.ofDecoder d old input = ⟨.ok (), a, rest⟩ := by
  rw [Refill.ofDecoder, h]

/-- Numbers of a fixed width. -/
theorem fixedWidth {α : Type} {width : Nat} {toNat : α → Nat} {ofNat : Nat → α}
    (hlt : ∀ a, toNat a < BigEndian.limit width) (hofNat : ∀ a, ofNat (toNat a) = a)
    (htoNat : ∀ n, n < BigEndian.limit width → toNat (ofNat n) = n) :
    @LawfulCodec α (Codec.fixedWidth width toNat ofNat) := by
  -- the codec is a term here, not an instance of the type
  let _ := Codec.fixedWidth width toNat ofNat
  have hreads : ∀ a : α, Reads Codec.decode (Codec.encode a) a := by
    intro a
    have h := (Reads.word_of_lt (hlt a)).map ofNat
    rwa [hofNat] at h
  refine ⟨fun a => ?_, fun a _ => hreads a, ?_, ?_⟩
  · exact Nat.le_of_eq (BigEndian.length_encode width (toNat a)).symm
  · intro input rest a hrun
    obtain ⟨n, middle, hword, hpure⟩ := Decoder.run_bind_eq_ok.1 hrun
    obtain ⟨hn, rfl⟩ := Decoder.run_word_eq_ok.1 hword
    obtain ⟨rfl, rfl⟩ := Decoder.run_pure_eq_ok.1 hpure
    refine ⟨?_, hreads _⟩
    show _ = BigEndian.encode width (toNat (ofNat n)) ++ _
    rw [htoNat n hn]
  · exact fun old _ _ _ hrun => decodeInto_ofDecoder hrun old

/-- **Encoded forms can be told apart**, whatever follows them. -/
theorem append_inj {α : Type} [Codec α] [LawfulCodec α] {a b : α} {rest rest' : Bytes}
    (ha : (Codec.encode a).length < wordLimit) (hb : (Codec.encode b).length < wordLimit)
    (h : Codec.encode a ++ rest = Codec.encode b ++ rest') : a = b ∧ rest = rest' := by
  have hrun := reads a ha rest
  rw [h, reads b hb rest'] at hrun
  cases hrun
  exact ⟨rfl, rfl⟩

end LawfulCodec

namespace LawfulRefill

variable {α : Type} [Codec α]

instance [Oblivious α] : LawfulRefill α := by
  refine ⟨fun old input hok => ?_⟩
  rw [Oblivious.decodeInto_eq_ofDecoder, Refill.ofDecoder] at hok
  split at hok
  · next a rest hrun => exact ⟨a, rest, hrun⟩
  · cases hok

/-- **What is decoded over a value was the one encoded form of what it gives.** -/
theorem of_eq_ok [LawfulCodec α] [LawfulRefill α] {old a : α} {input rest : Bytes}
    (h : Codec.decodeInto old input = ⟨.ok (), a, rest⟩) :
    Codec.decode.run input = (.ok a, rest) ∧ input = Codec.encode a ++ rest := by
  obtain ⟨b, left, hrun⟩ := run_of_decodeInto old (congrArg Refill.outcome h)
  have hread := LawfulCodec.decodeInto_eq old hrun
  rw [h] at hread
  cases hread
  exact ⟨hrun, (LawfulCodec.of_decode hrun).1⟩

end LawfulRefill

/-! ## Scalars

Numbers are words of their width, and so are the bits of a floating-point number. Only two types
need a proof of their own: a flag, of whose bytes two are accepted, and a string, whose bytes have
to be text. -/

instance : LawfulCodec UInt8 :=
  .fixedWidth (fun a => a.toNat_lt) (fun _ => UInt8.ofNat_toNat)
    (fun _ h => UInt8.toNat_ofNat_of_lt h)

instance : LawfulCodec UInt16 :=
  .fixedWidth (fun a => a.toNat_lt) (fun _ => UInt16.ofNat_toNat)
    (fun _ h => UInt16.toNat_ofNat_of_lt h)

instance : LawfulCodec UInt32 :=
  .fixedWidth (fun a => a.toNat_lt) (fun _ => UInt32.ofNat_toNat)
    (fun _ h => UInt32.toNat_ofNat_of_lt h)

instance : LawfulCodec UInt64 :=
  .fixedWidth (fun a => a.toNat_lt) (fun _ => UInt64.ofNat_toNat)
    (fun _ h => UInt64.toNat_ofNat_of_lt h)

instance : LawfulCodec Int8 :=
  .fixedWidth (fun a => a.toUInt8.toNat_lt) (fun a => by simp) (fun n h => by
    show (UInt8.ofNat n).toInt8.toUInt8.toNat = n
    rw [UInt8.toUInt8_toInt8]
    exact UInt8.toNat_ofNat_of_lt h)

instance : LawfulCodec Int16 :=
  .fixedWidth (fun a => a.toUInt16.toNat_lt) (fun a => by simp) (fun n h => by
    show (UInt16.ofNat n).toInt16.toUInt16.toNat = n
    rw [UInt16.toUInt16_toInt16]
    exact UInt16.toNat_ofNat_of_lt h)

instance : LawfulCodec Int32 :=
  .fixedWidth (fun a => a.toUInt32.toNat_lt) (fun a => by simp) (fun n h => by
    show (UInt32.ofNat n).toInt32.toUInt32.toNat = n
    rw [UInt32.toUInt32_toInt32]
    exact UInt32.toNat_ofNat_of_lt h)

instance : LawfulCodec Int64 :=
  .fixedWidth (fun a => a.toUInt64.toNat_lt) (fun a => by simp) (fun n h => by
    show (UInt64.ofNat n).toInt64.toUInt64.toNat = n
    rw [UInt64.toUInt64_toInt64]
    exact UInt64.toNat_ofNat_of_lt h)

instance : LawfulCodec Binary32 :=
  .fixedWidth (fun a => a.bits.toNat_lt) (fun a => by simp) (fun _ h => UInt32.toNat_ofNat_of_lt h)

instance : LawfulCodec Binary64 :=
  .fixedWidth (fun a => a.bits.toNat_lt) (fun a => by simp) (fun _ h => UInt64.toNat_ofNat_of_lt h)

instance : LawfulCodec Unit where
  minLen_le _ := Nat.le_refl _
  reads _ _ := .pure ()
  of_decode h := by
    obtain ⟨_, rfl⟩ := Decoder.run_pure_eq_ok.1 h
    exact ⟨rfl, .pure ()⟩
  decodeInto_eq old _ _ _ h := LawfulCodec.decodeInto_ofDecoder h old

instance : LawfulCodec Bool where
  minLen_le _ := Nat.le_refl _
  reads b _ := by
    cases b
    · exact (Reads.byte 0).bind (.pure false)
    · exact (Reads.byte 1).bind (.pure true)
  of_decode {input rest b} h := by
    obtain ⟨byte, middle, hbyte, hif⟩ := Decoder.run_bind_eq_ok.1 h
    rw [Decoder.run_byte_eq_ok] at hbyte
    subst hbyte
    -- 0 and 1 are the only bytes that are accepted
    split at hif
    · next hzero =>
      obtain ⟨rfl, rfl⟩ := Decoder.run_pure_eq_ok.1 hif
      exact ⟨hzero ▸ rfl, (Reads.byte 0).bind (.pure false)⟩
    · split at hif
      · next hone =>
        obtain ⟨rfl, rfl⟩ := Decoder.run_pure_eq_ok.1 hif
        exact ⟨hone ▸ rfl, (Reads.byte 1).bind (.pure true)⟩
      · cases hif
  decodeInto_eq old _ _ _ h := LawfulCodec.decodeInto_ofDecoder h old

/-- A string is read back when its length fits the length field. -/
theorem reads_string {s : String} (h : (Utf8.encode s).length < wordLimit) :
    Reads Codec.decode (Codec.encode s) s := by
  have hbytes : Codec.encode s = BigEndian.encode 4 (Utf8.encode s).length ++ Utf8.encode s ++ [] :=
    (List.append_nil _).symm
  rw [hbytes]
  refine Reads.prefixed h ?_
  rw [Utf8.decode?_eq_some_iff.2 rfl]
  exact .pure s

/-- A string that is read has a length that fits the length field. -/
theorem of_decode_string {input rest : Bytes} {s : String}
    (h : Codec.decode.run input = (.ok s, rest)) :
    input = Codec.encode s ++ rest ∧ (Utf8.encode s).length < wordLimit := by
  obtain ⟨body, left, hlt, rfl, hdecode⟩ := Decoder.run_prefixed_eq_ok.1 h
  split at hdecode
  · next s' hs' =>
    obtain ⟨rfl, rfl⟩ := Decoder.run_pure_eq_ok.1 hdecode
    rw [Utf8.decode?_eq_some_iff] at hs'
    subst hs'
    refine ⟨?_, hlt⟩
    show _ = BigEndian.encode 4 _ ++ _ ++ _
    rw [List.append_assoc]
  · cases hdecode

/-- Both ways to decode a string read the same. -/
instance : Oblivious String where
  decodeInto_eq_ofDecoder old input := by
    have hdecode : (Codec.decode : Decoder String) = Decoder.lengthPrefix 1 >>= fun len =>
      Decoder.take len >>= fun body =>
        match Utf8.decode? body with
        | some text => pure text
        | none => Decoder.fail .badString := rfl
    show decodeOverString old input = _
    rw [decodeOverString, Refill.ofDecoder, hdecode, Decoder.run_bind]
    cases (Decoder.lengthPrefix 1).run input with
    | mk outcome rest =>
      cases outcome with
      | error e => rfl
      | ok len =>
        dsimp only
        rw [Decoder.run_bind]
        cases (Decoder.take len).run rest with
        | mk outcome rest =>
          cases outcome with
          | error e => rfl
          | ok body =>
            dsimp only
            cases Utf8.decode? body <;> rfl

instance : LawfulCodec String where
  minLen_le s := by
    show 4 ≤ (BigEndian.encode 4 (Utf8.encode s).length ++ Utf8.encode s).length
    rw [List.length_append, BigEndian.length_encode]
    omega
  reads s h := by
    have hlen : (BigEndian.encode 4 (Utf8.encode s).length ++ Utf8.encode s).length < wordLimit := h
    rw [List.length_append] at hlen
    exact reads_string (by omega)
  of_decode h := by
    obtain ⟨hinput, hlen⟩ := of_decode_string h
    exact ⟨hinput, reads_string hlen⟩
  decodeInto_eq old _ _ _ h := by
    rw [Oblivious.decodeInto_eq_ofDecoder]
    exact LawfulCodec.decodeInto_ofDecoder h old

/-- **Every scalar type is lawful.** -/
instance Scalar.instLawfulCodec : (s : Scalar) → @LawfulCodec s.Carrier s.instValue.toCodec
  | i8 => inferInstanceAs (LawfulCodec Int8)
  | i16 => inferInstanceAs (LawfulCodec Int16)
  | i32 => inferInstanceAs (LawfulCodec Int32)
  | i64 => inferInstanceAs (LawfulCodec Int64)
  | u8 => inferInstanceAs (LawfulCodec UInt8)
  | u16 => inferInstanceAs (LawfulCodec UInt16)
  | u32 => inferInstanceAs (LawfulCodec UInt32)
  | u64 => inferInstanceAs (LawfulCodec UInt64)
  | f32 => inferInstanceAs (LawfulCodec Binary32)
  | f64 => inferInstanceAs (LawfulCodec Binary64)
  | bool => inferInstanceAs (LawfulCodec Bool)
  | unit => inferInstanceAs (LawfulCodec Unit)
  | string => inferInstanceAs (LawfulCodec String)

/-- The laws of ids are those of the codec and those of the order. -/
theorem LawfulId.of {α : Type} [VertexId α] (hcodec : LawfulCodec α) (htrans : Std.TransOrd α)
    (heq : Std.LawfulEqOrd α) : LawfulId α where

/-- **Every key type is lawful.** -/
instance Key.instLawfulId : (k : Key) → @LawfulId k.Carrier k.instVertexId
  | i8 => @LawfulId.of Int8 (instVertexId .i8) inferInstance inferInstance inferInstance
  | i16 => @LawfulId.of Int16 (instVertexId .i16) inferInstance inferInstance inferInstance
  | i32 => @LawfulId.of Int32 (instVertexId .i32) inferInstance inferInstance inferInstance
  | i64 => @LawfulId.of Int64 (instVertexId .i64) inferInstance inferInstance inferInstance
  | u8 => @LawfulId.of UInt8 (instVertexId .u8) inferInstance inferInstance inferInstance
  | u16 => @LawfulId.of UInt16 (instVertexId .u16) inferInstance inferInstance inferInstance
  | u32 => @LawfulId.of UInt32 (instVertexId .u32) inferInstance inferInstance inferInstance
  | u64 => @LawfulId.of UInt64 (instVertexId .u64) inferInstance inferInstance inferInstance
  | bool => @LawfulId.of Bool (instVertexId .bool) inferInstance inferInstance inferInstance
  | unit =>
    @LawfulId.of Unit (instVertexId .unit) inferInstance
      { eq_swap := rfl, isLE_trans := fun _ _ => rfl }
      { compare_self := rfl, eq_of_compare := fun _ => rfl }
  | string => @LawfulId.of String (instVertexId .string) inferInstance inferInstance inferInstance

instance : LawfulId UInt64 := Key.instLawfulId .u64

/-- **No scalar type looks at the old value.** -/
instance Scalar.instOblivious : (s : Scalar) → @Oblivious s.Carrier s.instValue.toCodec
  | i8 | i16 | i32 | i64 | u8 | u16 | u32 | u64 | f32 | f64 | bool | unit => ⟨fun _ _ => rfl⟩
  | string => inferInstanceAs (Oblivious String)

instance Key.instOblivious : (k : Key) → @Oblivious k.Carrier k.instVertexId.toCodec
  | i8 | i16 | i32 | i64 | u8 | u16 | u32 | u64 | bool | unit => ⟨fun _ _ => rfl⟩
  | string => inferInstanceAs (Oblivious String)

instance : Oblivious UInt64 := ⟨fun _ _ => rfl⟩

instance : Oblivious Bool := ⟨fun _ _ => rfl⟩

end Superstep
