import Superstep.Proofs.Codecs
import Superstep.Proofs.Frames

/-!
# Superstep — the bytes of a frame

`Frame.Written bytes frame` says in so many words what a frame is on the wire: what the encoders
write, and beside that failures whose reason is any bytes. The decoder accepts these and nothing
else, so a request or an acknowledgement has one encoded form, and a failure has as many as there
are ill-formed spellings of its reason.

* **`Frame.decode_eq_ok_iff`** — what is accepted;
* **`Frame.Written.reads`** — a frame ends where it says, so that no frame begins another;
* **`Frame.wire_format`** — frames there and back, byte strings there and back, and refusals.
-/

namespace Superstep

namespace ResponseFrame

/-- A reason is short enough for its field. -/
def Fits : ResponseFrame → Prop
  | ack _ _ => True
  | failed _ _ reason => (Utf8.encode reason).length < wordLimit

instance : DecidablePred Fits
  | ack _ _ => inferInstanceAs (Decidable True)
  | failed _ _ reason => inferInstanceAs (Decidable ((Utf8.encode reason).length < wordLimit))

theorem reasonBytes_of_lt {reason : String} (h : (Utf8.encode reason).length < wordLimit) :
    reasonBytes reason = Utf8.encode reason :=
  if_pos h

/-- What fits is not cut. -/
theorem Fits.received_eq {r : ResponseFrame} (h : r.Fits) : r.received = r := by
  cases r with
  | ack responder id => rfl
  | failed responder id reason => rw [received, reasonBytes_of_lt h, Utf8.lossy_encode]

/-- A well-formed reason is written as it was read. -/
theorem encode_of_wellFormed {responder : WorkerId} {id : RequestId} {reason : Bytes}
    (hlen : reason.length < wordLimit) (h : (Utf8.decode? reason).isSome = true) :
    encode (.failed responder id (Utf8.lossy reason)) = failedBytes responder id reason := by
  have hreason := Utf8.encode_lossy_of_decode? h
  have hsame : reasonBytes (Utf8.lossy reason) = reason :=
    (reasonBytes_of_lt (hreason.symm ▸ hlen)).trans hreason
  rw [encode, hsame]
  rfl

end ResponseFrame

namespace Frame

/-- `bytes` stand for `frame`. -/
inductive Written : Bytes → Frame → Prop
  | request {f : RequestFrame} {bytes : Bytes} (h : f.encode = .ok bytes) :
    Written bytes (.request f)
  | ack (responder : WorkerId) (id : RequestId) :
    Written (ResponseFrame.encode (.ack responder id)) (.response (.ack responder id))
  /-- The reason is read with replacement characters. -/
  | failed (responder : WorkerId) (id : RequestId) {reason : Bytes}
    (h : reason.length < wordLimit) :
    Written (ResponseFrame.failedBytes responder id reason)
      (.response (.failed responder id (Utf8.lossy reason)))

/-- **A frame ends where it says.** -/
theorem Written.reads {bytes : Bytes} {frame : Frame} (h : Written bytes frame) :
    Reads front bytes frame := by
  cases h with
  | request h => exact RequestFrame.reads_encode h
  | ack responder id => exact ResponseFrame.reads_ack responder id
  | failed responder id h => exact ResponseFrame.reads_failedBytes responder id h

/-- A code that is known is that of its type. -/
theorem code_of_ofCode {code : UInt8} {type : RequestType}
    (h : RequestType.ofCode code = .ok type) : type.code = code := by
  unfold RequestType.ofCode at h
  split at h
  · next hcode => cases h; exact hcode.symm
  · split at h
    · next hcode => cases h; exact hcode.symm
    · cases h

variable {body rest : Bytes} {frame : Frame}

/-- **What is read as a request** was encoded as one: every field has one form. -/
theorem written_of_request (h : (fields 1).run body = (.ok frame, rest)) :
    ∃ bytes, 1 :: body = bytes ++ rest ∧ Written bytes frame := by
  obtain ⟨sender, _, hsender, h⟩ := Decoder.run_bind_eq_ok.1 h
  obtain ⟨id, _, hid, h⟩ := Decoder.run_bind_eq_ok.1 h
  obtain ⟨code, _, hcode, h⟩ := Decoder.run_bind_eq_ok.1 h
  obtain ⟨type, _, htype, h⟩ := Decoder.run_bind_eq_ok.1 h
  obtain ⟨payload, _, hlen, hpayload, hframe⟩ := Decoder.run_prefixed_eq_ok.1 h
  obtain ⟨hknown, rfl⟩ := Decoder.run_ofExcept_eq_ok.1 htype
  obtain ⟨rfl, rfl⟩ := Decoder.run_pure_eq_ok.1 hframe
  refine ⟨_, ?_, .request (RequestFrame.encode_eq_ok_iff.2 ⟨hlen, rfl⟩)⟩
  rw [Decoder.run_word32_eq_ok.1 hsender, Decoder.run_word64_eq_ok.1 hid,
    Decoder.run_byte_eq_ok.1 hcode, hpayload, code_of_ofCode hknown]
  simp

/-- What is read as an acknowledgement was encoded as one. -/
theorem written_of_ack (h : (fields 2).run body = (.ok frame, rest)) :
    ∃ bytes, 2 :: body = bytes ++ rest ∧ Written bytes frame := by
  obtain ⟨responder, _, hresponder, h⟩ := Decoder.run_bind_eq_ok.1 h
  obtain ⟨id, _, hid, h⟩ := Decoder.run_bind_eq_ok.1 h
  obtain ⟨rfl, rfl⟩ := Decoder.run_pure_eq_ok.1 h
  refine ⟨_, ?_, .ack ⟨responder⟩ ⟨id⟩⟩
  rw [Decoder.run_word32_eq_ok.1 hresponder, Decoder.run_word64_eq_ok.1 hid, ResponseFrame.encode]
  simp

/-- What is read as a failure has any bytes for a reason. -/
theorem written_of_failed (h : (fields 3).run body = (.ok frame, rest)) :
    ∃ bytes, 3 :: body = bytes ++ rest ∧ Written bytes frame := by
  obtain ⟨responder, _, hresponder, h⟩ := Decoder.run_bind_eq_ok.1 h
  obtain ⟨id, _, hid, h⟩ := Decoder.run_bind_eq_ok.1 h
  obtain ⟨reason, _, hlen, hreason, h⟩ := Decoder.run_prefixed_eq_ok.1 h
  obtain ⟨rfl, rfl⟩ := Decoder.run_pure_eq_ok.1 h
  refine ⟨_, ?_, .failed ⟨responder⟩ ⟨id⟩ hlen⟩
  rw [Decoder.run_word32_eq_ok.1 hresponder, Decoder.run_word64_eq_ok.1 hid, hreason,
    ResponseFrame.failedBytes]
  simp

/-- What is read in front of other bytes was written. -/
theorem written_of_run {input : Bytes} (h : front.run input = (.ok frame, rest)) :
    ∃ bytes, input = bytes ++ rest ∧ Written bytes frame := by
  obtain ⟨tag, body, htag, hfields⟩ := Decoder.run_bind_eq_ok.1 h
  obtain rfl := Decoder.run_byte_eq_ok.1 htag
  -- the first byte tells the frames apart
  by_cases hrequest : tag = 1
  · subst hrequest
    exact written_of_request hfields
  by_cases hack : tag = 2
  · subst hack
    exact written_of_ack hfields
  by_cases hfailed : tag = 3
  · subst hfailed
    exact written_of_failed hfields
  -- no other byte is the first of a frame
  rw [fields, if_neg hrequest, if_neg hack, if_neg hfailed] at hfields
  cases hfields

/-- **What is accepted** is what is written. -/
theorem decode_eq_ok_iff {bytes : Bytes} {frame : Frame} :
    decode bytes = .ok frame ↔ Written bytes frame := by
  constructor
  · intro h
    obtain ⟨bytes', hbytes, hwritten⟩ := written_of_run (Decoder.complete_eq_ok_iff.1 h)
    rw [hbytes, List.append_nil]
    exact hwritten
  · exact fun h => decode_of_reads h.reads

/-- **No frame begins another.** -/
theorem eq_nil_of_decode_append {bytes more : Bytes} {frame frame' : Frame}
    (h : decode bytes = .ok frame) (h' : decode (bytes ++ more) = .ok frame') : more = [] := by
  have hfront := (decode_eq_ok_iff.1 h).reads more
  have hwhole : front.run (bytes ++ more) = (.ok frame', []) := Decoder.complete_eq_ok_iff.1 h'
  rw [hwhole] at hfront
  exact (congrArg Prod.snd hfront).symm

/-- **The wire format.** Frames that fit their fields are read as they were written. What is read as
a request, an acknowledgement, or a failure with a well-formed reason is written as it was read;
other failures are read as well, with another reason, which then stays if it fits. And nothing can
be cut off a frame or put behind it. -/
theorem wire_format :
    (∀ f : RequestFrame, f.payload.length < wordLimit → ∃ bytes,
      f.encode = .ok bytes ∧ decode bytes = .ok (.request f))
    ∧ (∀ r : ResponseFrame, r.Fits → decode r.encode = .ok (.response r))
    ∧ (∀ bytes f, decode bytes = .ok (.request f) → f.encode = .ok bytes)
    ∧ (∀ bytes responder id, decode bytes = .ok (.response (.ack responder id)) →
      ResponseFrame.encode (.ack responder id) = bytes)
    ∧ (∀ bytes responder id text, decode bytes = .ok (.response (.failed responder id text)) →
      ∃ reason, bytes = ResponseFrame.failedBytes responder id reason
        ∧ reason.length < wordLimit ∧ text = Utf8.lossy reason
        ∧ ((Utf8.decode? reason).isSome = true →
          ResponseFrame.encode (.failed responder id text) = bytes)
        ∧ ((Utf8.encode text).length < wordLimit →
          decode (ResponseFrame.encode (.failed responder id text))
            = .ok (.response (.failed responder id text))))
    ∧ (∀ responder id reason, reason.length < wordLimit →
      decode (ResponseFrame.failedBytes responder id reason)
        = .ok (.response (.failed responder id (Utf8.lossy reason))))
    ∧ (∀ bytes frame more, decode bytes = .ok frame → more ≠ [] →
      ∃ cause, decode (bytes ++ more) = .error cause)
    ∧ (∀ bytes frame n, decode bytes = .ok frame → n < bytes.length →
      ∃ cause, decode (bytes.take n) = .error cause) := by
  have hresponse : ∀ r : ResponseFrame, r.Fits → decode r.encode = .ok (.response r) := by
    intro r hr
    rw [ResponseFrame.decode_encode, hr.received_eq]
  refine ⟨?_, hresponse, ?_, ?_, ?_, ?_, ?_, ?_⟩
  · intro f hlen
    have hencode := RequestFrame.encode_eq_ok_iff.2 ⟨hlen, rfl⟩
    exact ⟨_, hencode, RequestFrame.decode_encode hencode⟩
  · intro bytes f h
    cases decode_eq_ok_iff.1 h with
    | request hencode => exact hencode
  · intro bytes responder id h
    cases decode_eq_ok_iff.1 h with
    | ack => rfl
  · intro bytes responder id text h
    cases decode_eq_ok_iff.1 h with
    | @failed _ _ reason hlen =>
      refine ⟨reason, rfl, hlen, rfl, ResponseFrame.encode_of_wellFormed hlen, fun hfits => ?_⟩
      exact hresponse (.failed responder id (Utf8.lossy reason)) hfits
  · intro responder id reason hlen
    exact decode_eq_ok_iff.2 (.failed responder id hlen)
  · intro bytes frame more h hmore
    exact exists_error_of_ne_ok fun _ hlong => hmore (eq_nil_of_decode_append h hlong)
  · intro bytes frame n h hn
    refine exists_error_of_ne_ok fun _ hshort => ?_
    rw [← List.take_append_drop n bytes] at h
    have hnothing := congrArg List.length (eq_nil_of_decode_append hshort h)
    rw [List.length_drop] at hnothing
    exact absurd hnothing (Nat.sub_ne_zero_of_lt hn)

/-- A failure whose reason ends amid a character. -/
def broken : Bytes := ResponseFrame.failedBytes ⟨1⟩ ⟨2⟩ [104, 105, 0xC3]

example : (decode broken).toOption = some (.response (.failed ⟨1⟩ ⟨2⟩ "hi\uFFFD")) := by
  decide +kernel

theorem wire_format_broken :
    let f : RequestFrame := ⟨⟨1⟩, ⟨2⟩, .sendPartition, [7, 8]⟩
    (∃ bytes, f.encode = .ok bytes ∧ decode bytes = .ok (.request f)
        ∧ (∃ cause, decode (bytes ++ [0]) = .error cause)
        ∧ ∃ cause, decode (bytes.take 19) = .error cause)
      ∧ decode broken = .ok (.response (.failed ⟨1⟩ ⟨2⟩ (Utf8.lossy [104, 105, 0xC3])))
      ∧ Utf8.decode? [104, 105, 0xC3] = none
      ∧ decode (ResponseFrame.encode (.failed ⟨1⟩ ⟨2⟩ (Utf8.lossy [104, 105, 0xC3])))
        = .ok (.response (.failed ⟨1⟩ ⟨2⟩ (Utf8.lossy [104, 105, 0xC3])))
      ∧ decode (ResponseFrame.encode (.failed ⟨1⟩ ⟨2⟩ "hé"))
        = .ok (.response (.failed ⟨1⟩ ⟨2⟩ "hé")) := by
  intro f
  obtain ⟨hrequest, hresponse, _, _, hfailed, hany, hpadded, htruncated⟩ := wire_format
  obtain ⟨bytes, hencode, hdecode⟩ := hrequest f (by decide)
  have hbroken := hany ⟨1⟩ ⟨2⟩ [104, 105, 0xC3] (by decide)
  obtain ⟨reason, hbytes, _, htext, _, hagain⟩ := hfailed _ _ _ _ hbroken
  refine ⟨⟨bytes, hencode, hdecode, ?_, ?_⟩, hbroken, by rfl, ?_, ?_⟩
  · exact hpadded _ _ [0] hdecode (by simp)
  · have hlen : bytes.length = 20 := by
      rw [(RequestFrame.encode_eq_ok_iff.1 hencode).2]
      rfl
    exact htruncated _ _ 19 hdecode (by omega)
  · exact hagain (by decide +kernel)
  · exact hresponse (.failed ⟨1⟩ ⟨2⟩ "hé") (by decide +kernel)

end Frame

end Superstep
