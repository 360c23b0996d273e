import Superstep.Message.Frame
import Superstep.Proofs.Decoder

/-!
# Superstep — frames are read back as they were written

* **`RequestFrame.decode_encode`** — a request frame that could be encoded at all is decoded to
  itself;
* **`ResponseFrame.decode_encode`** — a response is decoded to one with the same responder, the
  same request and the same verdict. Only the text of a reason may change: it is cut where it
  is too long for its field.
-/

namespace Superstep

/-- The codes of request types are read back. -/
theorem RequestType.ofCode_code (type : RequestType) : ofCode type.code = .ok type := by
  cases type <;> rfl

namespace Frame

/-- A frame in front of whatever follows it. -/
def front : Decoder Frame := do fields (← Decoder.byte)

/-- The leading byte says how to go on. -/
theorem reads_front {tag : UInt8} {body : Bytes} {frame : Frame}
    (h : Reads (fields tag) body frame) : Reads front ([tag] ++ body) frame :=
  (Reads.byte tag).bind h

theorem decode_of_reads {bytes : Bytes} {frame : Frame} (h : Reads front bytes frame) :
    decode bytes = .ok frame :=
  h.complete "frame"

end Frame

namespace RequestFrame

/-- A request has a frame if its payload is not too long, and these are the bytes. -/
theorem encode_eq_ok_iff {f : RequestFrame} {bytes : Bytes} :
    f.encode = .ok bytes ↔ f.payload.length < wordLimit
      ∧ bytes = [1] ++ (BigEndian.encode 4 f.sender.val.toNat
          ++ (BigEndian.encode 8 f.id.val.toNat ++ ([f.type.code]
            ++ (BigEndian.encode 4 f.payload.length ++ f.payload)))) := by
  unfold encode
  split
  · next h => simp [h, eq_comm]
  · next h => simp [h]

theorem reads_encode {f : RequestFrame} {bytes : Bytes} (h : f.encode = .ok bytes) :
    Reads Frame.front bytes (.request f) := by
  obtain ⟨hlen, rfl⟩ := encode_eq_ok_iff.1 h
  apply Frame.reads_front
  have hpayload : Reads (do
      let payload ← Decoder.take (← Decoder.lengthPrefix 1)
      return Frame.request { sender := ⟨f.sender.val⟩, id := ⟨f.id.val⟩, type := f.type, payload })
      (BigEndian.encode 4 f.payload.length ++ f.payload) (.request f) := by
    have := Reads.prefixed (f := fun payload => pure (Frame.request { f with payload })) hlen
      (Reads.pure (Frame.request f))
    rwa [List.append_nil] at this
  refine (Reads.word32 f.sender.val).bind ((Reads.word64 f.id.val).bind
    ((Reads.byte f.type.code).bind ?_))
  exact (Reads.ofExcept (RequestType.ofCode_code f.type)).bind hpayload

/-- **Requests survive the wire.** -/
theorem decode_encode {f : RequestFrame} {bytes : Bytes} (h : f.encode = .ok bytes) :
    Frame.decode bytes = .ok (.request f) :=
  Frame.decode_of_reads (reads_encode h)

end RequestFrame

namespace ResponseFrame

/-- The response as it is read at the other end. -/
def received : ResponseFrame → ResponseFrame
  | ack responder id => ack responder id
  | failed responder id reason => failed responder id (Utf8.lossy (reasonBytes reason))

/-- A text that is cut to a number of bytes is no longer than that, and no character is cut in
two. -/
theorem length_encode_clip (limit : Nat) (cs : List Char) :
    (Utf8.encode (String.ofList (clip limit cs))).length ≤ limit := by
  have hlength (s : String) : (Utf8.encode s).length = s.utf8ByteSize := rfl
  -- on the characters, each of which has to fit the room that is left
  induction cs generalizing limit with
  | nil => simp [hlength, clip]
  | cons c cs ih =>
    rw [clip]
    split
    · next hc =>
      rw [hlength, String.ofList_cons, String.utf8ByteSize_append, ← hlength (String.ofList _)]
      have htail := ih (limit - c.utf8Size)
      have hhead : (String.singleton c).utf8ByteSize = c.utf8Size := by simp
      omega
    · simp [hlength]

/-- A reason always fits its length field, cut if it has to be. -/
theorem length_reasonBytes (reason : String) : (reasonBytes reason).length < wordLimit := by
  rw [reasonBytes]
  split
  · next h => exact h
  · have hclip := length_encode_clip (wordLimit - 1) reason.toList
    have hpos : 0 < wordLimit := BigEndian.limit_pos 4
    omega

theorem reads_ack (responder : WorkerId) (id : RequestId) :
    Reads Frame.front (encode (.ack responder id)) (.response (.ack responder id)) := by
  rw [encode, List.append_assoc]
  apply Frame.reads_front
  exact (Reads.word32 responder.val).bind ((Reads.word64 id.val).map _)

/-- A failure with these bytes for its reason. -/
def failedBytes (responder : WorkerId) (id : RequestId) (reason : Bytes) : Bytes :=
  [3] ++ BigEndian.encode 4 responder.val.toNat ++ BigEndian.encode 8 id.val.toNat ++
    BigEndian.encode 4 reason.length ++ reason

/-- A failure is read whatever the bytes of its reason are. -/
theorem reads_failedBytes (responder : WorkerId) (id : RequestId) {reason : Bytes}
    (hlen : reason.length < wordLimit) : Reads Frame.front (failedBytes responder id reason)
      (.response (.failed responder id (Utf8.lossy reason))) := by
  rw [failedBytes, List.append_assoc, List.append_assoc, List.append_assoc]
  apply Frame.reads_front
  have hreason : Reads (do
      let reason ← Decoder.take (← Decoder.lengthPrefix 1)
      return Frame.response (.failed ⟨responder.val⟩ ⟨id.val⟩ (Utf8.lossy reason)))
      (BigEndian.encode 4 reason.length ++ reason)
      (.response (.failed responder id (Utf8.lossy reason))) := by
    have := Reads.prefixed hlen
      (f := fun bytes => pure (Frame.response (.failed responder id (Utf8.lossy bytes))))
      (Reads.pure _)
    rwa [List.append_nil] at this
  exact (Reads.word32 responder.val).bind ((Reads.word64 id.val).bind hreason)

/-- **Responses survive the wire**, up to the wording of a reason. -/
theorem decode_encode (r : ResponseFrame) :
    Frame.decode r.encode = .ok (.response r.received) := by
  apply Frame.decode_of_reads
  cases r with
  | ack responder id => exact reads_ack responder id
  | failed responder id reason => exact reads_failedBytes responder id (length_reasonBytes reason)

end ResponseFrame

end Superstep
