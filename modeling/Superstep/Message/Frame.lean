import Superstep.Bytes.Decoder
import Superstep.Text.Utf8

/-!
# Frames

What travels on a connection: requests one way, and for each an acknowledgement or a
failure the other way. A frame begins with a byte that says which it is:

* 1, sender, request id, request type, payload length, payload;
* 2, responder, request id;
* 3, responder, request id, reason length, reason.

A request frame is encoded once and sent again byte for byte.
-/

namespace Superstep

/-- What a request asks for. -/
inductive RequestType where
  /-- To hold messages for vertices. -/
  | sendWorkerMessages
  /-- To take over a serialized partition. -/
  | sendPartition
deriving DecidableEq, Inhabited

namespace RequestType

def code : RequestType → UInt8
  | sendWorkerMessages => 1
  | sendPartition => 2

def ofCode (code : UInt8) : Except Corruption RequestType :=
  if code = 1 then .ok sendWorkerMessages
  else if code = 2 then .ok sendPartition
  else .error (.unknownRequestType code)

def name : RequestType → String
  | sendWorkerMessages => "SendWorkerMessages"
  | sendPartition => "SendPartition"

end RequestType

/-- A request on its way. -/
structure RequestFrame where
  sender : WorkerId
  /-- Id the sender gave the request for this destination. -/
  id : RequestId
  type : RequestType
  payload : Bytes
deriving DecidableEq

/-- The answer to one request. -/
inductive ResponseFrame where
  /-- The request is on record at the responder. -/
  | ack (responder : WorkerId) (id : RequestId)
  /-- The request could not be applied and will not be tried again. -/
  | failed (responder : WorkerId) (id : RequestId) (reason : String)
deriving DecidableEq

/-- Anything that travels on a connection. -/
inductive Frame where
  | request (frame : RequestFrame)
  | response (frame : ResponseFrame)
deriving DecidableEq

namespace RequestFrame

/-- The encoded frame; refused when the payload is too long for its length field. -/
def encode (f : RequestFrame) : Except Error Bytes :=
  if f.payload.length < wordLimit then
    .ok <| [1] ++ BigEndian.encode 4 f.sender.val.toNat ++ BigEndian.encode 8 f.id.val.toNat ++
      [f.type.code] ++ BigEndian.encode 4 f.payload.length ++ f.payload
  else .error (.invalidArgument (.payloadTooLong f.payload.length))

end RequestFrame

namespace ResponseFrame

def responder : ResponseFrame → WorkerId
  | ack responder _ => responder
  | failed responder _ _ => responder

def id : ResponseFrame → RequestId
  | ack _ id => id
  | failed _ id _ => id

/-- The longest prefix of whole characters that takes at most `limit` bytes. -/
def clip (limit : Nat) : List Char → List Char
  | [] => []
  | c :: cs => if c.utf8Size ≤ limit then c :: clip (limit - c.utf8Size) cs else []

/-- The UTF-8 form of a reason, cut between characters where it is too long for its
length field. -/
def reasonBytes (reason : String) : Bytes :=
  let bytes := Utf8.encode reason
  if bytes.length < wordLimit then bytes
  else Utf8.encode (String.ofList (clip (wordLimit - 1) reason.toList))

def encode : ResponseFrame → Bytes
  | ack responder id =>
    [2] ++ BigEndian.encode 4 responder.val.toNat ++ BigEndian.encode 8 id.val.toNat
  | failed responder id reason =>
    [3] ++ BigEndian.encode 4 responder.val.toNat ++ BigEndian.encode 8 id.val.toNat ++
      BigEndian.encode 4 (reasonBytes reason).length ++ reasonBytes reason

end ResponseFrame

namespace Frame

def fields (tag : UInt8) : Decoder Frame :=
  if tag = 1 then do
    let sender ← Decoder.word32
    let id ← Decoder.word64
    let type ← Decoder.ofExcept (RequestType.ofCode (← Decoder.byte))
    let len ← Decoder.lengthPrefix 1
    let payload ← Decoder.take len
    return .request { sender := ⟨sender⟩, id := ⟨id⟩, type, payload }
  else if tag = 2 then do
    let responder ← Decoder.word32
    let id ← Decoder.word64
    return .response (.ack ⟨responder⟩ ⟨id⟩)
  else if tag = 3 then do
    let responder ← Decoder.word32
    let id ← Decoder.word64
    let len ← Decoder.lengthPrefix 1
    let reason ← Decoder.take len
    return .response (.failed ⟨responder⟩ ⟨id⟩ (Utf8.lossy reason))
  else Decoder.fail (.unknownFrameTag tag)

/-- Reads exactly one frame. A reason that is not well-formed is read with replacement
characters. -/
def decode (bytes : Bytes) : Except Corruption Frame :=
  Decoder.complete (do fields (← Decoder.byte)) "frame" bytes

end Frame

end Superstep
