import Superstep.Bytes.Word
import Superstep.Ids
import Superstep.Partition.Kind

/-!
# Errors

Each way in which the library can fail is a cause: a constructor with the data that
explains it. The wording lives in the `message` functions and nowhere else.

Vertex ids appear in causes as the text they are shown with, so that an error says
nothing about the types of a graph.
-/

namespace Superstep

/-- Why encoded data cannot be trusted. -/
inductive Corruption where
  | overread (need remaining : Nat)
  /-- Fewer than four bytes where a length is expected. -/
  | shortWord (held : Nat)
  /-- A length or count that the rest of the input cannot hold. -/
  | lengthExceeds (len remaining : Nat)
  | trailing (what : String) (count : Nat)
  | badBool (byte : UInt8)
  | badString
  /-- A stream ended inside a piece. -/
  | streamEnded (read wanted : Nat)
  /-- A blob declares less than the length of its own length field. -/
  | blobTooSmall (declared : Nat)
  /-- A blob declares another length than it has. -/
  | blobLength (declared held : Nat)
  | duplicateTarget (target : String)
  | unknownRequestType (code : UInt8)
  | unknownFrameTag (tag : UInt8)
  /-- An entry's outer length is less than the length of a blob's length field. -/
  | entryTooSmall (key : String) (outer : Nat)
  | keyMismatch (key embedded : String)
  | duplicateKey (key : String)
  /-- `cause`, found while reading a partition. -/
  | inPartition (id : PartitionId) (cause : Corruption)
  /-- `cause`, quoted with its own heading inside another message. -/
  | quoted (cause : Corruption)
  | other (text : String)
deriving DecidableEq, Inhabited

namespace Corruption

/-- The heading under which a corruption is reported. -/
def heading : String := "corruption detected: "

private def hexDigits (byte : UInt8) : String :=
  let digit (n : Nat) : Char := "0123456789ABCDEF".toList.getD n '0'
  String.ofList [digit (byte.toNat / 16), digit (byte.toNat % 16)]

/-- The wording of a corruption, without its heading. -/
def message : Corruption → String
  | overread need remaining =>
      s!"read past end of buffer: need {need}, remaining {remaining}"
  | shortWord held => s!"u32 needs 4 bytes, have {held}"
  | lengthExceeds len remaining => s!"length prefix {len} exceeds remaining {remaining} bytes"
  | trailing what count => s!"{what}: {count} trailing bytes"
  | badBool byte => "invalid bool byte 0x" ++ hexDigits byte
  | badString => "string is not valid UTF-8"
  | streamEnded read wanted => s!"stream ended after {read} of {wanted} bytes"
  | blobTooSmall declared => s!"blob declares {declared} bytes, smaller than its own prefix"
  | blobLength declared held => s!"blob declares {declared} bytes but holds {held}"
  | duplicateTarget target => s!"duplicate edge target {target}"
  | unknownRequestType code => s!"unknown request type {code.toNat}"
  | unknownFrameTag tag => s!"unknown frame tag {tag.toNat}"
  | entryTooSmall key outer => s!"blob for {key} is {outer} bytes, shorter than its prefix"
  | keyMismatch key embedded => s!"key {key} does not match blob id {embedded}"
  | duplicateKey key => s!"duplicate vertex id {key}"
  | inPartition id cause => s!"partition {id.text}: {cause.message}"
  | quoted cause => heading ++ cause.message
  | other text => text

end Corruption

/-- Why an argument or a setting was refused. -/
inductive InvalidArgument where
  | recordTooLong (bytes : Nat)
  | blobTooLong (bytes : Nat)
  | payloadTooLong (bytes : Nat)
  | tooManyEntries (id : PartitionId)
  | tooManyMessages
  | batchTooLong
  | tooManyParts
  /-- A vertex vanished between the listing of the ids and its turn to be written. -/
  | removedWhileWriting (id : PartitionId) (key : String)
  | notPositive (name : String)
  | belowOne (name : String)
  | other (text : String)
deriving DecidableEq, Inhabited

/-- The wording of a refusal, without its heading. -/
def InvalidArgument.message : InvalidArgument → String
  | recordTooLong bytes => s!"record of {bytes} bytes exceeds u32 framing"
  | blobTooLong bytes => s!"blob of {bytes} bytes exceeds u32 framing"
  | payloadTooLong bytes => s!"request payload of {bytes} bytes exceeds u32 framing"
  | tooManyEntries id => s!"partition {id.text} exceeds u32 entries"
  | tooManyMessages => "too many messages in one request"
  | batchTooLong => "message batch exceeds u32 framing"
  | tooManyParts => "too many partitions in one request"
  | removedWhileWriting id key =>
      s!"partition {id.text}: vertex {key} was removed while the partition was written"
  | notPositive name => s!"{name} must be positive"
  | belowOne name => s!"{name} must be at least 1"
  | other text => text

/-- Why a request was given up. -/
inductive FailureReason where
  /-- Every allowed attempt went without an acknowledgement. -/
  | retriesExhausted (attempts : Nat)
  /-- Connecting to the destination kept failing. -/
  | unreachable (reconnects : Nat)
  /-- The destination reported that it could not apply the request. -/
  | rejected (reason : String)
deriving DecidableEq, Inhabited

def FailureReason.message : FailureReason → String
  | retriesExhausted attempts => s!"no acknowledgement after {attempts} attempts"
  | unreachable reconnects => s!"destination unreachable after {reconnects} reconnects"
  | rejected reason => s!"rejected by destination: {reason}"

/-- A request that was given up. -/
structure DeliveryFailure where
  destination : WorkerId
  request : RequestId
  reason : FailureReason
deriving DecidableEq, Inhabited

def DeliveryFailure.message (failure : DeliveryFailure) : String :=
  s!"request {failure.request.text} to worker {failure.destination.text}: {failure.reason.message}"

/-- The order in which failures are listed: by destination, then by request id. -/
def DeliveryFailure.before (a b : DeliveryFailure) : Bool :=
  a.destination.val < b.destination.val ||
    (a.destination = b.destination && a.request.val ≤ b.request.val)

/-- Every way in which an operation of the library fails. -/
inductive Error where
  /-- The caller's reader or writer failed. -/
  | io (text : String)
  | corruption (cause : Corruption)
  /-- Partitions of two kinds were asked to merge. -/
  | kindMismatch (expected found : PartitionKind)
  | invalidArgument (cause : InvalidArgument)
  | unreachable (worker : WorkerId)
  /-- The connection was closed before a frame could be written. -/
  | connectionClosed
  | deliveryFailed (failures : List DeliveryFailure)
  | shutdown (component : String)
deriving DecidableEq, Inhabited

namespace Error

def message : Error → String
  | io text => s!"I/O error: {text}"
  | corruption cause => Corruption.heading ++ cause.message
  | kindMismatch expected found =>
      s!"cannot merge a {found.name} partition into a {expected.name} partition"
  | invalidArgument cause => s!"invalid argument: {cause.message}"
  | unreachable worker => s!"worker {worker.text} is unreachable"
  | connectionClosed => "connection closed"
  | deliveryFailed failures =>
      let first := (failures.head?.map DeliveryFailure.message).getD "none"
      s!"{failures.length} request(s) permanently failed; first: {first}"
  | shutdown component => s!"{component} is shut down"

/-- Whether the delivery layer recovers from this error on its own. -/
def isTransient : Error → Bool
  | connectionClosed | unreachable _ | io _ => true
  | _ => false

/-- The same error with its failures listed by destination and request id. -/
def sortFailures : Error → Error
  | deliveryFailed failures => deliveryFailed (failures.mergeSort DeliveryFailure.before)
  | error => error

end Error

/-- Treats a corruption as an error of the library. -/
def liftCorruption {α : Type} : Except Corruption α → Except Error α :=
  Except.mapError Error.corruption

end Superstep
