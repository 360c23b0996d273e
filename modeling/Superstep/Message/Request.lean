import Superstep.Message.Batch
import Superstep.Message.Frame
import Superstep.Partition.Writing

/-!
# Requests

The work that one worker asks of another: to hold messages for vertices, or to take over a
partition.
-/

namespace Superstep

/-- One unit of work addressed to another worker. -/
inductive Request (I M : Type) where
  /-- Messages, grouped by partition. -/
  | messages (parts : List (PartitionId × Batch I M))
  /-- A serialized partition. -/
  | partition (bytes : Bytes)

namespace Request

variable {I V E M : Type}

def type : Request I M → RequestType
  | messages _ => .sendWorkerMessages
  | partition _ => .sendPartition

def messageCount : Request I M → Nat
  | messages parts => parts.foldr (fun part n => part.2.count + n) 0
  | partition _ => 0

def describe (r : Request I M) : String :=
  match r with
  | messages parts => r.type.name ++ " \x7b partitions: " ++ toString parts.length ++
      ", messages: " ++ toString r.messageCount ++ " \x7d"
  | partition bytes => r.type.name ++ " \x7b bytes: " ++ toString bytes.length ++ " \x7d"

variable [VertexId I] [Value V] [Value E] [Value M]

def ofPartition (p : Partition I V E) : Except Error (Request I M) :=
  p.toBytes.1.map .partition

/-- The length of the shortest part of a request: a partition id and an empty batch. -/
def minPartLen : Nat := 12

def encodePart (part : PartitionId × Batch I M) : Except Error Bytes := do
  return BigEndian.encode 4 part.1.val.toNat ++ (← part.2.encode)

/-- The encoded request; refused when a count does not fit its field. -/
def encode : Request I M → Except Error Bytes
  | messages parts => do
    if wordLimit ≤ parts.length then throw (.invalidArgument .tooManyParts)
    let encoded ← parts.mapM encodePart
    return BigEndian.encode 4 parts.length ++ encoded.flatten
  | partition bytes => .ok bytes

def decodeParts : (n : Nat) → Decoder (List (PartitionId × Batch I M))
  | 0 => pure []
  | n + 1 => do
    let id ← Decoder.word32
    let batch ← Batch.decode
    let later ← decodeParts n
    return (⟨id⟩, batch) :: later

/-- Reads a request of the given type. Every message in it is checked; a partition is
taken as it is. -/
def decode (type : RequestType) (payload : Bytes) : Except Corruption (Request I M) :=
  match type with
  | .sendWorkerMessages =>
    Decoder.complete (do
      let count ← Decoder.lengthPrefix minPartLen
      return messages (← decodeParts count)) "worker messages" payload
  | .sendPartition => .ok (partition payload)

end Request

end Superstep
