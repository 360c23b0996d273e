import Superstep.Codec.Basic

/-!
# Message batches

Messages for vertices, packed as pairs of vertex id and message into one byte string. A
batch is written as the number of its messages, the length of the pairs and the pairs.
-/

namespace Superstep

/-- Packed messages of type `M` for vertices with ids in `I`. -/
structure Batch (I M : Type) where
  count : Nat
  bytes : Bytes

/-- What is still to be read of a batch. -/
structure Batch.Unread where
  count : Nat
  bytes : Bytes

namespace Batch

variable {I M : Type}

def empty : Batch I M := ⟨0, []⟩

instance : Inhabited (Batch I M) := ⟨empty⟩

def isEmpty (b : Batch I M) : Bool := b.count = 0

def unread (b : Batch I M) : Unread := ⟨b.count, b.bytes⟩

/-- Bounds on the number of messages still to be read. Only the upper one is promised. -/
def Unread.sizeHint (u : Unread) : Nat × Nat := (0, u.count)

def describe (b : Batch I M) : String :=
  "VertexIdMessages \x7b count: " ++ toString b.count ++ ", bytes: " ++ toString b.bytes.length ++
    " \x7d"

variable [VertexId I] [Value M]

def pair : Decoder (I × M) := do
  let id ← Codec.decode
  let message ← Codec.decode
  return (id, message)

def add (b : Batch I M) (id : I) (message : M) : Batch I M :=
  ⟨b.count + 1, b.bytes ++ Codec.encode id ++ Codec.encode message⟩

def ofList (pairs : List (I × M)) : Batch I M :=
  pairs.foldl (fun b p => b.add p.1 p.2) empty

/-- Reads the next message; a pair that cannot be read ends the batch. -/
def Unread.next (u : Unread) : Option (I × M) × Unread :=
  match u.count with
  | 0 => (none, u)
  | n + 1 =>
    match (pair (I := I) (M := M)).run u.bytes with
    | (.ok p, rest) => (some p, ⟨n, rest⟩)
    | (.error _, rest) => (none, ⟨0, rest⟩)

def toList (b : Batch I M) : List (I × M) := pair.scan b.count b.bytes

/-- The encoded batch; refused when a length does not fit its field. -/
def encode (b : Batch I M) : Except Error Bytes :=
  if wordLimit ≤ b.count then .error (.invalidArgument .tooManyMessages)
  else if wordLimit ≤ b.bytes.length then .error (.invalidArgument .batchTooLong)
  else .ok (BigEndian.encode 4 b.count ++ BigEndian.encode 4 b.bytes.length ++ b.bytes)

/-- Checks that `bytes` are exactly `count` encoded pairs. -/
def check (I M : Type) [VertexId I] [Value M] (count : Nat) : Decoder Unit := do
  (pair (I := I) (M := M)).skip count
  Decoder.finish "vertex messages"

/-- Reads a batch and checks every pair in it. -/
def decode : Decoder (Batch I M) := do
  let count ← Decoder.word 4
  let len ← Decoder.lengthPrefix 1
  let bytes ← Decoder.take len
  Decoder.ofExcept ((check I M count).run bytes).1
  return ⟨count, bytes⟩

end Batch

end Superstep
