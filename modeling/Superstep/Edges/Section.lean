import Superstep.Codec.Basic
import Superstep.Table

/-!
# Edge sections

The encoded form of a vertex's edges, shared by all representations: a 32-bit count, then
for each edge its target and its value. Targets are pairwise distinct.
-/

namespace Superstep.Section

variable {I E : Type} [VertexId I] [Value E]

def pairMinLen (I E : Type) [VertexId I] [Value E] : Nat :=
  Codec.minLen (α := I) + Codec.minLen (α := E)

def encodePair (edge : I × E) : Bytes := Codec.encode edge.1 ++ Codec.encode edge.2

/-- The encoded form of some edges, without their count. -/
def encodePairs (edges : List (I × E)) : Bytes := edges.flatMap encodePair

def encode (edges : List (I × E)) : Bytes :=
  BigEndian.encode 4 edges.length ++ encodePairs edges

def pair : Decoder (I × E) := do
  let target ← Codec.decode
  let value ← Codec.decode
  return (target, value)

/-- Reads the count of a section of edges from `I` to `E`. -/
def count (I E : Type) [VertexId I] [Value E] : Decoder Nat :=
  Decoder.lengthPrefix (pairMinLen I E)

/-- Reads `n` edges into `table`, which must not have any of their targets yet. Returns
the outcome, the table with the edges read before a failure, and the bytes that are
left. -/
def gather : (n : Nat) → Table I E → Bytes → Refill (Table I E)
  | 0, table, input => ⟨.ok (), table, input⟩
  | n + 1, table, input =>
    match (pair (I := I) (E := E)).run input with
    | (.error e, rest) => ⟨.error e, table, rest⟩
    | (.ok (target, value), rest) =>
      if table.contains target then
        ⟨.error (.duplicateTarget (VertexId.text target)), table, rest⟩
      else gather n (table.insert target value) rest

/-- Reads `n` edges whatever their targets. Returns the outcome, the edges read before a
failure, and the bytes that are left. -/
def collect : (n : Nat) → Bytes → Refill (List (I × E))
  | 0, input => ⟨.ok (), [], input⟩
  | n + 1, input =>
    match (pair (I := I) (E := E)).run input with
    | (.error e, rest) => ⟨.error e, [], rest⟩
    | (.ok edge, rest) =>
      let later := collect n rest
      { later with target := edge :: later.target }

/-- The edges at the front of `input`, `n` at the most, up to the first that cannot be
read. -/
def scan (n : Nat) (input : Bytes) : List (I × E) := pair.scan n input

def copy (I E : Type) [VertexId I] [Value E] : Copier Unit := do
  let n ← Copier.word32
  Copier.times (do Codec.copy (α := I); Codec.copy (α := E)) n

end Superstep.Section
