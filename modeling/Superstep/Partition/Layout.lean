import Superstep.Vertex

/-!
# The layout of a serialized partition

A partition is written as its id and its number of entries, then for each vertex its id,
the length of its blob and the blob. The blob says its length once more, and the vertex id
is in its record once more; both repetitions must agree. No id occurs twice, and nothing
follows the last entry.

The layout is self-delimiting: `frame` finds its end on a stream.
-/

namespace Superstep.Layout

variable {I : Type} [VertexId I]

/-- The length of the shortest entry for vertices with values in `V`. -/
def minEntryLen (I V : Type) [VertexId I] [Value V] : Nat :=
  Codec.minLen (α := I) + 4 + Blob.headerLen + Vertex.minLen I V

/-- What stands in front of the entries, in the pieces in which it is written. -/
def header (id : PartitionId) (count : Nat) : List Bytes :=
  [BigEndian.encode 4 id.val.toNat, BigEndian.encode 4 count]

/-- One entry, in the pieces in which it is written. -/
def entryPieces (key : I) (blob : Bytes) : List Bytes :=
  [Codec.encode key, BigEndian.encode 4 blob.length, blob]

/-- Reports the failures of a decoder as found in partition `id`. -/
def located {α : Type} (id : PartitionId) (d : Decoder α) : Decoder α :=
  d.mapError fun cause => .inPartition id (.quoted cause)

/-- Reads the partition id and the number of entries. -/
def readHeader (I V : Type) [VertexId I] [Value V] : Decoder (PartitionId × Nat) := do
  let id : PartitionId := ⟨← Decoder.word32⟩
  let count ← located id (Decoder.lengthPrefix (minEntryLen I V))
  return (id, count)

/-- Reads one entry of partition `id`: its key and its blob, which are checked against
each other. -/
def entry (I : Type) [VertexId I] (id : PartitionId) : Decoder (I × Bytes) := do
  let key : I ← located id Codec.decode
  let outer ← located id (Decoder.word 4)
  if outer < Blob.headerLen then
    Decoder.fail (.inPartition id (.entryTooSmall (VertexId.text key) outer))
  else
    let blob ← located id (Decoder.take outer)
    let record ← located id (Decoder.ofExcept (Blob.body blob))
    let embedded : I ← located id (Decoder.ofExcept (Codec.decode.run record).1)
    if embedded = key then return (key, blob)
    else Decoder.fail (.inPartition id (.keyMismatch (VertexId.text key) (VertexId.text embedded)))

/-- Reads `n` entries of partition `id` behind the staged ones, and the end of the
partition behind them. `accept` makes a record of a blob. Returns the records and how many
of the entries were staged, also when reading failed behind them. -/
def entries {R : Type} (id : PartitionId) (accept : Bytes → Except Error R) :
    (n : Nat) → Table I R → Bytes → Except Error (Table I R) × Nat
  | 0, staged, input =>
    let ended := (located id (Decoder.finish "partition")).run input |>.1
    ((liftCorruption ended).map fun _ => staged, 0)
  | n + 1, staged, input =>
    match (entry I id).run input with
    | (.error e, _) => (.error (.corruption e), 0)
    | (.ok (key, blob), rest) =>
      if staged.contains key then
        (.error (.corruption (.inPartition id (.duplicateKey (VertexId.text key)))), 0)
      else
        match accept blob with
        | .error e => (.error e, 0)
        | .ok record =>
          let (result, signals) := entries id accept n (staged.insert key record) rest
          (result, signals + 1)

/-- Reads exactly one partition. Returns its id and its records, and how many entries were
staged. -/
def read {R : Type} (I V : Type) [VertexId I] [Value V] (accept : Bytes → Except Error R)
    (bytes : Bytes) : Except Error (PartitionId × Table I R) × Nat :=
  match (readHeader I V).run bytes with
  | (.error e, _) => (.error (.corruption e), 0)
  | (.ok (id, count), rest) =>
    let (result, signals) := entries id accept count .empty rest
    (result.map fun table => (id, table), signals)

/-! ## By lengths alone -/

/-- Reads one entry without a look into its blob. -/
def outerEntry (I : Type) [VertexId I] : Decoder (I × Bytes) := do
  let key : I ← Codec.decode
  let outer ← Decoder.word 4
  return (key, ← Decoder.take outer)

/-- The entries of a serialized partition, as far as they can be told apart. -/
def outerEntries (I : Type) [VertexId I] (bytes : Bytes) : List (I × Bytes) :=
  (outerEntry I).scan (BigEndian.decode ((bytes.drop 4).take 4)) (bytes.drop 8)

/-! ## On a stream -/

/-- Reports corruption as found in partition `id`. -/
def framingError (id : PartitionId) : Error → Error
  | .corruption cause => .corruption (.inPartition id cause)
  | error => error

/-- Copies one entry off a stream by its lengths alone. -/
def copyEntry (I : Type) [VertexId I] : Copier Unit := do
  Codec.copy (α := I)
  let outer ← Copier.word32
  let _ ← Copier.exact outer

/-- Copies one partition off a stream by its lengths alone, and nothing behind it. -/
def copyPartition (I : Type) [VertexId I] : Copier Unit := do
  let head ← Copier.exact 8
  let id : PartitionId := ⟨UInt32.ofNat (BigEndian.decode (head.take 4))⟩
  let count := BigEndian.decode (head.drop 4)
  Copier.mapError (framingError id) (Copier.times (copyEntry I) count)

/-- Takes the bytes of one partition off a stream. -/
def frame (I : Type) [VertexId I] (source : Source) : Except Error Bytes × Source :=
  let (result, state) := (copyPartition I).run ⟨source, []⟩
  (result.map fun _ => state.out, state.source)

end Superstep.Layout
