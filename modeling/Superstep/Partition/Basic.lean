import Superstep.Bytes.Sink
import Superstep.Config
import Superstep.Partition.Layout
import Superstep.Partition.Records

/-!
# Partitions

A partition is one disjoint shard of the vertex set. It answers lookups through a scratch
vertex that every lookup overwrites, so that walking a large partition reuses one vertex.
Partitions of both kinds have the same operations and the same serialized layout.

Long operations give a signal for each vertex, by which an observer sees that they go on.
-/

namespace Superstep

/-- What belongs to a partition alone, beside the records that it may share with
writers. -/
structure Desk (I V E : Type) where
  id : PartitionId
  /-- The vertex that lookups overwrite. -/
  scratch : Vertex I V E
  strategy : EdgeStrategy
  /-- Signals given to the observer so far. -/
  signals : Nat

/-- A partition of either kind. -/
structure Partition (I V E : Type) extends Desk I V E where
  records : Records I V E

namespace Partition

variable {I V E : Type} [VertexId I] [Value V] [Value E]

def new (id : PartitionId) (config : PartitionConfig) : Partition I V E where
  id
  scratch := .blank config.edgeStrategy
  strategy := config.edgeStrategy
  signals := 0
  records := .empty config.kind

/-- Creates an empty partition, whose records lie in a map of as many shards as the
configuration asks for. `makes` says of how many shards such a map can be made. -/
def create? (makes : UInt64 → Bool) (id : PartitionId) (config : PartitionConfig) :
    Option (Partition I V E) :=
  if makes config.shardAmount then some (new id config) else none

def kind (p : Partition I V E) : PartitionKind := p.records.kind

def size (p : Partition I V E) : Nat := p.records.size

def ids (p : Partition I V E) : List I := p.records.ids

def contains (p : Partition I V E) (id : I) : Bool := p.records.contains id

/-- Starts counting signals anew, for a new observer. -/
def observe (p : Partition I V E) : Partition I V E := { p with signals := 0 }

/-! ## Vertices -/

/-- Brings a record, if there is one, into the scratch vertex, and says whether there
was. -/
def bring (p : Partition I V E) (record : Option (Record I V E)) :
    Except Error Bool × Partition I V E :=
  match record with
  | none => (.ok false, p)
  | some r =>
    let (outcome, scratch) := r.load p.scratch
    ((liftCorruption outcome).map fun _ => true, { p with scratch })

/-- The scratch vertex as an answer, if there is one. -/
def answer (result : Except Error Bool × Partition I V E) :
    Except Error (Option (Vertex I V E)) × Partition I V E :=
  (result.1.map fun present => if present then some result.2.scratch else none, result.2)

/-- Brings vertex `id` into the scratch vertex, and says whether it is present. -/
def load (p : Partition I V E) (id : I) : Except Error Bool × Partition I V E :=
  p.bring (p.records.get? id)

def get (p : Partition I V E) (id : I) :
    Except Error (Option (Vertex I V E)) × Partition I V E :=
  answer (p.load id)

/-- Stores `v` and returns the vertex that had its id before. When that vertex cannot be
decoded, `v` is stored all the same. -/
def put (p : Partition I V E) (v : Vertex I V E) :
    Except Error (Option (Vertex I V E)) × Partition I V E :=
  match p.records.put v with
  | .error e => (.error e, p)
  | .ok records => answer (bring { p with records } (p.records.get? v.id))

/-- Removes vertex `id` and returns it. When it cannot be decoded, it is removed all the
same. -/
def remove (p : Partition I V E) (id : I) :
    Except Error (Option (Vertex I V E)) × Partition I V E :=
  answer (bring { p with records := p.records.remove id } (p.records.get? id))

/-- Writes `v` back over the record of its id. -/
def save (p : Partition I V E) (v : Vertex I V E) : Except Error Unit × Partition I V E :=
  let (result, records) := p.records.save v
  (result, { p with records })

/-- The number of edges in `records`, read through `scratch`. -/
def countEdges : List (Record I V E) → Vertex I V E → Except Error Nat × Vertex I V E
  | [], scratch => (.ok 0, scratch)
  | .vertex v :: rest, scratch =>
    let (result, scratch) := countEdges rest scratch
    (result.map (v.edges.count + ·), scratch)
  | .blob bytes :: rest, scratch =>
    match Blob.decodeInto scratch bytes with
    | (.error e, scratch) => (.error (.corruption e), scratch)
    | (.ok _, scratch) =>
      let (result, last) := countEdges rest scratch
      (result.map (scratch.edges.count + ·), last)

def edgeCount (p : Partition I V E) : Except Error Nat × Partition I V E :=
  let (result, scratch) := countEdges p.records.toList p.scratch
  (result, { p with scratch })

/-! ## Merging -/

/-- Takes over every vertex of `other`, which wins where both have an id. -/
def merge (p other : Partition I V E) : Except Error Unit × Partition I V E :=
  match p.records.merge other.records with
  | .ok records => (.ok (), { p with records })
  | .error e => (.error e, p)

/-! ## Reading -/

/-- Makes a decoded record of a blob. -/
def decodeRecord (strategy : EdgeStrategy) (blob : Bytes) : Except Error (Vertex I V E) :=
  let (outcome, v) := Blob.decodeInto (Vertex.blank strategy) blob
  (liftCorruption outcome).map fun _ => v

/-- The id and the records in a serialized partition, and the number of entries that were
staged. -/
def readRecords (kind : PartitionKind) (strategy : EdgeStrategy) (bytes : Bytes) :
    Except Error (PartitionId × Records I V E) × Nat :=
  match kind with
  | .byteArray =>
    let (result, signals) := Layout.read I V (fun blob => .ok blob) bytes
    (result.map fun (id, table) => (id, .blobs table), signals)
  | .simple =>
    let (result, signals) := Layout.read I V (decodeRecord strategy) bytes
    (result.map fun (id, table) => (id, .vertices table), signals)

/-- Replaces id and contents by those of a serialized partition. When that cannot be read,
nothing changes but the signals given on the way. -/
def readBytes (p : Partition I V E) (bytes : Bytes) : Except Error Unit × Partition I V E :=
  let (result, staged) := readRecords (I := I) (V := V) (E := E) p.kind p.strategy bytes
  let p := { p with signals := p.signals + staged }
  match result with
  | .ok (id, records) => (.ok (), { p with id, records })
  | .error e => (.error e, p)

/-- Replaces id and contents by those of the next serialized partition on a stream, and
leaves what follows it unread. -/
def readFrom (p : Partition I V E) (source : Source) :
    Except Error Unit × Partition I V E × Source :=
  match Layout.frame I source with
  | (.error e, source) => (.error e, p, source)
  | (.ok bytes, source) =>
    let (result, p) := p.readBytes bytes
    (result, p, source)

/-- The partition of the configured kind that `bytes` hold. -/
def ofBytes (bytes : Bytes) (config : PartitionConfig) : Except Error (Partition I V E) :=
  let (result, p) := (new default config : Partition I V E).readBytes bytes
  result.map fun _ => p

/-- The name with which descriptions of a partition begin. -/
def kindName : PartitionKind → String
  | .byteArray => "ByteArrayPartition"
  | .simple => "SimplePartition"

def describe (p : Partition I V E) : String :=
  kindName p.kind ++ " \x7b id: " ++ p.id.describe ++ ", vertices: " ++ toString p.size ++
    ", edge_strategy: " ++ p.strategy.describe ++ " \x7d"

end Partition

end Superstep
