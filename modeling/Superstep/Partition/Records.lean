import Superstep.Partition.Kind
import Superstep.Vertex

/-!
# Vertex records

The contents of a partition: a map from vertex ids to records, which are blobs in one kind
of partition and decoded vertices in the other. Several writers may share one such map.
-/

namespace Superstep

/-- One record of a partition. -/
inductive Record (I V E : Type) where
  /-- A vertex kept as its blob. -/
  | blob (bytes : Bytes)
  | vertex (v : Vertex I V E)

/-- The records of a partition, all of one kind. -/
inductive Records (I V E : Type) where
  /-- Vertices kept as blobs. -/
  | blobs (table : Table I Bytes)
  | vertices (table : Table I (Vertex I V E))

/-- What a writer does to the records it shares with a partition. -/
inductive Edit (I V E : Type) where
  | put (v : Vertex I V E)
  | remove (id : I)
  /-- Writes a vertex back over the record of its id. -/
  | save (v : Vertex I V E)

variable {I V E : Type} [VertexId I] [Value V] [Value E]

namespace Record

/-- Brings the record into `scratch`: a blob is decoded over it, a decoded vertex replaces
it. -/
def load (r : Record I V E) (scratch : Vertex I V E) : Except Corruption Unit × Vertex I V E :=
  match r with
  | blob bytes => Blob.decodeInto scratch bytes
  | vertex v => (.ok (), v)

def toBlob : Record I V E → Except Error Bytes
  | blob bytes => .ok bytes
  | vertex v => Blob.encode v

end Record

namespace Records

def empty : PartitionKind → Records I V E
  | .byteArray => blobs .empty
  | .simple => vertices .empty

def kind : Records I V E → PartitionKind
  | blobs _ => .byteArray
  | vertices _ => .simple

def size : Records I V E → Nat
  | blobs table => table.size
  | vertices table => table.size

def ids : Records I V E → List I
  | blobs table => table.keys
  | vertices table => table.keys

def contains : Records I V E → I → Bool
  | blobs table, id => table.contains id
  | vertices table, id => table.contains id

def get? : Records I V E → I → Option (Record I V E)
  | blobs table, id => (table.get? id).map .blob
  | vertices table, id => (table.get? id).map .vertex

def toList : Records I V E → List (Record I V E)
  | blobs table => table.values.map .blob
  | vertices table => table.values.map .vertex

def remove : Records I V E → I → Records I V E
  | blobs table, id => blobs (table.erase id)
  | vertices table, id => vertices (table.erase id)

def put (r : Records I V E) (v : Vertex I V E) : Except Error (Records I V E) :=
  match r with
  | blobs table => do return blobs (table.insert v.id (← Blob.encode v))
  | vertices table => return vertices (table.insert v.id v)

/-- Writes `v` back under its id, over the record that is there. A blob that is there is
overwritten also when that fails. -/
def save (r : Records I V E) (v : Vertex I V E) : Except Error Unit × Records I V E :=
  match r with
  | blobs table =>
    match table.get? v.id with
    | some old =>
      let (result, blob) := Blob.overwrite old v
      (result, blobs (table.insert v.id blob))
    | none =>
      match Blob.encode v with
      | .ok blob => (.ok (), blobs (table.insert v.id blob))
      | .error e => (.error e, r)
  | vertices table => (.ok (), vertices (table.insert v.id v))

/-- Carries out an edit; also says whether the id had a record before. -/
def edit (r : Records I V E) : Edit I V E → Except Error Bool × Records I V E
  | .put v =>
    match r.put v with
    | .ok next => (.ok (r.contains v.id), next)
    | .error e => (.error e, r)
  | .remove id => (.ok (r.contains id), r.remove id)
  | .save v =>
    let (result, next) := r.save v
    (result.map fun _ => r.contains v.id, next)

def editAll (r : Records I V E) (edits : List (Edit I V E)) : Records I V E :=
  edits.foldl (fun r e => (r.edit e).2) r

/-- Adds the records of `other`, which win where both have an id. Records of different
kinds do not mix. -/
def merge (r other : Records I V E) : Except Error (Records I V E) :=
  match r, other with
  | blobs mine, blobs theirs => .ok (blobs (mine.union theirs))
  | vertices mine, vertices theirs => .ok (vertices (mine.union theirs))
  | _, _ => .error (.kindMismatch r.kind other.kind)

/-- The blob of `id`, where records are blobs; none when `id` is absent. -/
def blob? : Records I V E → I → Option (Option Bytes)
  | blobs table, id => some (table.get? id)
  | vertices _, _ => none

/-- The number of bytes in all blobs, where records are blobs. -/
def blobBytes : Records I V E → Option Nat
  | blobs table => some (table.values.foldr (fun blob n => blob.length + n) 0)
  | vertices _ => none

end Records

end Superstep
