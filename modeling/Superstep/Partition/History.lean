import Superstep.Partition.Writing

/-!
# Histories of partitions

A history says how a partition came to be: it was made empty, and then calls were made of it or
of its writers, another partition was merged into it, or its contents were replaced by those of
another. The other partition has a history of its own. `History.run` carries a history out with
partitions of one kind and returns everything that was answered on the way.
-/

namespace Superstep

/-- A call of a partition or of one of its writers. -/
inductive Call (I V E : Type) where
  | put (v : Vertex I V E)
  | remove (id : I)
  /-- Writes a vertex back over the record of its id. -/
  | save (v : Vertex I V E)
  | get (id : I)
  /-- Brings a vertex into the scratch vertex. -/
  | load (id : I)
  | contains (id : I)
  | ids
  | size
  | edgeCount
  | edit (e : Edit I V E)

/-- The vertex that a call stores. -/
def Call.stored? {I V E : Type} : Call I V E → Option (Vertex I V E)
  | put v => some v
  | save v => some v
  | edit (.put v) => some v
  | edit (.save v) => some v
  | _ => none

inductive Returned (I V E : Type) where
  | vertex (found : Option (Vertex I V E))
  | flag (present : Bool)
  /-- Ids, in any order. -/
  | ids (ids : List I)
  | number (n : Nat)
  | done

/-- How a partition came to be. -/
inductive History (I V E : Type) where
  | new (id : PartitionId) (config : PartitionConfig)
  | call (before : History I V E) (c : Call I V E)
  /-- Another partition of its kind was merged into it. -/
  | merge (before other : History I V E)
  /-- It was replaced by a serialized copy of another partition, which may be of the other kind. -/
  | replace (before other : History I V E) (kind : PartitionKind)

variable {I V E : Type} [VertexId I] [Value V] [Value E]

namespace Partition

/-- Lets a writer make an edit. A writer says whether the id had a record before, but not when
it saves. -/
def edit (p : Partition I V E) (e : Edit I V E) :
    Except Error (Returned I V E) × Partition I V E :=
  let (result, records) := p.records.edit e
  let reply (present : Bool) : Returned I V E :=
    match e with
    | .save _ => .done
    | _ => .flag present
  (result.map reply, { p with records })

def perform (p : Partition I V E) : Call I V E → Except Error (Returned I V E) × Partition I V E
  | .put v => ((p.put v).1.map .vertex, (p.put v).2)
  | .remove id => ((p.remove id).1.map .vertex, (p.remove id).2)
  | .save v => ((p.save v).1.map fun _ => .done, (p.save v).2)
  | .get id => ((p.get id).1.map .vertex, (p.get id).2)
  | .load id => ((p.load id).1.map .flag, (p.load id).2)
  | .contains id => (.ok (.flag (p.contains id)), p)
  | .ids => (.ok (.ids p.ids), p)
  | .size => (.ok (.number p.size), p)
  | .edgeCount => (p.edgeCount.1.map .number, p.edgeCount.2)
  | .edit e => p.edit e

/-- Replaces id and contents by those of `other`, by way of its serialized copy. -/
def replace (p other : Partition I V E) : Except Error Unit × Partition I V E :=
  match other.toBytes.1 with
  | .error e => (.error e, p)
  | .ok bytes => p.readBytes bytes

end Partition

namespace History

/-- Carries the history out with partitions of this kind. Returns every answer, and the
partition that came to be. -/
def run (kind : PartitionKind) :
    History I V E → List (Except Error (Returned I V E)) × Partition I V E
  | new id config => ([], .new id { config with kind })
  | call before c =>
    let (answers, p) := before.run kind
    let (answer, p) := p.perform c
    (answers ++ [answer], p)
  | merge before other =>
    let (answers, p) := before.run kind
    let (otherAnswers, q) := other.run kind
    let (result, p) := p.merge q
    (answers ++ otherAnswers ++ [result.map fun _ => .done], p)
  | replace before other otherKind =>
    let (answers, p) := before.run kind
    let (otherAnswers, q) := other.run otherKind
    let (result, p) := p.replace q
    (answers ++ otherAnswers ++ [result.map fun _ => .done], p)

end History

end Superstep
