import Superstep.Message.Batch
import Superstep.Table

/-!
# The message store

Messages that arrived for a worker's vertices, by partition and vertex. The messages of a
vertex are to be taken as a multiset: their order says nothing.
-/

namespace Superstep

/-- Incoming messages by partition and vertex. -/
structure MessageStore (I M : Type) where
  /-- The messages, oldest first. A vertex that is listed has at least one. -/
  partitions : Table PartitionId (Table I (List M))

namespace MessageStore

variable {I M : Type}

def empty : MessageStore I M := ⟨.empty⟩

instance : Inhabited (MessageStore I M) := ⟨empty⟩

def inboxes (s : MessageStore I M) (partition : PartitionId) : Table I (List M) :=
  (s.partitions.get? partition).getD .empty

/-- The vertices of a partition that have messages. -/
def partitionDestinations (s : MessageStore I M) (partition : PartitionId) : List I :=
  (s.inboxes partition).keys

/-- The vertices that have messages, partition by partition. -/
def destinations (s : MessageStore I M) : List I :=
  s.partitions.values.flatMap Table.keys

/-- The number of messages in the inboxes of one partition. -/
def held (inboxes : Table I (List M)) : Nat :=
  inboxes.values.foldr (fun inbox n => inbox.length + n) 0

def count (s : MessageStore I M) : Nat :=
  s.partitions.values.foldr (fun inboxes n => held inboxes + n) 0

def clearPartition (s : MessageStore I M) (partition : PartitionId) : MessageStore I M :=
  ⟨s.partitions.erase partition⟩

def clear (_ : MessageStore I M) : MessageStore I M := empty

variable [VertexId I] [Value M]

def deliver (inboxes : Table I (List M)) (vertex : I) (message : M) : Table I (List M) :=
  inboxes.insert vertex ((inboxes.get? vertex).getD [] ++ [message])

def add (s : MessageStore I M) (partition : PartitionId) (vertex : I) (message : M) :
    MessageStore I M :=
  ⟨s.partitions.insert partition (deliver (s.inboxes partition) vertex message)⟩

def addBatch (s : MessageStore I M) (partition : PartitionId) (batch : Batch I M) :
    MessageStore I M :=
  ⟨s.partitions.insert partition
    (batch.toList.foldl (fun inboxes p => deliver inboxes p.1 p.2) (s.inboxes partition))⟩

/-- The messages for a vertex, from every partition. -/
def vertexMessages (s : MessageStore I M) (vertex : I) : List M :=
  s.partitions.values.flatMap fun inboxes => (inboxes.get? vertex).getD []

def take (s : MessageStore I M) (partition : PartitionId) (vertex : I) :
    List M × MessageStore I M :=
  match s.partitions.get? partition with
  | none => ([], s)
  | some inboxes =>
    ((inboxes.get? vertex).getD [], ⟨s.partitions.insert partition (inboxes.erase vertex)⟩)

end MessageStore

end Superstep
