import Superstep.Message.Store

/-!
# Calls of message stores

The calls that change a store of incoming messages, as data. A store is `reached` from the empty one
by a sequence of them.
-/

namespace Superstep.MessageStore

inductive Call (I M : Type) where
  | add (partition : PartitionId) (vertex : I) (message : M)
  | addBatch (partition : PartitionId) (batch : Batch I M)
  /-- Takes the messages of a vertex out. -/
  | take (partition : PartitionId) (vertex : I)
  | clearPartition (partition : PartitionId)
  | clear

variable {I M : Type} [VertexId I] [Value M]

def perform (s : MessageStore I M) : Call I M → MessageStore I M
  | .add partition vertex message => s.add partition vertex message
  | .addBatch partition batch => s.addBatch partition batch
  | .take partition vertex => (s.take partition vertex).2
  | .clearPartition partition => s.clearPartition partition
  | .clear => s.clear

/-- The store after these calls, when it was empty before. -/
def reached (calls : List (Call I M)) : MessageStore I M := calls.foldl perform empty

end Superstep.MessageStore
