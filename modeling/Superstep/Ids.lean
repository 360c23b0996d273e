/-!
# Identifiers

Partitions and workers are numbered by 32-bit words, requests and connections by
64-bit words. Request ids count up from zero separately for each pair of sender and
destination.
-/

namespace Superstep

/-- Names one disjoint shard of the vertex set. -/
structure PartitionId where
  val : UInt32
deriving DecidableEq, Inhabited

/-- Names a worker taking part in the computation. -/
structure WorkerId where
  val : UInt32
deriving DecidableEq, Inhabited

/-- Names a request among those of one sender to one destination. -/
structure RequestId where
  val : UInt64
deriving DecidableEq, Inhabited

/-- Names one physical connection. -/
structure ConnectionId where
  val : UInt64
deriving DecidableEq, Inhabited

/-- Partition, worker and request ids are shown as plain decimal numbers. -/
def PartitionId.text (id : PartitionId) : String := toString id.val.toNat

@[inherit_doc PartitionId.text]
def WorkerId.text (id : WorkerId) : String := toString id.val.toNat

@[inherit_doc PartitionId.text]
def RequestId.text (id : RequestId) : String := toString id.val.toNat

/-- Connection ids are shown with a leading word, as in `conn-7`. -/
def ConnectionId.text (id : ConnectionId) : String := "conn-" ++ toString id.val.toNat

/-- The wrapped form of a partition id that descriptions of a partition contain. -/
def PartitionId.describe (id : PartitionId) : String := "PartitionId(" ++ id.text ++ ")"

@[inherit_doc PartitionId.describe]
def RequestId.describe (id : RequestId) : String := "RequestId(" ++ id.text ++ ")"

/-- The id that follows this one. -/
def RequestId.next (id : RequestId) : RequestId := ⟨id.val + 1⟩

end Superstep
