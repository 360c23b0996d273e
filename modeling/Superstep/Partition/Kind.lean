/-!
# Partition kinds

The name of the representation a partition uses for its vertices.
-/

namespace Superstep

/-- Which representation holds the vertices of a shard. -/
inductive PartitionKind where
  /-- Vertices kept as serialized blobs. -/
  | byteArray
  | simple
deriving DecidableEq, Inhabited

/-- The short name used in messages. -/
def PartitionKind.name : PartitionKind → String
  | byteArray => "byte-array"
  | simple => "simple"

/-- The spelling used in configurations. -/
def PartitionKind.setting : PartitionKind → String
  | byteArray => "byte_array"
  | simple => "simple"

/-- Reads the spelling used in configurations. -/
def PartitionKind.ofSetting? (s : String) : Option PartitionKind :=
  [byteArray, simple].find? fun kind => kind.setting == s

end Superstep
