/-!
# Edge strategies

The name of the representation a vertex uses for its outgoing edges.
-/

namespace Superstep

/-- Which in-memory representation a vertex uses for its edges. -/
inductive EdgeStrategy where
  | hashed
  | sorted
  /-- The encoded bytes, turned into a list by the first mutation. -/
  | lazy
deriving DecidableEq, Inhabited

/-- The short name, also the spelling in configurations. -/
def EdgeStrategy.name : EdgeStrategy → String
  | hashed => "hashed"
  | sorted => "sorted"
  | lazy => "lazy"

/-- The capitalised name that descriptions of a partition contain. -/
def EdgeStrategy.describe : EdgeStrategy → String
  | hashed => "Hashed"
  | sorted => "Sorted"
  | lazy => "Lazy"

/-- Reads the spelling used in configurations. -/
def EdgeStrategy.ofName? (s : String) : Option EdgeStrategy :=
  [hashed, sorted, lazy].find? fun strategy => strategy.name == s

end Superstep
