import Superstep.Ids

/-!
# Compact sets of request ids

Ids are handed out in order and arrive almost in order, so a set of them is kept as a
floor, below which every id is present, and the ids above it in ascending order. Its size
is that of the gaps, not that of the set.
-/

namespace Superstep

/-- A set of request ids. -/
structure SeenIds where
  /-- Every id below this one is present. -/
  floor : UInt64
  /-- The ids present at or above the floor, ascending. -/
  above : List UInt64
deriving DecidableEq, Inhabited

namespace SeenIds

def empty : SeenIds := ⟨0, []⟩

def contains (s : SeenIds) (id : RequestId) : Bool :=
  id.val < s.floor || s.above.contains id.val

/-- Puts `id` into an ascending list. -/
def place (id : UInt64) : List UInt64 → List UInt64
  | [] => [id]
  | x :: xs => if id < x then id :: x :: xs else x :: place id xs

/-- Moves the floor past the ids that continue it. -/
def raise (floor : UInt64) : List UInt64 → SeenIds
  | [] => ⟨floor, []⟩
  | x :: xs => if x = floor then raise (floor + 1) xs else ⟨floor, x :: xs⟩

def insert (s : SeenIds) (id : RequestId) : Bool × SeenIds :=
  if s.contains id then (false, s) else (true, raise s.floor (place id.val s.above))

def size (s : SeenIds) : UInt64 := s.floor + UInt64.ofNat s.above.length

def isEmpty (s : SeenIds) : Bool := s.size = 0

def sparseSize (s : SeenIds) : Nat := s.above.length

end SeenIds

end Superstep
