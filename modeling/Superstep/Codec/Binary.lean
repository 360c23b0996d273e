import Superstep.Codec.Basic

/-!
# Binary floating-point words

Floating-point values are carried as their IEEE 754 bit patterns; the library never
computes with them. It compares them as the standard does: a NaN differs from everything,
itself included, and the two zeros are equal.
-/

namespace Superstep

/-- A single-precision number, by its bit pattern. -/
structure Binary32 where
  bits : UInt32
deriving DecidableEq, Inhabited

/-- A double-precision number, by its bit pattern. -/
structure Binary64 where
  bits : UInt64
deriving DecidableEq, Inhabited

namespace Binary32

/-- The bit pattern without its sign. -/
def magnitude (x : Binary32) : UInt32 := x.bits &&& 0x7FFFFFFF

/-- Whether this is no number. -/
def isNaN (x : Binary32) : Bool := 0x7F800000 < x.magnitude

/-- Equality of numbers. -/
def same (x y : Binary32) : Bool :=
  !x.isNaN && !y.isNaN && (x.bits = y.bits || (x.magnitude = 0 && y.magnitude = 0))

end Binary32

namespace Binary64

@[inherit_doc Binary32.magnitude]
def magnitude (x : Binary64) : UInt64 := x.bits &&& 0x7FFFFFFFFFFFFFFF

@[inherit_doc Binary32.isNaN]
def isNaN (x : Binary64) : Bool := 0x7FF0000000000000 < x.magnitude

@[inherit_doc Binary32.same]
def same (x y : Binary64) : Bool :=
  !x.isNaN && !y.isNaN && (x.bits = y.bits || (x.magnitude = 0 && y.magnitude = 0))

end Binary64

end Superstep
