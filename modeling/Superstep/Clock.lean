/-!
# Clocks

Time is counted in milliseconds. A clock moves when it is told to.
-/

namespace Superstep

/-- A clock that stands still until it is advanced. -/
structure Clock where
  /-- Milliseconds since the clock was made. -/
  now : Nat
deriving DecidableEq, Inhabited

namespace Clock

def start : Clock := ⟨0⟩

def advance (c : Clock) (ms : Nat) : Clock := ⟨c.now + ms⟩

/-- The time since `earlier`; nothing when `earlier` lies in the future. -/
def elapsedSince (c : Clock) (earlier : Nat) : Nat := c.now - earlier

end Clock

end Superstep
