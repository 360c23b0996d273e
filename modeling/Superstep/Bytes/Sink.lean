import Superstep.Error

/-!
# Byte streams that are written

A `Sink` collects bytes up to a capacity. What happens at the capacity, and whether the
final flush succeeds, is part of the sink.
-/

namespace Superstep

/-- How a sink refuses what exceeds its capacity. -/
inductive SinkFault where
  /-- A write beyond the capacity fails. -/
  | writeFails
  /-- A write beyond the capacity accepts no byte, which its caller takes for a failure. -/
  | acceptsNothing
  /-- A write beyond the capacity fails, and so does every flush. -/
  | flushFails
deriving DecidableEq

/-- A byte stream under construction. -/
structure Sink where
  written : Bytes
  /-- The most bytes the sink accepts, and how it fails; `none` for a sink that never does. -/
  limit : Option (Nat × SinkFault)

namespace Sink

def unlimited : Sink := ⟨[], none⟩

/-- The number of bytes that a limited sink still accepts. -/
def room (s : Sink) : Option Nat := s.limit.map fun (capacity, _) => capacity - s.written.length

/-- Writes all of `bytes`, or as many as the sink accepts. -/
def write (s : Sink) (bytes : Bytes) : Except Error Unit × Sink :=
  match s.limit with
  | none => (.ok (), { s with written := s.written ++ bytes })
  | some (capacity, fault) =>
    let free := capacity - s.written.length
    if bytes.length ≤ free then (.ok (), { s with written := s.written ++ bytes })
    else
      let text := match fault with
        | .acceptsNothing => "failed to write whole buffer"
        | _ => "write failed"
      (.error (.io text), { s with written := s.written ++ bytes.take free })

def flush (s : Sink) : Except Error Unit :=
  match s.limit with
  | some (_, .flushFails) => .error (.io "flush failed")
  | _ => .ok ()

end Sink

end Superstep
