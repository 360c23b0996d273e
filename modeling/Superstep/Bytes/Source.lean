import Superstep.Error

/-!
# Byte streams that are read

A `Source` is what a reader will deliver: pieces of data and interruptions in the order
in which they arrive, and how the stream ends. A read of `n` bytes goes on over
interruptions and short pieces until it has `n` bytes or the stream ends; it takes
nothing beyond them and, for `n = 0`, does not touch the stream at all.
-/

namespace Superstep

/-- What one call of a reader delivers. -/
inductive Arrival where
  | data (bytes : Bytes)
  /-- Nothing, and the call is to be repeated. -/
  | interrupted
deriving DecidableEq

/-- How a stream ends. -/
inductive StreamEnd where
  | closed
  /-- Every further read fails with this text. -/
  | fails (text : String)
deriving DecidableEq

/-- What a reader will deliver from here on. -/
structure Source where
  arrivals : List Arrival
  ending : StreamEnd
  position : Nat
deriving DecidableEq

namespace Source

/-- Up to `n` bytes off the front of the arrivals, and the arrivals that are left. -/
def pull : (n : Nat) → List Arrival → Bytes × List Arrival
  | 0, arrivals => ([], arrivals)
  | _, [] => ([], [])
  | n, .interrupted :: later => pull n later
  | n, .data bytes :: later =>
    if n < bytes.length then (bytes.take n, .data (bytes.drop n) :: later)
    else
      let (more, left) := pull (n - bytes.length) later
      (bytes ++ more, left)

def read (s : Source) (n : Nat) : Bytes × Source :=
  let (bytes, arrivals) := pull n s.arrivals
  (bytes, { s with arrivals, position := s.position + bytes.length })

def content (s : Source) : Bytes :=
  s.arrivals.flatMap fun
    | .data bytes => bytes
    | .interrupted => []

def ofBytes (bytes : Bytes) : Source := ⟨[.data bytes], .closed, 0⟩

end Source

/-- A byte string behind a reader with a plan of faults, some of it read already. -/
structure Feed where
  /-- All the data, that which was read included. -/
  data : Bytes
  taken : Nat
  /-- The most bytes that one call delivers; `none` for no limit. A reader that delivers 0
  bytes says that its stream has ended. -/
  chunk : Option Nat
  /-- The offset from which on every read fails. -/
  failAt : Option Nat
  /-- Whether every other call is interrupted. -/
  interrupts : Bool

namespace Feed

/-- Cuts `bytes` into pieces of `size` bytes and a shorter last one. There are no pieces of
0 bytes. -/
def pieces (size : Nat) (bytes : Bytes) : List Bytes :=
  if _h : bytes = [] ∨ size = 0 then []
  else bytes.take size :: pieces size (bytes.drop size)
termination_by bytes.length
decreasing_by
  have : bytes.length ≠ 0 := fun hz => _h (.inl (List.eq_nil_of_length_eq_zero hz))
  have : size ≠ 0 := fun hz => _h (.inr hz)
  rw [List.length_drop]
  omega

/-- What the reader will deliver from here on. It fails only when it gets as far as the
offset of the failure. -/
def source (f : Feed) : Source :=
  let stop := match f.failAt with
    | some offset => min offset f.data.length
    | none => f.data.length
  let unread := (f.data.take stop).drop f.taken
  let parts := match f.chunk with
    | some size => pieces size unread
    | none => if unread = [] then [] else [unread]
  let ending := match f.failAt with
    | some offset =>
      if offset ≤ f.taken + parts.flatten.length then .fails "read failed" else .closed
    | none => .closed
  { arrivals := parts.flatMap fun part =>
      if f.interrupts then [.interrupted, .data part] else [.data part]
    ending
    position := f.taken }

/-- The feed with more data behind what it has. -/
def append (f : Feed) (more : Bytes) : Feed := { f with data := f.data ++ more }

/-- The feed from which `s` was read up to its position. -/
def readTo (f : Feed) (s : Source) : Feed := { f with taken := s.position }

end Feed

end Superstep
