import Superstep.Bytes.Source

/-!
# Copying records off a stream

A `Copier` moves whole encoded values from a stream to a buffer without decoding them.
The buffer grows with the bytes that were actually read, never with a declared length. A
stream that ends inside a piece is corruption, and the piece is taken back from the
buffer; an error of the stream itself leaves what was read.
-/

namespace Superstep

/-- A stream and the buffer its bytes are copied to. -/
structure Copying where
  source : Source
  out : Bytes
deriving DecidableEq

/-- Copies something from the stream to the buffer. -/
def Copier (α : Type) := Copying → Except Error α × Copying

namespace Copier

variable {α : Type}

def run (c : Copier α) (state : Copying) : Except Error α × Copying := c state

instance : Monad Copier where
  pure a := fun state => (.ok a, state)
  bind c f := fun state =>
    match c state with
    | (.ok a, next) => f a next
    | (.error e, next) => (.error e, next)

/-- Copies exactly `n` bytes and returns them. -/
def exact (n : Nat) : Copier Bytes := fun state =>
  let (piece, source) := state.source.read n
  if piece.length = n then (.ok piece, ⟨source, state.out ++ piece⟩)
  else
    match source.ending with
    | .closed => (.error (.corruption (.streamEnded piece.length n)), ⟨source, state.out⟩)
    | .fails text => (.error (.io text), ⟨source, state.out ++ piece⟩)

def word32 : Copier Nat := do
  return BigEndian.decode (← exact 4)

/-- Runs `c` for `n` times. A run that copies nothing ends the repetition, because every
later run would copy nothing too. -/
def times (c : Copier Unit) : Nat → Copier Unit
  | 0 => pure ()
  | n + 1 => fun state =>
    match c state with
    | (.error e, next) => (.error e, next)
    | (.ok _, next) => if next = state then (.ok (), state) else times c n next

def mapError (f : Error → Error) (c : Copier α) : Copier α := fun state =>
  match c state with
  | (.ok a, next) => (.ok a, next)
  | (.error e, next) => (.error (f e), next)

end Copier

end Superstep
