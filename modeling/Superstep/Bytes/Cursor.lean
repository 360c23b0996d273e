import Superstep.Bytes.Decoder

/-!
# Cursors

A cursor is a place in a byte string: the whole string, and the part of it that is
still to be read. Running a decoder moves the cursor to where the decoder stopped.
-/

namespace Superstep

/-- A place in a byte string. -/
structure Cursor where
  buffer : Bytes
  rest : Bytes

namespace Cursor

def start (buffer : Bytes) : Cursor := ⟨buffer, buffer⟩

def remaining (c : Cursor) : Nat := c.rest.length

def position (c : Cursor) : Nat := c.buffer.length - c.rest.length

/-- The bytes between offset `from` and the cursor; none when `from` lies behind it. -/
def since (c : Cursor) (offset : Nat) : Bytes :=
  (c.buffer.take c.position).drop offset

/-- Runs a decoder at the cursor and moves the cursor to where it stopped. -/
def read {α : Type} (c : Cursor) (d : Decoder α) : Except Corruption α × Cursor :=
  let (outcome, rest) := d.run c.rest
  (outcome, { c with rest })

def describe (c : Cursor) : String :=
  "Cursor \x7b off: " ++ toString c.position ++ ", remaining: " ++ toString c.remaining ++ " \x7d"

end Cursor

end Superstep
