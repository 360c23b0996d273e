import Superstep.Error

/-!
# Decoders

A `Decoder α` consumes the front of a byte string. It also says which bytes it left,
on failure as well as on success, because callers go on from there and report the
place. A decoder that fails in its first field has consumed nothing.
-/

namespace Superstep

/-- Reads a value off the front of a byte string and returns what is left of it. -/
def Decoder (α : Type) := Bytes → Except Corruption α × Bytes

namespace Decoder

variable {α β : Type}

def run (d : Decoder α) (input : Bytes) : Except Corruption α × Bytes := d input

instance : Monad Decoder where
  pure a := fun input => (.ok a, input)
  bind d f := fun input =>
    match d input with
    | (.ok a, rest) => f a rest
    | (.error e, rest) => (.error e, rest)

/-- Fails without consuming anything. -/
def fail (cause : Corruption) : Decoder α := fun input => (.error cause, input)

def mapError (f : Corruption → Corruption) (d : Decoder α) : Decoder α := fun input =>
  match d input with
  | (.ok a, rest) => (.ok a, rest)
  | (.error e, rest) => (.error (f e), rest)

def ofExcept : Except Corruption α → Decoder α
  | .ok a => pure a
  | .error e => fail e

def remaining : Decoder Nat := fun input => (.ok input.length, input)

/-- The next `n` bytes; fails in place when fewer are left. -/
def take (n : Nat) : Decoder Bytes := fun input =>
  if n ≤ input.length then (.ok (input.take n), input.drop n)
  else (.error (.overread n input.length), input)

/-- The number that the next `width` bytes stand for. -/
def word (width : Nat) : Decoder Nat := do
  return BigEndian.decode (← take width)

def byte : Decoder UInt8 := do
  return UInt8.ofNat (← word 1)

def word32 : Decoder UInt32 := do
  return UInt32.ofNat (← word 4)

def word64 : Decoder UInt64 := do
  return UInt64.ofNat (← word 8)

/-- A 32-bit count of items that take at least `minItem` bytes each. A count that the
rest of the input cannot hold is refused before anything is read for it. -/
def lengthPrefix (minItem : Nat) : Decoder Nat := do
  let len ← word 4
  let left ← remaining
  if left < len * minItem then fail (.lengthExceeds len left) else return len

/-- Fails unless every byte has been consumed. -/
def finish (what : String) : Decoder Unit := do
  let left ← remaining
  if left = 0 then return () else fail (.trailing what left)

/-- Runs `d` for `n` times and drops the results. A run that leaves the input where it
was ends the repetition, because every later run would leave it there too. -/
def skip (d : Decoder α) : Nat → Decoder Unit
  | 0 => pure ()
  | n + 1 => fun input =>
    match d input with
    | (.error e, rest) => (.error e, rest)
    | (.ok _, rest) => if rest = input then (.ok (), input) else skip d n rest

/-- The results of running `d` on `input` again and again, for `n` times at the most and up
to the first failure. -/
def scan (d : Decoder α) : Nat → Bytes → List α
  | 0, _ => []
  | n + 1, input =>
    match d input with
    | (.error _, _) => []
    | (.ok a, rest) => a :: scan d n rest

/-- Runs `d` on `input` as a whole: bytes that `d` leaves are an error. -/
def complete (d : Decoder α) (what : String) (input : Bytes) : Except Corruption α :=
  (do let a ← d
      finish what
      return a : Decoder α).run input |>.1

end Decoder

/-- The outcome of decoding over an existing value: the value as it stands afterwards,
also when decoding failed part of the way, and the bytes that are left. -/
structure Refill (α : Type) where
  outcome : Except Corruption Unit
  target : α
  rest : Bytes

namespace Refill

variable {α : Type}

/-- Decodes over `old`, which stays when decoding fails. -/
def ofDecoder (d : Decoder α) (old : α) (input : Bytes) : Refill α :=
  match d.run input with
  | (.ok new, rest) => ⟨.ok (), new, rest⟩
  | (.error e, rest) => ⟨.error e, old, rest⟩

end Refill

end Superstep
