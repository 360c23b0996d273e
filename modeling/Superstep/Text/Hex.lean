import Superstep.Bytes.Word

/-!
# Hexadecimal text

Byte strings as text, with two lower-case digits for each byte.
-/

namespace Superstep.Text.Hex

def digits (b : UInt8) : List Char :=
  [Nat.digitChar (b.toNat / 16), Nat.digitChar (b.toNat % 16)]

def value? (c : Char) : Option Nat :=
  if 48 ≤ c.toNat ∧ c.toNat < 58 then some (c.toNat - 48)
  else if 97 ≤ c.toNat ∧ c.toNat < 103 then some (c.toNat - 87)
  else none

/-- The bytes with the given digits. -/
def bytes? : List Char → Option Bytes
  | [] => some []
  | [_] => none
  | high :: low :: rest => do
    let h ← value? high
    let l ← value? low
    return UInt8.ofNat (16 * h + l) :: (← bytes? rest)

def encode (bytes : Bytes) : String := String.ofList (bytes.flatMap digits)

def decode? (text : String) : Option Bytes := bytes? text.toList

end Superstep.Text.Hex
