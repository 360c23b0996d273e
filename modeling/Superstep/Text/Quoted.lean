import Superstep.Text.Printable

/-!
# Quoted text

Strings inside messages stand between double quotes. Quotes, backslashes and characters
that have no visible form of their own are escaped.
-/

namespace Superstep.Text

/-- The lower-case hexadecimal digits of `n`, without leading zeros. -/
def hex (n : Nat) : List Char := Nat.toDigits 16 n

/-- The escape of a character by its number. -/
def numericEscape (c : Char) : List Char := ['\\', 'u', '\x7b'] ++ hex c.toNat ++ ['\x7d']

/-- The form of a character between double quotes. -/
def quoteChar (c : Char) : List Char :=
  match c with
  | '"' => ['\\', '"']
  | '\\' => ['\\', '\\']
  | '\n' => ['\\', 'n']
  | '\t' => ['\\', 't']
  | '\r' => ['\\', 'r']
  | '\x00' => ['\\', '0']
  | c => if isPrintable c then [c] else numericEscape c

def quote (s : String) : String :=
  String.ofList ('"' :: s.toList.flatMap quoteChar ++ ['"'])

end Superstep.Text
