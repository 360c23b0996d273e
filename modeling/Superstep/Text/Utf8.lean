import Superstep.Bytes.Word

/-!
# UTF-8

Strings are stored as UTF-8. Strict decoding accepts well-formed bytes only. Lossy
decoding accepts every byte string: it puts one replacement character in the place of
each maximal prefix of a sequence that cannot be completed, and goes on behind it.
-/

namespace Superstep.Utf8

/-- The UTF-8 form of a string. -/
def encode (s : String) : Bytes := s.toUTF8.data.toList

/-- The string with the given UTF-8 form; none for bytes that are not well-formed. -/
def decode? (bytes : Bytes) : Option String := String.fromUTF8? ⟨bytes.toArray⟩

/-- The character whose UTF-8 form stands at the front of `bytes`. -/
def front? (bytes : Bytes) : Option Char :=
  ByteArray.utf8DecodeChar? ⟨(bytes.take 4).toArray⟩ 0

/-- Whether `byte` continues a sequence. -/
def isContinuation (byte : UInt8) : Bool := 0x80 ≤ byte && byte ≤ 0xBF

/-- Whether `second` may follow the leading byte `first` of a sequence of three or four
bytes. The bounds exclude surrogates, overlong forms and numbers past the last
character. -/
def mayFollow (first second : UInt8) : Bool :=
  if first = 0xE0 then 0xA0 ≤ second && second ≤ 0xBF
  else if first = 0xED then 0x80 ≤ second && second ≤ 0x9F
  else if 0xE1 ≤ first && first ≤ 0xEF then isContinuation second
  else if first = 0xF0 then 0x90 ≤ second && second ≤ 0xBF
  else if 0xF1 ≤ first && first ≤ 0xF3 then isContinuation second
  else if first = 0xF4 then 0x80 ≤ second && second ≤ 0x8F
  else false

/-- The length of the longest prefix of `bytes` that begins some character, one at the
least. Meant for bytes with no whole character at the front. -/
def brokenLength : Bytes → Nat
  | first :: second :: third :: _ =>
    if mayFollow first second then
      if 0xF0 ≤ first && isContinuation third then 3 else 2
    else 1
  | [first, second] => if mayFollow first second then 2 else 1
  | _ => 1

theorem brokenLength_pos (bytes : Bytes) : 0 < brokenLength bytes := by
  unfold brokenLength
  repeat' split
  all_goals omega

/-- The character that stands for what cannot be decoded. -/
def replacement : Char := '\uFFFD'

/-- The characters of `bytes`, with replacement characters for what is ill-formed. -/
def lossyChars (bytes : Bytes) : List Char :=
  if _h : bytes = [] then []
  else
    match front? bytes with
    | some c => c :: lossyChars (bytes.drop c.utf8Size)
    | none => replacement :: lossyChars (bytes.drop (brokenLength bytes))
termination_by bytes.length
decreasing_by
  all_goals
    have hlen : 0 < bytes.length := List.length_pos_iff.2 _h
    rw [List.length_drop]
  · have := Char.utf8Size_pos c
    omega
  · have := brokenLength_pos bytes
    omega

/-- The string that `bytes` stand for, with replacement characters for what is
ill-formed. -/
def lossy (bytes : Bytes) : String := String.ofList (lossyChars bytes)

end Superstep.Utf8
