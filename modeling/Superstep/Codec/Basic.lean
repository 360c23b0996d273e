import Superstep.Bytes.Decoder
import Superstep.Codec.Copier

/-!
# Codecs

A codec gives a type its one encoded form. Encodings are self-delimiting: a decoder finds
the end of a value without being told its length, and so does a copier on a stream.

Two classes say what a graph asks of its types. A `VertexId` can be compared, ordered and
shown; a `Value` can be compared the way the computation compares values, which for
floating-point numbers is not equality of the encoded forms.
-/

namespace Superstep

/-- Types with an encoded form. -/
class Codec (α : Type) where
  minLen : Nat
  encode : α → Bytes
  decode : Decoder α
  decodeInto : α → Bytes → Refill α := Refill.ofDecoder decode
  /-- Copies one encoded value off a stream. -/
  copy : Copier Unit

/-- Types of vertex identifiers. -/
class VertexId (α : Type) extends Codec α, Inhabited α, Ord α where
  /-- Equality of ids, which is equality of their encoded forms. -/
  decEq : DecidableEq α
  /-- The text with which messages show an id. -/
  text : α → String

attribute [reducible, instance] VertexId.decEq

/-- Types of vertex values, edge values and messages. -/
class Value (α : Type) extends Codec α, Inhabited α where
  /-- Whether a computation takes two values for equal. -/
  same : α → α → Bool

/-- A codec for values that always take `width` bytes. -/
@[reducible] def Codec.fixedWidth {α : Type} (width : Nat) (toNat : α → Nat) (ofNat : Nat → α) :
    Codec α where
  minLen := width
  encode a := BigEndian.encode width (toNat a)
  decode := do return ofNat (← Decoder.word width)
  copy := do let _ ← Copier.exact width

end Superstep
