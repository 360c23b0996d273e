import Superstep.Codec.Binary
import Superstep.Text.Quoted
import Superstep.Text.Utf8

/-!
# Scalars

The types a graph can be built from: fixed-width integers and floating-point words,
truth values, the unit type and strings. `Scalar` names them and `Scalar.Carrier` gives
the type that a name stands for. `Key` names those that can identify vertices, which are
all but the floating-point ones. A `Schema` chooses the four types of a graph.

Integers are written in two's complement, a truth value is one byte, the unit value takes
no byte, and a string is its length in bytes and its UTF-8 form.
-/

namespace Superstep

inductive Scalar where
  | i8 | i16 | i32 | i64
  | u8 | u16 | u32 | u64
  | f32 | f64
  | bool | unit | string
deriving DecidableEq

/-- A scalar type's name as text: `i` or `u` for integers and `f` for floating-point words,
with the width behind it, and whole words for the others. -/
def Scalar.text : Scalar → String
  | i8 => "i8"
  | i16 => "i16"
  | i32 => "i32"
  | i64 => "i64"
  | u8 => "u8"
  | u16 => "u16"
  | u32 => "u32"
  | u64 => "u64"
  | f32 => "f32"
  | f64 => "f64"
  | bool => "bool"
  | unit => "unit"
  | string => "string"

def Scalar.all : List Scalar :=
  [i8, i16, i32, i64, u8, u16, u32, u64, f32, f64, bool, unit, string]

/-- The scalar type that a text names. -/
def Scalar.ofText? (text : String) : Option Scalar := all.find? fun s => s.text = text

/-- The type that a name stands for. -/
@[reducible] def Scalar.Carrier : Scalar → Type
  | i8 => Int8
  | i16 => Int16
  | i32 => Int32
  | i64 => Int64
  | u8 => UInt8
  | u16 => UInt16
  | u32 => UInt32
  | u64 => UInt64
  | f32 => Binary32
  | f64 => Binary64
  | bool => Bool
  | unit => Unit
  | string => String

/-! ## Encoded forms -/

instance : Codec Int8 := .fixedWidth 1 (·.toUInt8.toNat) (UInt8.ofNat · |>.toInt8)
instance : Codec Int16 := .fixedWidth 2 (·.toUInt16.toNat) (UInt16.ofNat · |>.toInt16)
instance : Codec Int32 := .fixedWidth 4 (·.toUInt32.toNat) (UInt32.ofNat · |>.toInt32)
instance : Codec Int64 := .fixedWidth 8 (·.toUInt64.toNat) (UInt64.ofNat · |>.toInt64)
instance : Codec UInt8 := .fixedWidth 1 (·.toNat) UInt8.ofNat
instance : Codec UInt16 := .fixedWidth 2 (·.toNat) UInt16.ofNat
instance : Codec UInt32 := .fixedWidth 4 (·.toNat) UInt32.ofNat
instance : Codec UInt64 := .fixedWidth 8 (·.toNat) UInt64.ofNat
instance : Codec Binary32 := .fixedWidth 4 (·.bits.toNat) (⟨UInt32.ofNat ·⟩)
instance : Codec Binary64 := .fixedWidth 8 (·.bits.toNat) (⟨UInt64.ofNat ·⟩)

instance : Codec Bool where
  minLen := 1
  encode b := [if b then 1 else 0]
  decode := do
    let byte ← Decoder.byte
    if byte = 0 then return false
    else if byte = 1 then return true
    else Decoder.fail (.badBool byte)
  copy := do let _ ← Copier.exact 1

instance : Codec Unit where
  minLen := 0
  encode _ := []
  decode := pure ()
  copy := pure ()

/-- Decodes a string over another, whose storage takes the new text when all of it was
found to be text. -/
def decodeOverString (old : String) (input : Bytes) : Refill String :=
  match (Decoder.lengthPrefix 1).run input with
  | (.error e, rest) => ⟨.error e, old, rest⟩
  | (.ok len, rest) =>
    match (Decoder.take len).run rest with
    | (.error e, rest) => ⟨.error e, old, rest⟩
    | (.ok body, rest) =>
      match Utf8.decode? body with
      | some text => ⟨.ok (), text, rest⟩
      | none => ⟨.error .badString, old, rest⟩

instance : Codec String where
  minLen := 4
  encode s := BigEndian.encode 4 (Utf8.encode s).length ++ Utf8.encode s
  decode := do
    let len ← Decoder.lengthPrefix 1
    let body ← Decoder.take len
    match Utf8.decode? body with
    | some s => return s
    | none => Decoder.fail .badString
  decodeInto := decodeOverString
  copy := do
    let len ← Copier.word32
    let _ ← Copier.exact len

/-! ## Comparison -/

/-- Values of a type with decidable equality are compared by it. -/
@[reducible] def Value.ofDecidableEq (α : Type) [Codec α] [Inhabited α] [DecidableEq α] :
    Value α where
  same a b := decide (a = b)

instance Scalar.instValue : (s : Scalar) → Value s.Carrier
  | i8 => .ofDecidableEq Int8
  | i16 => .ofDecidableEq Int16
  | i32 => .ofDecidableEq Int32
  | i64 => .ofDecidableEq Int64
  | u8 => .ofDecidableEq UInt8
  | u16 => .ofDecidableEq UInt16
  | u32 => .ofDecidableEq UInt32
  | u64 => .ofDecidableEq UInt64
  | f32 => { same := Binary32.same }
  | f64 => { same := Binary64.same }
  | bool => .ofDecidableEq Bool
  | unit => .ofDecidableEq Unit
  | string => .ofDecidableEq String

/-! ## Keys -/

/-- The name of a scalar type whose values can identify vertices. -/
inductive Key where
  | i8 | i16 | i32 | i64
  | u8 | u16 | u32 | u64
  | bool | unit | string
deriving DecidableEq

@[reducible] def Key.scalar : Key → Scalar
  | i8 => .i8
  | i16 => .i16
  | i32 => .i32
  | i64 => .i64
  | u8 => .u8
  | u16 => .u16
  | u32 => .u32
  | u64 => .u64
  | bool => .bool
  | unit => .unit
  | string => .string

/-- The type of the ids that a key type stands for. -/
abbrev Key.Carrier (k : Key) : Type := k.scalar.Carrier

/-- Integers are shown in decimal, with a minus sign when negative. -/
@[reducible] def VertexId.ofInt (α : Type) [Codec α] [Inhabited α] [Ord α] [eq : DecidableEq α]
    (toInt : α → Int) : VertexId α where
  decEq := eq
  text a := toString (toInt a)

instance Key.instVertexId : (k : Key) → VertexId k.Carrier
  | i8 => .ofInt Int8 Int8.toInt
  | i16 => .ofInt Int16 Int16.toInt
  | i32 => .ofInt Int32 Int32.toInt
  | i64 => .ofInt Int64 Int64.toInt
  | u8 => .ofInt UInt8 fun n => n.toNat
  | u16 => .ofInt UInt16 fun n => n.toNat
  | u32 => .ofInt UInt32 fun n => n.toNat
  | u64 => .ofInt UInt64 fun n => n.toNat
  | bool =>
    { decEq := inferInstanceAs (DecidableEq Bool)
      text := fun b => if b then "true" else "false" }
  | unit =>
    { decEq := inferInstanceAs (DecidableEq Unit)
      text := fun _ => "()"
      compare := fun _ _ => .eq }
  | string =>
    { decEq := inferInstanceAs (DecidableEq String)
      text := Text.quote }

instance : VertexId UInt64 := Key.instVertexId .u64

instance : Value UInt64 := Scalar.instValue .u64

instance : Value String := Scalar.instValue .string

/-! ## Schemas -/

/-- The four types of a graph. -/
structure Schema where
  id : Key
  value : Scalar
  edge : Scalar
  /-- Messages between vertices. -/
  message : Scalar

end Superstep
