import Protowire.Bytes
import Protowire.WireType

set_option autoImplicit false

/-!
# Scalar values and their declared types

A scalar type says how a value is written; several types carry the same variant of value.
-/

namespace Protowire

/-- Floating point numbers are held by their bits, so that signed zeros and every NaN payload are
told apart. -/
inductive Scalar
  | i32 (v : Int32)
  | i64 (v : Int64)
  | u32 (v : UInt32)
  | u64 (v : UInt64)
  | bool (b : Bool)
  | f32 (bits : UInt32)
  | f64 (bits : UInt64)
  | string (s : String)
  | bytes (b : Bytes)
  deriving DecidableEq

/-- What a value is, whatever the field that holds it was declared as. -/
inductive Variant
  | i32 | i64 | u32 | u64 | bool | f32 | f64 | string | bytes | message
  deriving DecidableEq

def Variant.name : Variant → String
  | i32 => "I32"
  | i64 => "I64"
  | u32 => "U32"
  | u64 => "U64"
  | bool => "Bool"
  | f32 => "F32"
  | f64 => "F64"
  | string => "String"
  | bytes => "Bytes"
  | message => "Message"

def Scalar.variant : Scalar → Variant
  | i32 _ => .i32
  | i64 _ => .i64
  | u32 _ => .u32
  | u64 _ => .u64
  | bool _ => .bool
  | f32 _ => .f32
  | f64 _ => .f64
  | string _ => .string
  | bytes _ => .bytes

inductive ScalarType
  | int32 | int64 | uint32 | uint64 | sint32 | sint64 | bool | enum
  | fixed32 | fixed64 | sfixed32 | sfixed64 | float | double | string | bytes
  deriving DecidableEq

namespace ScalarType

def name : ScalarType → String
  | int32 => "int32"
  | int64 => "int64"
  | uint32 => "uint32"
  | uint64 => "uint64"
  | sint32 => "sint32"
  | sint64 => "sint64"
  | bool => "bool"
  | enum => "enum"
  | fixed32 => "fixed32"
  | fixed64 => "fixed64"
  | sfixed32 => "sfixed32"
  | sfixed64 => "sfixed64"
  | float => "float"
  | double => "double"
  | string => "string"
  | bytes => "bytes"

def wireType : ScalarType → WireType
  | int32 | int64 | uint32 | uint64 | sint32 | sint64 | bool | enum => .varint
  | fixed32 | sfixed32 | float => .fixed32
  | fixed64 | sfixed64 | double => .fixed64
  | string | bytes => .delimited

/-- The variant of the values that the type carries. -/
def variant : ScalarType → Variant
  | int32 | sint32 | sfixed32 | enum => .i32
  | int64 | sint64 | sfixed64 => .i64
  | uint32 | fixed32 => .u32
  | uint64 | fixed64 => .u64
  | bool => .bool
  | float => .f32
  | double => .f64
  | string => .string
  | bytes => .bytes

def default : ScalarType → Scalar
  | int32 | sint32 | sfixed32 | enum => .i32 0
  | int64 | sint64 | sfixed64 => .i64 0
  | uint32 | fixed32 => .u32 0
  | uint64 | fixed64 => .u64 0
  | bool => .bool false
  | float => .f32 0
  | double => .f64 0
  | string => .string ""
  | bytes => .bytes []

/-- Keys are integers, booleans or text. -/
def isMapKey : ScalarType → Bool
  | float | double | bytes => false
  | _ => true

@[simp] theorem variant_default (t : ScalarType) : t.default.variant = t.variant := by
  cases t <;> rfl

end ScalarType

end Protowire
