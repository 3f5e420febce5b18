import Protowire.Scalar
import Protowire.Utf8
import Protowire.Varint
import Protowire.Zigzag

set_option autoImplicit false

/-!
# Wire payloads of scalars

What stands behind a tag, one form for each wire type. A scalar type turns the values of its
variant into payloads and refuses all others.
-/

namespace Protowire

inductive Payload
  | varint (raw : UInt64)
  | fixed32 (bits : UInt32)
  | fixed64 (bits : UInt64)
  | delimited (content : Bytes)
  deriving DecidableEq

namespace Payload

def wireType : Payload → WireType
  | varint _ => .varint
  | fixed32 _ => .fixed32
  | fixed64 _ => .fixed64
  | delimited _ => .delimited

def encode : Payload → Bytes
  | varint raw => Varint.encode raw
  | fixed32 bits => LittleEndian.encode 4 bits.toNat
  | fixed64 bits => LittleEndian.encode 8 bits.toNat
  | delimited content => Varint.delimit content

/-- Bytes that `encode` takes. -/
def size : Payload → Nat
  | varint raw => Varint.size raw
  | fixed32 _ => 4
  | fixed64 _ => 8
  | delimited content => Varint.delimitedSize content.length

/-- All bits zero, or no content. Negative zero has its sign bit set and does not count. -/
def isZero : Payload → Bool
  | varint raw => (Varint.encodeField raw).isEmpty
  | fixed32 bits => bits == 0
  | fixed64 bits => bits == 0
  | delimited content => content.isEmpty

end Payload

/-- A 32-bit integer is sign-extended before it becomes a varint; only the zigzag types keep small
negative values short. -/
def ScalarType.payload? : ScalarType → Scalar → Option Payload
  | int32, .i32 v | enum, .i32 v => some (.varint v.toInt64.toUInt64)
  | int64, .i64 v => some (.varint v.toUInt64)
  | uint32, .u32 v => some (.varint v.toUInt64)
  | uint64, .u64 v => some (.varint v)
  | sint32, .i32 v => some (.varint (Zigzag.encode32 v).toUInt64)
  | sint64, .i64 v => some (.varint (Zigzag.encode64 v))
  | bool, .bool b => some (.varint b.toUInt64)
  | fixed32, .u32 v => some (.fixed32 v)
  | sfixed32, .i32 v => some (.fixed32 v.toUInt32)
  | float, .f32 bits => some (.fixed32 bits)
  | fixed64, .u64 v => some (.fixed64 v)
  | sfixed64, .i64 v => some (.fixed64 v.toUInt64)
  | double, .f64 bits => some (.fixed64 bits)
  | string, .string s => some (.delimited (Utf8.encode s))
  | bytes, .bytes b => some (.delimited b)
  | _, _ => none

theorem ScalarType.wireType_of_payload? {t : ScalarType} {s : Scalar} {p : Payload}
    (h : t.payload? s = some p) : p.wireType = t.wireType := by
  revert h
  cases t <;> cases s <;> simp [payload?] <;> rintro rfl <;> rfl

theorem ScalarType.isSome_payload?_iff {t : ScalarType} {s : Scalar} :
    (t.payload? s).isSome ↔ s.variant = t.variant := by
  cases t <;> cases s <;> simp [payload?, Scalar.variant, variant]

end Protowire
