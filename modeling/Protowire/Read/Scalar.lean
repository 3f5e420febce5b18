import Protowire.Payload
import Protowire.Read.Consumes

set_option autoImplicit false

/-!
# Reading and skipping field values

Reading interprets a payload by the declared type; skipping needs the wire type alone.
-/

namespace Protowire

/-- The 32-bit types keep the low half of the varint, however long it was; a boolean looks at all
of it. -/
def ScalarType.read : ScalarType → Read Scalar
  | int32 | enum => do return .i32 (← Read.varint).toUInt32.toInt32
  | int64 => do return .i64 (← Read.varint).toInt64
  | uint32 => do return .u32 (← Read.varint).toUInt32
  | uint64 => do return .u64 (← Read.varint)
  | sint32 => do return .i32 (Zigzag.decode32 (← Read.varint).toUInt32)
  | sint64 => do return .i64 (Zigzag.decode64 (← Read.varint))
  | bool => do return .bool ((← Read.varint) != 0)
  | fixed32 => do return .u32 (← Read.fixed32)
  | sfixed32 => do return .i32 (← Read.fixed32).toInt32
  | float => do return .f32 (← Read.fixed32)
  | fixed64 => do return .u64 (← Read.fixed64)
  | sfixed64 => do return .i64 (← Read.fixed64).toInt64
  | double => do return .f64 (← Read.fixed64)
  | string => do return .string (← Read.string)
  | bytes => do return .bytes (← Read.bytes)

theorem ScalarType.consumes_read (t : ScalarType) : t.read.Consumes := by
  have fixed32 : Read.fixed32.Consumes := (Read.consumes_window (by decide) _).bind _
  have fixed64 : Read.fixed64.Consumes := (Read.consumes_window (by decide) _).bind _
  have bytes : Read.bytes.Consumes := Read.consumes_delimited _
  cases t
  case string => exact (bytes.bind _).bind _
  case bytes => exact bytes.bind _
  case fixed32 | sfixed32 | float => exact fixed32.bind _
  case fixed64 | sfixed64 | double => exact fixed64.bind _
  all_goals exact Read.consumes_varint.bind _

/-- Steps over a value and says how many bytes it took. -/
def WireType.skip (w : WireType) : Read Nat := do
  let start ← Read.offset
  match w with
  | varint => discard Read.varint
  | fixed64 => discard (Read.take 8)
  | fixed32 => discard (Read.take 4)
  | delimited => discard Read.bytes
  return (← Read.offset) - start

end Protowire
