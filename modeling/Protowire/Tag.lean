import Protowire.Varint
import Protowire.WireType

set_option autoImplicit false

/-!
# Field numbers and tags

A tag stands in front of every field value and holds its number and wire type in one varint.
-/

namespace Protowire

/-- The numbers a field may have. -/
structure FieldNumber where
  val : UInt32
  inRange : 1 ≤ val ∧ val ≤ 127
  deriving DecidableEq

namespace FieldNumber

def ofUInt32? (n : UInt32) : Option FieldNumber :=
  if h : 1 ≤ n ∧ n ≤ 127 then some ⟨n, h⟩ else none

/-- Numbers of the two halves of a map entry. -/
def key : FieldNumber := ⟨1, by decide⟩
def value : FieldNumber := ⟨2, by decide⟩

theorem toNat_lt (n : FieldNumber) : n.val.toNat < 128 := by
  have := UInt32.le_iff_toNat_le.1 n.inRange.2
  simp at this
  omega

end FieldNumber

structure Tag where
  number : FieldNumber
  wireType : WireType
  deriving DecidableEq

namespace Tag

/-- The number above the three bits of the wire type. -/
def raw (t : Tag) : UInt32 := (t.number.val <<< 3) ||| t.wireType.code.toUInt32

def ofRaw? (raw : UInt64) : Option Tag := do
  let wireType ← WireType.ofCode? (raw &&& 7).toUInt8
  let number := raw >>> 3
  if number ≤ 127 then return ⟨← FieldNumber.ofUInt32? number.toUInt32, wireType⟩ else none

def encode (t : Tag) : Bytes := Varint.encode t.raw.toUInt64

/-- Bytes that `encode` takes: one up to field 15, two above. -/
def size (t : Tag) : Nat := Varint.size t.raw.toUInt64

end Tag

end Protowire
