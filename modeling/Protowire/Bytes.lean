set_option autoImplicit false

/-!
# Byte strings and little-endian words

Byte strings are lists: an encoding is taken apart by the same recursion that put it together.
-/

namespace Protowire

abbrev Bytes := List UInt8

namespace LittleEndian

/-- The low `width` bytes of `n`, least significant first. -/
def encode : (width n : Nat) → Bytes
  | 0, _ => []
  | width + 1, n => UInt8.ofNat n :: encode width (n / 256)

def decode : Bytes → Nat
  | [] => 0
  | b :: rest => b.toNat + 256 * decode rest

@[simp] theorem length_encode (width n : Nat) : (encode width n).length = width := by
  induction width generalizing n with
  | zero => rfl
  | succ width ih => simp [encode, ih]

end LittleEndian

end Protowire
