import Protowire.Bytes

set_option autoImplicit false

/-!
# Base-128 varints

A varint holds seven bits a byte, low bits first, and every byte but the last has its high bit
set. Framing (tags, lengths, list elements) writes at least one byte. A field value has a second
form in which zero, being the default, takes no bytes at all.
-/

namespace Protowire.Varint

/-- `n` in at most `more + 1` bytes. -/
def groups : (more n : Nat) → Bytes
  | 0, n => [UInt8.ofNat n]
  | more + 1, n =>
    if n < 128 then [UInt8.ofNat n] else UInt8.ofNat (n % 128 + 128) :: groups more (n / 128)

/-- Ten bytes hold 70 bits, so they suffice for every word. -/
def encode (v : UInt64) : Bytes := groups 9 v.toNat

/-- The base-128 digits of `n`, at most `most` of them; zero has none. -/
def digits : (most n : Nat) → Bytes
  | 0, _ => []
  | most + 1, n => if n = 0 then [] else UInt8.ofNat (n % 128) :: digits most (n / 128)

/-- Sets the high bit of every byte but the last. -/
def chain : Bytes → Bytes
  | [] => []
  | [b] => [b]
  | b :: rest => (b + 128) :: chain rest

/-- The field form: empty exactly for zero. -/
def encodeField (v : UInt64) : Bytes := chain (digits 10 v.toNat)

/-- Bytes that `encode v` takes, read off the magnitude of `v`. -/
def size (v : UInt64) : Nat :=
  if v ≤ 0x7F then 1
  else if v ≤ 0x3FFF then 2
  else if v ≤ 0x1FFFFF then 3
  else if v ≤ 0xFFFFFFF then 4
  else if v ≤ 0x7FFFFFFFF then 5
  else if v ≤ 0x3FFFFFFFFFF then 6
  else if v ≤ 0x1FFFFFFFFFFFF then 7
  else if v ≤ 0xFFFFFFFFFFFFFF then 8
  else if v ≤ 0x7FFFFFFFFFFFFFFF then 9
  else 10

/-- Bytes that a payload of `length` bytes takes together with the length in front of it. -/
def delimitedSize (length : Nat) : Nat := size (UInt64.ofNat length) + length

/-- A payload behind its length. -/
def delimit (payload : Bytes) : Bytes := encode (UInt64.ofNat payload.length) ++ payload

end Protowire.Varint
