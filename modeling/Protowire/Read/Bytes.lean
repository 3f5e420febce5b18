import Protowire.Read

set_option autoImplicit false

/-!
# Reading bytes, words and text

The payloads of the four wire types, not yet interpreted by a declared type.
-/

namespace Protowire.Read

variable {α : Type}

def byte : Read UInt8 where
  run c :=
    match c.unread with
    | [] => ⟨⟨.error (.underrun 1 0), []⟩, c⟩
    | b :: _ => ⟨⟨.ok b, []⟩, c.drop 1⟩
  forward c := by
    split
    · exact .refl c
    · next h => exact ⟨1, by simp [Cursor.remaining, h], rfl⟩

def take (n : Nat) : Read Bytes := window n fun w => .pure w.unread

/-- At most `n` groups of a varint. The arithmetic drops what does not fit in 64 bits. -/
def groups : (n : Nat) → Read UInt64
  | 0 => fail .varint
  | n + 1 => do
    let b ← byte
    if b < 128 then return b.toUInt64
    let high ← groups n
    return b.toUInt64 % 128 + 128 * high

def varint : Read UInt64 := groups 10

def fixed32 : Read UInt32 := do
  return UInt32.ofNat (LittleEndian.decode (← take 4))

def fixed64 : Read UInt64 := do
  return UInt64.ofNat (LittleEndian.decode (← take 8))

/-- Runs `inner` in a window whose length is read first. -/
def delimited (inner : Cursor → Logged α) : Read α := do
  window (← varint).toNat inner

def bytes : Read Bytes := delimited fun w => .pure w.unread

def string : Read String := do
  ofExcept ((Utf8.decode (← bytes)).mapError .utf8)

end Protowire.Read
