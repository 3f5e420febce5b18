import Protowire.Bytes

set_option autoImplicit false

/-!
# UTF-8 text

Decoding either gives the text or says where the valid part ends and what stopped it there.
-/

namespace Protowire.Utf8

def encode (s : String) : Bytes := s.toUTF8.data.toList

/-- Where valid text ends. `invalid` counts the bytes of the sequence that is wrong there, and is
`none` if the input ends inside a sequence that is valid so far. -/
structure Fault where
  validUpTo : Nat
  invalid : Option Nat
  deriving DecidableEq

structure ByteRange where
  first : UInt8
  last : UInt8

def ByteRange.contains (r : ByteRange) (b : UInt8) : Bool := r.first ≤ b && b ≤ r.last

def continuation : ByteRange := ⟨0x80, 0xBF⟩

/-- What must follow a first byte, or `none` if no sequence starts with it. The second byte's range
is narrower where the full one would admit overlong forms, surrogates or values past U+10FFFF. -/
def following (lead : UInt8) : Option (List ByteRange) :=
  if lead < 0x80 then some []
  else if lead < 0xC2 then none
  else if lead < 0xE0 then some [continuation]
  else if lead = 0xE0 then some [⟨0xA0, 0xBF⟩, continuation]
  else if lead = 0xED then some [⟨0x80, 0x9F⟩, continuation]
  else if lead < 0xF0 then some [continuation, continuation]
  else if lead = 0xF0 then some [⟨0x90, 0xBF⟩, continuation, continuation]
  else if lead < 0xF4 then some [continuation, continuation, continuation]
  else if lead = 0xF4 then some [⟨0x80, 0x8F⟩, continuation, continuation]
  else none

/-- Walks the input with the ranges still owed to the sequence that began at `start` and has `seen`
bytes so far. -/
def scan (start seen : Nat) : List ByteRange → Bytes → Fault
  | [], [] => ⟨start + seen, none⟩
  | _ :: _, [] => ⟨start, none⟩
  | [], b :: rest =>
    match following b with
    | none => ⟨start + seen, some 1⟩
    | some owed => scan (start + seen) 1 owed rest
  | r :: owed, b :: rest =>
    if r.contains b then scan start (seen + 1) owed rest else ⟨start, some seen⟩

def fault (bytes : Bytes) : Fault := scan 0 0 [] bytes

def decode (bytes : Bytes) : Except Fault String :=
  match String.fromUTF8? ⟨bytes.toArray⟩ with
  | some s => .ok s
  | none => .error (fault bytes)

def Fault.message (f : Fault) : String :=
  match f.invalid with
  | some length => s!"invalid utf-8 sequence of {length} bytes from index {f.validUpTo}"
  | none => s!"incomplete utf-8 byte sequence from index {f.validUpTo}"

end Protowire.Utf8
