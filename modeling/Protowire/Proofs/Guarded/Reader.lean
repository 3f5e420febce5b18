import Protowire.Proofs.Guarded
import Protowire.Read.Scalar
import Protowire.Read.Tag

set_option autoImplicit false

/-!
# Guarded reads

The reads of payloads and tags as a reader takes them, position by position, with every operation
guarded that may have no result. On a reader whose positions are in order they do what the reads on
cursors do, and pass the bytes that those take.
-/

namespace Protowire

namespace Guarded

variable {α : Type}

def remaining : Guarded Nat := do
  let r ← reader
  Word.sub r.stop r.position

/-- Fails unless `n` bytes remain in the window. -/
def check (n : Nat) : Guarded Unit := do
  let left ← remaining
  if left < n then fail (.underrun n left)

/-- Passes `n` bytes. -/
def advance (n : Nat) : Guarded Unit := do
  let r ← reader
  tick n
  moveTo (← Word.add r.position n)

def byte : Guarded UInt8 := do
  check 1
  let r ← reader
  let b ← Slice.index r.buffer r.position
  advance 1
  return b

/-- At most `left` groups of a varint, where `k` are read and make up `value`. -/
def groups : (left k : Nat) → (value : UInt64) → Guarded UInt64
  | 0, _, _ => fail .varint
  | left + 1, k, value => do
    let b ← byte
    let group ← Word.shiftLeft (b &&& 0x7F).toUInt64 (7 * k)
    if b &&& 0x80 = 0 then return value ||| group
    groups left (k + 1) (value ||| group)

def varint : Guarded UInt64 := groups 10 0 0

def take (n : Nat) : Guarded Bytes := do
  check n
  let r ← reader
  let bytes ← Slice.range r.buffer r.position (← Word.add r.position n)
  advance n
  return bytes

def fixed32 : Guarded UInt32 := do
  return UInt32.ofNat (LittleEndian.decode (← take 4))

def fixed64 : Guarded UInt64 := do
  return UInt64.ofNat (LittleEndian.decode (← take 8))

/-- Runs `inner` in a window of the next `n` bytes and leaves the reader behind it. -/
def window (n : Nat) (inner : Guarded α) : Guarded α := do
  check n
  let outer ← reader
  boundBy (← Word.add outer.position n)
  let result ← inner.attempt
  moveTo (← reader).stop
  boundBy outer.stop
  ofExcept result

def delimited (inner : Guarded α) : Guarded α := do
  window (← varint).toNat inner

/-- The window to its end. -/
def rest : Guarded Bytes := do
  let r ← reader
  let bytes ← Slice.range r.buffer r.position r.stop
  tick bytes.length
  moveTo r.stop
  return bytes

def bytes : Guarded Bytes := delimited rest

def string : Guarded String := do
  ofExcept ((Utf8.decode (← bytes)).mapError .utf8)

def scalar : ScalarType → Guarded Scalar
  | .int32 | .enum => do return .i32 (← varint).toUInt32.toInt32
  | .int64 => do return .i64 (← varint).toInt64
  | .uint32 => do return .u32 (← varint).toUInt32
  | .uint64 => do return .u64 (← varint)
  | .sint32 => do return .i32 (Zigzag.decode32 (← varint).toUInt32)
  | .sint64 => do return .i64 (Zigzag.decode64 (← varint))
  | .bool => do return .bool ((← varint) != 0)
  | .fixed32 => do return .u32 (← fixed32)
  | .sfixed32 => do return .i32 (← fixed32).toInt32
  | .float => do return .f32 (← fixed32)
  | .fixed64 => do return .u64 (← fixed64)
  | .sfixed64 => do return .i64 (← fixed64).toInt64
  | .double => do return .f64 (← fixed64)
  | .string => do return .string (← string)
  | .bytes => do return .bytes (← bytes)

/-- Passes `n` bytes that nobody looks at. -/
def pass (n : Nat) : Guarded Unit := do
  check n
  advance n

/-- Steps over a value and says how many bytes it took. -/
def skip (w : WireType) : Guarded Nat := do
  let start ← reader
  match w with
  | .varint => discard varint
  | .fixed64 => pass 8
  | .fixed32 => pass 4
  | .delimited => discard bytes
  Word.sub (← reader).position start.position

def tag : Guarded Tag := do
  let start ← reader
  match ← varint.attempt with
  | .ok raw => ofExcept (Tag.ofRaw raw start.position)
  | .error .varint => fail (.malformedTag start.position 0xFFFFFFFFFFFFFFFF)
  | .error e => fail e

/-- Any position up to the end of the window will do. -/
def seek (offset : Nat) : Guarded Unit := do
  let r ← reader
  if r.stop < offset then fail (.underrun (← Word.sub offset r.position) (← remaining))
  else moveTo offset

/-- The next tag, or nothing where a malformed one costs its first byte. The reader goes back to
that byte, which must still be in the window. -/
def nextTag (policy : MalformedTagPolicy) : Guarded (Option Tag) := do
  let start ← reader
  match ← tag.attempt with
  | .ok found => return some found
  | .error (.malformedTag offset raw) =>
    match policy with
    | .reject => fail (.malformedTag offset raw)
    | .resync =>
      emit (.malformedTag raw offset)
      match ← (seek (← Word.add start.position 1)).attempt with
      | .ok () => return none
      | .error _ => (Except.error .lostPlace : Except Fault (Option Tag))
  | .error e => fail e

end Guarded

end Protowire
