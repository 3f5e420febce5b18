import Protowire.Error
import Protowire.Payload

set_option autoImplicit false

/-!
# Writers

A writer only ever grows at its end.
-/

namespace Protowire

inductive Write
  | raw (bytes : Bytes)
  | varint (v : UInt64)
  | tag (number : UInt32) (wireType : WireType)
  | payload (p : Payload)
  deriving DecidableEq

namespace Write

/-- Writing a scalar of the type; there is nothing to write for one of another variant. -/
def scalar? (t : ScalarType) (s : Scalar) : Option Write := (t.payload? s).map payload

def bytes : Write → Except Misuse Bytes
  | raw bytes => .ok bytes
  | varint v => .ok (Varint.encode v)
  | tag number wireType => do return (← Tag.make number wireType).encode
  | payload p => .ok p.encode

end Write

structure Writer where
  written : Bytes := []
  deriving DecidableEq

namespace Writer

def length (w : Writer) : Nat := w.written.length

def isEmpty (w : Writer) : Bool := w.written.isEmpty

/-- What a write appends, and the writer after it. A misuse appends nothing. -/
def write (w : Writer) (x : Write) : Except Misuse Bytes × Writer :=
  match x.bytes with
  | .ok bytes => (.ok bytes, ⟨w.written ++ bytes⟩)
  | .error misuse => (.error misuse, w)

/-- All the writes in turn, with what each appended and the writer after it. -/
def writeAll (w : Writer) : List Write → List (Except Misuse Bytes × Writer)
  | [] => []
  | x :: xs =>
    let written := w.write x
    written :: written.2.writeAll xs

end Writer

end Protowire
