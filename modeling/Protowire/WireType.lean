set_option autoImplicit false

/-!
# Wire types

How a field value is laid out, apart from what it means. Codes 3 and 4 are the abandoned group
markers and, like 6 and 7, name no layout.
-/

namespace Protowire

inductive WireType
  | varint
  | fixed64
  | delimited
  | fixed32
  deriving DecidableEq

namespace WireType

def code : WireType → UInt8
  | varint => 0
  | fixed64 => 1
  | delimited => 2
  | fixed32 => 5

def ofCode? (code : UInt8) : Option WireType :=
  match code with
  | 0 => some varint
  | 1 => some fixed64
  | 2 => some delimited
  | 5 => some fixed32
  | _ => none

def name : WireType → String
  | varint => "varint"
  | fixed64 => "fixed64"
  | delimited => "length-delimited"
  | fixed32 => "fixed32"

@[simp] theorem ofCode?_code (w : WireType) : ofCode? w.code = some w := by
  cases w <;> rfl

end WireType

end Protowire
