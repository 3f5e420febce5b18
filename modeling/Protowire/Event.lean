import Protowire.Error

set_option autoImplicit false

/-!
# Log events

Everything that decoding steps over, and every known field that it meets, is logged.
-/

namespace Protowire

inductive Level
  | trace | debug | warn
  deriving DecidableEq

def Level.name : Level → String
  | trace => "TRACE"
  | debug => "DEBUG"
  | warn => "WARN"

inductive Event
  /-- A tag that no field can have was stepped over, by one byte. -/
  | malformedTag (raw : UInt64) (offset : Nat)
  | knownField (table : String) (number : FieldNumber) (field : String) (wireType : WireType)
  /-- A known field came with a wire type that its slot does not take. -/
  | mismatchedField (table : String) (number : FieldNumber) (field : String) (kind : Kind)
      (wireType : WireType)
  | unknownField (table : String) (number : FieldNumber) (wireType : WireType) (skipped : Nat)
  /-- A map entry held a field that is neither its key nor its value. -/
  | strayEntryField (number : FieldNumber) (wireType : WireType)
  | omittedDefault (number : FieldNumber)
  | builtTable (name : String) (fields : Nat)
  deriving DecidableEq

namespace Event

def level : Event → Level
  | malformedTag .. | mismatchedField .. => .warn
  | unknownField .. | strayEntryField .. | builtTable .. => .debug
  | knownField .. | omittedDefault .. => .trace

def text : Event → String
  | malformedTag raw offset =>
    s!"malformed tag 0x{hexadecimal raw.toNat} at offset {offset}, " ++
      "stream may be broken; skipping one byte"
  | knownField table number field wireType =>
    s!"{table}: field {number.val} ({field}) as {wireType.name}"
  | mismatchedField table number field kind wireType =>
    s!"{table}: field {number.val} ({field}) declared as {kind.name} " ++
      s!"but arrived as {wireType.name}, skipping"
  | unknownField table number wireType skipped =>
    s!"{table}: unknown field {number.val} ({wireType.name}), skipped {skipped} bytes"
  | strayEntryField number wireType =>
    s!"map entry: skipping field {number.val} ({wireType.name})"
  | omittedDefault number => s!"field {number.val} holds its default, omitted"
  | builtTable name fields => s!"built field table for {name} ({fields} fields)"

end Event

end Protowire
