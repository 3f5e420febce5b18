import Protowire.Schema
import Protowire.Utf8

set_option autoImplicit false

/-!
# What can go wrong

`Error` is what bad bytes, bad declarations and ill-shaped messages lead to. `Misuse` is a broken
promise of the calling program, and aborts it.
-/

namespace Protowire

/-- What a value was expected to be, by the slot that holds it or by the caller that takes it. -/
inductive Expected
  | kind (k : Kind)
  | variant (v : Variant)
  | messageType (type : Nat)
  deriving DecidableEq

def Expected.name : Expected → String
  | kind k => k.name
  | variant v => v.name
  | messageType type => Schema.typeName type

inductive Found
  | variant (v : Variant)
  | otherMessageType
  deriving DecidableEq

def Found.name : Found → String
  | variant v => v.name
  | otherMessageType => "another message type"

/-- Lower-case digits, without leading zeros. -/
def hexadecimal (n : Nat) : String := String.ofList (Nat.toDigits 16 n)

inductive Error
  | schema (e : SchemaError)
  | underrun (needed remaining : Nat)
  | varint
  | malformedTag (offset : Nat) (raw : UInt64)
  | utf8 (fault : Utf8.Fault)
  | typeMismatch (expected : Expected) (found : Found)
  | unsupportedCardinality (slot : Nat)
  | recursionLimit (limit : UInt32)
  deriving DecidableEq

def Error.message : Error → String
  | schema e => s!"schema error: {e.message}"
  | underrun needed remaining => s!"buffer underrun: needed {needed} bytes, {remaining} remaining"
  | varint => "cannot decode varint: more than 10 bytes"
  | malformedTag offset raw => s!"malformed tag 0x{hexadecimal raw.toNat} at offset {offset}"
  | utf8 fault => s!"invalid utf8: {fault.message}"
  | typeMismatch expected found => s!"expected a {expected.name} value, found {found.name}"
  | unsupportedCardinality slot => s!"field slot {slot} does not support this operation"
  | recursionLimit limit => s!"nested message depth exceeds {limit}"

inductive Misuse
  | fieldNumber (number : UInt32)
  | invalidTable (e : SchemaError)
  deriving DecidableEq

def Misuse.message : Misuse → String
  | fieldNumber number => s!"field number {number} out of range"
  | invalidTable e => s!"invalid field table: {e.message}"

namespace Tag

/-- A tag of the caller's own making; its number must be one that a field may have. -/
def make (number : UInt32) (wireType : WireType) : Except Misuse Tag :=
  match FieldNumber.ofUInt32? number with
  | some n => .ok ⟨n, wireType⟩
  | none => .error (.fieldNumber number)

/-- A tag as found at `offset`, which only the error mentions. -/
def ofRaw (raw : UInt64) (offset : Nat) : Except Error Tag :=
  match ofRaw? raw with
  | some t => .ok t
  | none => .error (.malformedTag offset raw)

end Tag

end Protowire
