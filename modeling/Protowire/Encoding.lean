import Protowire.Encoding.Size
import Protowire.Logged

set_option autoImplicit false

/-!
# Writing messages

Walks a table in declaration order and writes every slot that holds something other than its
default. Lengths are sized in advance, so nothing is written twice or moved.
-/

namespace Protowire

namespace Encoding

variable (schema : Schema)

/-- A single value written as `element`, behind its tag unless it is left off. -/
def writeSingle (number : FieldNumber) (k : Kind) (v : Value) (element : Logged Bytes) :
    Logged Bytes := do
  if ← k.omits v then
    Logged.emit (.omittedDefault number)
    return []
  else
    return (Tag.mk number k.wireType).encode ++ (← element)

mutual

def writeElement (k : Kind) : Value → Logged Bytes
  | .scalar s => do return (← k.payload (.scalar s)).encode
  | .message m =>
    match k with
    | .message type => do
      let size ← messageSize schema (schema.table type) m
      return Varint.encode (UInt64.ofNat size) ++ (← writeMessage (schema.table type) m)
    | .scalar _ => .ofExcept (.error (k.mismatch (.message m)))

/-- Elements with `lead` in front of each. -/
def writeElements (lead : Bytes) (k : Kind) : List Value → Logged Bytes
  | [] => return []
  | v :: vs => do return lead ++ (← writeElement k v) ++ (← writeElements lead k vs)

def writeEntry (keyKind kind : Kind) : Entry → Logged Bytes
  | ⟨key, value⟩ => do
    return (← writeSingle .key keyKind key (writeElement keyKind key)) ++
      (← writeSingle .value kind value (writeElement kind value))

def writeEntries (number : FieldNumber) (keyKind kind : Kind) : List Entry → Logged Bytes
  | [] => return []
  | e :: es => do
    let size ← entrySize schema keyKind kind e
    return (Tag.mk number .delimited).encode ++ Varint.encode (UInt64.ofNat size) ++
      (← writeEntry keyKind kind e) ++ (← writeEntries number keyKind kind es)

def writeSlot (field : FieldSlot) : Slot → Logged Bytes
  | .unset => return []
  | .single v =>
    match field.cardinality with
    | .single => writeSingle field.number field.kind v (writeElement field.kind v)
    | _ => .ofExcept (.error (.unsupportedCardinality field.index))
  | .repeated vs =>
    match field.cardinality with
    | .repeated =>
      let tag : Tag := ⟨field.number, .delimited⟩
      if vs.isEmpty then return []
      else if field.kind.isPackable then do
        let size ← elementsSize schema 0 field.kind vs
        return tag.encode ++ Varint.encode (UInt64.ofNat size) ++
          (← writeElements [] field.kind vs)
      else writeElements tag.encode field.kind vs
    | _ => .ofExcept (.error (.unsupportedCardinality field.index))
  | .map es =>
    match field.cardinality with
    | .map keyKind => writeEntries field.number keyKind field.kind es
    | _ => .ofExcept (.error (.unsupportedCardinality field.index))

def writeSlots : List FieldSlot → List Slot → Logged Bytes
  | field :: fields, slot :: slots => do
    return (← writeSlot field slot) ++ (← writeSlots fields slots)
  | _, _ => return []

def writeMessage (table : FieldTable) : Message → Logged Bytes
  | ⟨_, slots⟩ => writeSlots table.slots slots

end

end Encoding

/-- The bytes of the message, written by `table`. A message that cannot be sized is not written. -/
def Message.encode (schema : Schema) (table : FieldTable) (m : Message) : Logged Bytes := do
  let _ ← m.encodedSize schema table
  Encoding.writeMessage schema table m

end Protowire
