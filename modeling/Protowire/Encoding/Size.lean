import Protowire.Error
import Protowire.Payload

set_option autoImplicit false

/-!
# Encoded sizes

How long an encoding is, found without writing it. Every nested length is known this way before
the bytes that it counts, and an ill-shaped message is refused before anything is written.
-/

namespace Protowire

namespace Kind

def mismatch (k : Kind) (v : Value) : Error := .typeMismatch (.kind k) (.variant v.variant)

def payload : Kind → Value → Except Error Payload
  | scalar t, .scalar s =>
    match t.payload? s with
    | some p => .ok p
    | none => .error ((scalar t).mismatch (.scalar s))
  | k, v => .error (k.mismatch v)

/-- Whether a single value is left off the wire. A message that is there never is, even if it is
empty; an empty string or byte string is left off whatever its field was declared as. -/
def omits (k : Kind) (v : Value) : Except Error Bool :=
  match k.wireType, v with
  | .delimited, .scalar (.string s) => .ok s.isEmpty
  | .delimited, .scalar (.bytes b) => .ok b.isEmpty
  | .delimited, _ => .ok false
  | _, _ => do return (← k.payload v).isZero

end Kind

namespace Encoding

variable (schema : Schema)

/-- A single value that takes `element` bytes, behind its tag unless it is left off. -/
def singleSize (number : FieldNumber) (k : Kind) (v : Value) (element : Except Error Nat) :
    Except Error Nat := do
  if ← k.omits v then return 0
  return (Tag.mk number k.wireType).size + (← element)

mutual

/-- A value without its tag. -/
def elementSize (k : Kind) : Value → Except Error Nat
  | .scalar s => do return (← k.payload (.scalar s)).size
  | .message m =>
    match k with
    | .message type => do return Varint.delimitedSize (← messageSize (schema.table type) m)
    | .scalar _ => .error (k.mismatch (.message m))

/-- Elements with `lead` bytes in front of each. -/
def elementsSize (lead : Nat) (k : Kind) : List Value → Except Error Nat
  | [] => .ok 0
  | v :: vs => do return lead + (← elementSize k v) + (← elementsSize lead k vs)

/-- A map entry without its length. -/
def entrySize (keyKind kind : Kind) : Entry → Except Error Nat
  | ⟨key, value⟩ => do
    return (← singleSize .key keyKind key (elementSize keyKind key)) +
      (← singleSize .value kind value (elementSize kind value))

def entriesSize (number : FieldNumber) (keyKind kind : Kind) : List Entry → Except Error Nat
  | [] => .ok 0
  | e :: es => do
    return (Tag.mk number .delimited).size + Varint.delimitedSize (← entrySize keyKind kind e) +
      (← entriesSize number keyKind kind es)

/-- A list packs behind one tag or has a tag for each element; an empty one takes nothing. -/
def slotSize (field : FieldSlot) : Slot → Except Error Nat
  | .unset => .ok 0
  | .single v =>
    match field.cardinality with
    | .single => singleSize field.number field.kind v (elementSize field.kind v)
    | _ => .error (.unsupportedCardinality field.index)
  | .repeated vs =>
    match field.cardinality with
    | .repeated =>
      let tag : Tag := ⟨field.number, .delimited⟩
      if vs.isEmpty then .ok 0
      else if field.kind.isPackable then do
        return tag.size + Varint.delimitedSize (← elementsSize 0 field.kind vs)
      else elementsSize tag.size field.kind vs
    | _ => .error (.unsupportedCardinality field.index)
  | .map es =>
    match field.cardinality with
    | .map keyKind => entriesSize field.number keyKind field.kind es
    | _ => .error (.unsupportedCardinality field.index)

/-- Slots beyond the declared fields take nothing, and neither do fields without a slot. -/
def slotsSize : List FieldSlot → List Slot → Except Error Nat
  | field :: fields, slot :: slots => do
    return (← slotSize field slot) + (← slotsSize fields slots)
  | _, _ => .ok 0

/-- A message without its length. -/
def messageSize (table : FieldTable) : Message → Except Error Nat
  | ⟨_, slots⟩ => slotsSize table.slots slots

end

end Encoding

/-- Bytes that the message takes when it is written by `table`. -/
def Message.encodedSize (schema : Schema) (table : FieldTable) (m : Message) :
    Except Error Nat :=
  Encoding.messageSize schema table m

end Protowire
