import Protowire.Message
import Protowire.Tag

set_option autoImplicit false

/-!
# Field tables

The declared fields of a message type, checked once. Encoding walks the slots in declaration
order; decoding finds them by number.
-/

namespace Protowire

/-- How many values a field holds. The values of a map are of the field's kind, its keys of the
one given here. -/
inductive Cardinality
  | single
  | repeated
  | map (key : Kind)
  deriving DecidableEq

/-- A field as declared, not checked yet. -/
structure FieldSpec where
  number : UInt32
  name : String
  cardinality : Cardinality
  kind : Kind
  deriving DecidableEq

structure FieldSlot where
  number : FieldNumber
  index : Nat
  name : String
  cardinality : Cardinality
  kind : Kind
  deriving DecidableEq

/-- The wire type the slot is written with. -/
def FieldSlot.wireType (slot : FieldSlot) : WireType :=
  match slot.cardinality with
  | .single => slot.kind.wireType
  | .repeated | .map _ => .delimited

inductive SchemaError
  | fieldNumberOutOfRange (table : String) (number : UInt32)
  | duplicateFieldNumber (table : String) (number : UInt32)
  | invalidMapKey (table : String) (number : UInt32) (kind : Kind)
  deriving DecidableEq

def SchemaError.message : SchemaError → String
  | fieldNumberOutOfRange table number => s!"{table}: field number {number} outside of 1..=127"
  | duplicateFieldNumber table number => s!"{table}: duplicate field number {number}"
  | invalidMapKey table number kind =>
    s!"{table}: field {number} has an invalid map key kind {kind.name}"

/-- `byNumber` holds at each field number the index of its slot. -/
structure FieldTable where
  name : String
  slots : List FieldSlot
  byNumber : Vector (Option UInt8) 128
  deriving DecidableEq

namespace FieldTable

def empty (name : String) : FieldTable := ⟨name, [], Vector.replicate 128 none⟩

def slotByNumber? (t : FieldTable) (number : UInt32) : Option FieldSlot := do
  let index ← (← t.byNumber[number.toNat]?)
  t.slots[index.toNat]?

/-- Declares one more field. -/
def add (t : FieldTable) (spec : FieldSpec) : Except SchemaError FieldTable :=
  match FieldNumber.ofUInt32? spec.number with
  | none => .error (.fieldNumberOutOfRange t.name spec.number)
  | some number =>
    have := number.toNat_lt
    if t.byNumber[number.val.toNat].isSome then
      .error (.duplicateFieldNumber t.name spec.number)
    else
      let extended : FieldTable :=
        { t with
          slots := t.slots ++ [⟨number, t.slots.length, spec.name, spec.cardinality, spec.kind⟩]
          byNumber := t.byNumber.set number.val.toNat (some (UInt8.ofNat t.slots.length)) }
      match spec.cardinality with
      | .map key =>
        if key.isMapKey then .ok extended
        else .error (.invalidMapKey t.name spec.number key)
      | _ => .ok extended

/-- The table of the fields `specs`, or what is wrong with the first field that is refused. -/
def build (name : String) (specs : List FieldSpec) : Except SchemaError FieldTable :=
  specs.foldlM add (empty name)

/-- Some list of declared fields has this table. -/
def Built (t : FieldTable) : Prop := ∃ name specs, build name specs = .ok t

theorem built_empty (name : String) : (empty name).Built := ⟨name, [], rfl⟩

end FieldTable

end Protowire
