import Protowire.FieldTable

set_option autoImplicit false

/-!
# Schemas

A family of message types, which may refer to each other and to themselves by their place in it.
-/

namespace Protowire

structure MessageSpec where
  name : String
  fields : List FieldSpec
  deriving DecidableEq

structure Schema where
  tables : List FieldTable
  built : ∀ t ∈ tables, t.Built

namespace Schema

/-- Builds the tables in order; the first field that is refused is the answer. -/
def build : List MessageSpec → Except SchemaError Schema
  | [] => .ok ⟨[], by simp⟩
  | spec :: specs =>
    match h : FieldTable.build spec.name spec.fields with
    | .error e => .error e
    | .ok table => do
      let rest ← build specs
      return ⟨table :: rest.tables, by
        intro t ht
        rcases List.mem_cons.1 ht with rfl | ht
        · exact ⟨spec.name, spec.fields, h⟩
        · exact rest.built t ht⟩

/-- A type outside the family declares no fields. -/
def table (schema : Schema) (type : Nat) : FieldTable :=
  schema.tables[type]?.getD (.empty "")

theorem built_table (schema : Schema) (type : Nat) : (schema.table type).Built := by
  unfold table
  cases h : schema.tables[type]? with
  | none => exact FieldTable.built_empty ""
  | some t => exact schema.built t (List.mem_of_getElem? h)

/-- What a field holds before anything is read: scalars their default, messages nothing. -/
def freshSlot (slot : FieldSlot) : Slot :=
  match slot.cardinality, slot.kind with
  | .single, .scalar t => .single (.scalar t.default)
  | .single, .message _ => .unset
  | .repeated, _ => .repeated []
  | .map _, _ => .map []

def fresh (schema : Schema) (type : Nat) : Message :=
  ⟨type, (schema.table type).slots.map freshSlot⟩

/-- The name of a message type as messages and logs show it. -/
def typeName (type : Nat) : String := s!"type {type}"

end Schema

/-- The value of a map entry half that is not there. -/
def Kind.default (schema : Schema) : Kind → Value
  | scalar t => .scalar t.default
  | message type => .message (schema.fresh type)

end Protowire
