import Protowire.Scalar

set_option autoImplicit false

/-!
# Messages

A message is of a type, given by its place in the schema, and has one slot for each field the type
declares, in declaration order. Nothing ties the slots to the declarations here: a message may be
of any shape, and reading or writing it finds out.
-/

namespace Protowire

/-- What a field's values are declared as: a scalar type, or messages of a type. -/
inductive Kind
  | scalar (t : ScalarType)
  | message (type : Nat)
  deriving DecidableEq

namespace Kind

def name : Kind → String
  | scalar t => t.name
  | message _ => "message"

def wireType : Kind → WireType
  | scalar t => t.wireType
  | message _ => .delimited

/-- Elements that do not carry their own length go back to back behind a single tag. -/
def isPackable (k : Kind) : Bool := k.wireType ≠ .delimited

def isMapKey : Kind → Bool
  | scalar t => t.isMapKey
  | message _ => false

def variant : Kind → Variant
  | scalar t => t.variant
  | message _ => .message

end Kind

mutual
inductive Value
  | scalar (s : Scalar)
  | message (m : Message)

inductive Slot
  | unset
  | single (v : Value)
  | repeated (vs : List Value)
  | map (es : List Entry)

structure Entry where
  key : Value
  value : Value

structure Message where
  type : Nat
  slots : List Slot
end

def Value.variant : Value → Variant
  | scalar s => s.variant
  | message _ => .message

namespace Slot

/-- The elements of a list slot; any other slot has none. -/
def elements : Slot → List Value
  | repeated vs => vs
  | _ => []

def entries : Slot → List Entry
  | map es => es
  | _ => []

end Slot

namespace Message

/-- A slot that is not stored is unset. -/
def slot (m : Message) (i : Nat) : Slot := m.slots[i]?.getD .unset

/-- Stores a slot, after unset ones if the message has fewer. -/
def put (m : Message) (i : Nat) (s : Slot) : Message :=
  if i < m.slots.length then { m with slots := m.slots.set i s }
  else { m with slots := m.slots ++ List.replicate (i - m.slots.length) .unset ++ [s] }

@[simp] theorem type_put (m : Message) (i : Nat) (s : Slot) : (m.put i s).type = m.type := by
  unfold put; split <;> rfl

@[simp] theorem slot_put (m : Message) (i : Nat) (s : Slot) : (m.put i s).slot i = s := by
  unfold put slot
  split
  · simp [*]
  · have : i = (m.slots ++ List.replicate (i - m.slots.length) Slot.unset).length := by simp; omega
    rw [List.getElem?_append_right (by omega), ← this]
    simp

end Message

end Protowire
