import Mathlib.Data.List.Forall2
import Protowire.Message.KeyOrder
import Protowire.Schema

set_option autoImplicit false

/-!
# Messages that fit

A message fits a table if it has a slot for each field, of the field's cardinality and with values
of the field's kind, down through all nested messages. Decoding builds no others, and encoding asks
for nothing more.
-/

namespace Protowire

section

variable (schema : Schema)

mutual

/-- The value is of the kind. A message must be of the declared type and fit that type's table. -/
inductive Kind.Holds : Kind → Value → Prop
  | scalar {t : ScalarType} {s : Scalar} : s.variant = t.variant →
      Kind.Holds (.scalar t) (.scalar s)
  | message {m : Message} : Message.Fits (schema.table m.type) m →
      Kind.Holds (.message m.type) (.message m)

/-- What the field may have stored. Only a single message can be missing, and the keys of a map
ascend. -/
inductive FieldSlot.Holds : FieldSlot → Slot → Prop
  | unset {field : FieldSlot} {type : Nat} : field.cardinality = .single →
      field.kind = .message type → FieldSlot.Holds field .unset
  | single {field : FieldSlot} {v : Value} : field.cardinality = .single →
      Kind.Holds field.kind v → FieldSlot.Holds field (.single v)
  | repeated {field : FieldSlot} {vs : List Value} : field.cardinality = .repeated →
      (∀ v ∈ vs, Kind.Holds field.kind v) → FieldSlot.Holds field (.repeated vs)
  | map {field : FieldSlot} {key : Kind} {es : List Entry} : field.cardinality = .map key →
      (∀ e ∈ es, Kind.Holds key e.key) → (∀ e ∈ es, Kind.Holds field.kind e.value) →
      es.Pairwise (fun a b => a.key.rank < b.key.rank) → FieldSlot.Holds field (.map es)

inductive Message.Fits : FieldTable → Message → Prop
  | slots {table : FieldTable} {m : Message} :
      List.Forall₂ FieldSlot.Holds table.slots m.slots → Message.Fits table m

end

end

mutual

/-- How many messages are nested inside one another. A message without messages in it has depth
zero. -/
def Value.depth : Value → Nat
  | .scalar _ => 0
  | .message m => m.depth + 1

def Value.maxDepth : List Value → Nat
  | [] => 0
  | v :: vs => max v.depth (Value.maxDepth vs)

def Entry.depth : Entry → Nat
  | ⟨key, value⟩ => max key.depth value.depth

def Entry.maxDepth : List Entry → Nat
  | [] => 0
  | e :: es => max e.depth (Entry.maxDepth es)

def Slot.depth : Slot → Nat
  | .unset => 0
  | .single v => v.depth
  | .repeated vs => Value.maxDepth vs
  | .map es => Entry.maxDepth es

def Slot.maxDepth : List Slot → Nat
  | [] => 0
  | s :: ss => max s.depth (Slot.maxDepth ss)

def Message.depth : Message → Nat
  | ⟨_, slots⟩ => Slot.maxDepth slots

end

namespace Sample

/-- A type that refers to itself, with a field of each cardinality. -/
def fields : List FieldSpec :=
  [⟨3, "child", .single, .message 0⟩, ⟨1, "name", .single, .scalar .string⟩,
    ⟨2, "weights", .repeated, .scalar .sint32⟩, ⟨100, "ratio", .single, .scalar .double⟩,
    ⟨4, "labels", .map (.scalar .string), .message 0⟩]

def table : FieldTable := (FieldTable.build "node" fields).toOption.getD (.empty "node")

def schema : Schema := ⟨[table], by
  intro t ht
  obtain rfl := List.mem_singleton.1 ht
  exact ⟨"node", fields, rfl⟩⟩

/-- All defaults but for the sign of its zero. -/
def leaf : Message :=
  ⟨0, [.unset, .single (.scalar (.string "")), .repeated [],
    .single (.scalar (.f64 0x8000000000000000)), .map []]⟩

def node : Message :=
  ⟨0, [.single (.message leaf), .single (.scalar (.string "n")),
    .repeated [.scalar (.i32 0), .scalar (.i32 (-3))], .single (.scalar (.f64 0)),
    .map [⟨.scalar (.string ""), .message leaf⟩, ⟨.scalar (.string "b"), .message leaf⟩]]⟩

theorem slots_table : (schema.table 0).slots =
    [⟨⟨3, by decide⟩, 0, "child", .single, .message 0⟩,
      ⟨⟨1, by decide⟩, 1, "name", .single, .scalar .string⟩,
      ⟨⟨2, by decide⟩, 2, "weights", .repeated, .scalar .sint32⟩,
      ⟨⟨100, by decide⟩, 3, "ratio", .single, .scalar .double⟩,
      ⟨⟨4, by decide⟩, 4, "labels", .map (.scalar .string), .message 0⟩] := rfl

theorem leaf_fits : leaf.Fits schema (schema.table 0) := by
  refine .slots ?_
  rw [slots_table]
  exact .cons (.unset rfl rfl) (.cons (.single rfl (.scalar rfl))
    (.cons (.repeated rfl (by simp)) (.cons (.single rfl (.scalar rfl))
      (.cons (.map rfl (by simp) (by simp) .nil) .nil))))

theorem node_fits : node.Fits schema (schema.table 0) := by
  have child : (Kind.message 0).Holds schema (.message leaf) :=
    .message (m := leaf) leaf_fits
  have text (s : String) : (Kind.scalar .string).Holds schema (.scalar (.string s)) := .scalar rfl
  have weight (v : Int32) : (Kind.scalar .sint32).Holds schema (.scalar (.i32 v)) := .scalar rfl
  refine .slots ?_
  rw [slots_table]
  refine .cons (.single rfl child) (.cons (.single rfl (text "n")) (.cons (.repeated rfl ?_)
    (.cons (.single rfl (.scalar rfl)) (.cons (.map rfl ?_ ?_ ?_) .nil))))
  · simp [weight]
  · simp [text]
  · simpa using child
  · simp
    decide

end Sample

end Protowire
