import Mathlib.Data.List.Forall2
import Protowire.Message.Update
import Protowire.Proofs.Message
import Protowire.Proofs.Message.KeyOrder

set_option autoImplicit false

/-!
# What updates do

An update that suits a message type is made in full, and `apply` says what it makes of a message.
A message that fits its type still fits after it.
-/

namespace Protowire

variable {schema : Schema}

theorem Kind.accept_of_holds {k : Kind} {v : Value} (h : k.Holds schema v) :
    k.accept v = .ok v := by
  cases h with
  | scalar variant =>
    simp only [accept, Value.expectScalar, variant, if_true]
    rfl
  | message fits =>
    simp only [accept, Value.expectMessage, if_true]
    rfl

/-- The update goes to a declared slot of its cardinality, and its values are of the declared
kinds. -/
def Update.Suits (schema : Schema) (type : Nat) : Update → Prop
  | .set i v => ∃ field, (schema.table type).slots[i]? = some field ∧
      field.cardinality = .single ∧ field.kind.Holds schema v
  | .append i vs => ∃ field, (schema.table type).slots[i]? = some field ∧
      field.cardinality = .repeated ∧ ∀ v ∈ vs, field.kind.Holds schema v
  | .insert i key value => ∃ field keyKind, (schema.table type).slots[i]? = some field ∧
      field.cardinality = .map keyKind ∧ keyKind.Holds schema key ∧ field.kind.Holds schema value

namespace Message

def push (m : Message) (i : Nat) (v : Value) : Message :=
  m.put i (.repeated ((m.slot i).elements ++ [v]))

/-- What the update of a record makes of a message. A record that is stepped over makes none. -/
def apply (m : Message) : Option Update → Message
  | none => m
  | some (.set i v) => m.put i (.single v)
  | some (.append i vs) => vs.foldl (fun m v => m.push i v) m
  | some (.insert i key value) => m.put i (.map (Entry.insert key value (m.slot i).entries))

@[simp] theorem type_push (m : Message) (i : Nat) (v : Value) : (m.push i v).type = m.type :=
  type_put ..

theorem type_foldl_push (m : Message) (i : Nat) (vs : List Value) :
    (vs.foldl (fun m v => m.push i v) m).type = m.type := by
  induction vs generalizing m with
  | nil => rfl
  | cons v vs ih => rw [List.foldl_cons, ih, type_push]

@[simp] theorem type_apply (m : Message) (o : Option Update) : (m.apply o).type = m.type := by
  rcases o with _ | ⟨i, v⟩ | ⟨i, vs⟩ | ⟨i, key, value⟩
  · rfl
  · exact type_put ..
  · exact type_foldl_push ..
  · exact type_put ..

theorem type_foldl_apply (m : Message) (os : List (Option Update)) :
    (os.foldl apply m).type = m.type := by
  induction os generalizing m with
  | nil => rfl
  | cons o os ih => rw [List.foldl_cons, ih, type_apply]

theorem appendAll_of_suits {m : Message} {i : Nat} {vs : List Value}
    (h : (Update.append i vs).Suits schema m.type) :
    m.appendAll schema .full i vs = ⟨m.apply (some (.append i vs)), .ok ()⟩ := by
  obtain ⟨field, declared, cardinality, values⟩ := h
  induction vs generalizing m with
  | nil => rfl
  | cons v vs ih =>
    have accepted := Kind.accept_of_holds (values v List.mem_cons_self)
    have appended : m.append schema .full i v = .ok (m.push i v) := by
      obtain ⟨number, index, name, _, kind⟩ := field
      cases cardinality
      simp only [append, Accessors.append_full, declared?, declared, accepted]
      rfl
    rw [appendAll, appended]
    refine ih ?_ fun w hw => values w (List.mem_cons_of_mem v hw)
    rwa [type_push]

theorem update_of_suits {m : Message} {u : Update} (h : u.Suits schema m.type) :
    m.update schema .full u = ⟨m.apply (some u), .ok ()⟩ := by
  cases u with
  | set i v =>
    obtain ⟨⟨number, index, name, _, kind⟩, declared, cardinality, value⟩ := h
    cases cardinality
    simp only [update, attempt, set, declared?, declared, Kind.accept_of_holds value]
    rfl
  | append i vs => exact appendAll_of_suits h
  | insert i key value =>
    obtain ⟨⟨number, index, name, _, kind⟩, keyKind, declared, cardinality, hk, hv⟩ := h
    cases cardinality
    simp only [update, attempt, insert, Accessors.insert_full, declared?, declared,
      Kind.accept_of_holds hk, Kind.accept_of_holds hv]
    rfl

theorem holds_freshSlot (field : FieldSlot) : field.Holds schema (Schema.freshSlot field) := by
  obtain ⟨number, index, name, cardinality, kind⟩ := field
  cases cardinality with
  | single =>
    cases kind with
    | scalar t => exact .single rfl (.scalar (ScalarType.variant_default t))
    | message type => exact .unset rfl rfl
  | repeated => exact .repeated rfl (by simp)
  | map key => exact .map rfl (by simp) (by simp) .nil

theorem fits_fresh (schema : Schema) (type : Nat) :
    (schema.fresh type).Fits schema (schema.table type) :=
  .slots (List.forall₂_map_right_iff.2
    (List.forall₂_same.2 fun field _ => holds_freshSlot field))

section Slots

variable {fields : List FieldSlot} {slots : List Slot} {field : FieldSlot} {s : Slot} {i : Nat}

theorem holds_getElem? (h : List.Forall₂ (FieldSlot.Holds schema) fields slots)
    (declared : fields[i]? = some field) : field.Holds schema (slots[i]?.getD .unset) := by
  induction h generalizing i with
  | nil => cases declared
  | cons first others ih =>
    cases i with
    | zero =>
      cases declared
      exact first
    | succ i => exact ih declared

theorem holds_set (h : List.Forall₂ (FieldSlot.Holds schema) fields slots)
    (declared : fields[i]? = some field) (hs : field.Holds schema s) :
    List.Forall₂ (FieldSlot.Holds schema) fields (slots.set i s) := by
  induction h generalizing i with
  | nil => cases declared
  | cons first others ih =>
    cases i with
    | zero =>
      cases declared
      exact .cons hs others
    | succ i => exact .cons first (ih declared)

theorem elements_of_holds (h : field.Holds schema s) :
    ∀ v ∈ s.elements, field.kind.Holds schema v := by
  cases h with
  | repeated _ values => exact values
  | _ =>
    intro v hv
    cases hv

theorem repeated_elements_of_holds (h : field.Holds schema s)
    (cardinality : field.cardinality = .repeated) : .repeated s.elements = s := by
  cases h with
  | repeated => rfl
  | _ other => simp [cardinality] at other

theorem map_entries_of_holds {keyKind : Kind} (h : field.Holds schema s)
    (cardinality : field.cardinality = .map keyKind) : .map s.entries = s := by
  cases h with
  | map => rfl
  | _ other => simp [cardinality] at other

theorem entries_of_holds {keyKind : Kind} (h : field.Holds schema s)
    (cardinality : field.cardinality = .map keyKind) :
    (∀ e ∈ s.entries, keyKind.Holds schema e.key) ∧
      (∀ e ∈ s.entries, field.kind.Holds schema e.value) ∧ Entry.Ascending s.entries := by
  cases h with
  | map cardinality' keys values sorted =>
    rw [cardinality] at cardinality'
    cases cardinality'
    exact ⟨keys, values, sorted⟩
  | _ =>
    refine ⟨?_, ?_, .nil⟩
    all_goals
      intro e he
      cases he

theorem holds_insert {keyKind : Kind} {key value : Value} (h : field.Holds schema s)
    (cardinality : field.cardinality = .map keyKind) (hk : keyKind.Holds schema key)
    (hv : field.kind.Holds schema value) :
    field.Holds schema (.map (Entry.insert key value s.entries)) := by
  obtain ⟨keys, values, sorted⟩ := entries_of_holds h cardinality
  refine .map cardinality ?_ ?_ (Entry.ascending_insert sorted)
  · intro e he
    rcases Entry.key_of_mem_insert he with new | ⟨old, ho, same⟩
    · rwa [new]
    · rw [same]
      exact keys old ho
  · intro e he
    rcases Entry.value_of_mem_insert he with new | ⟨old, ho, same⟩
    · rwa [new]
    · rw [same]
      exact values old ho

end Slots

variable {table : FieldTable} {m : Message} {i : Nat} {field : FieldSlot}

theorem holds_slot (fits : m.Fits schema table) (declared : table.slots[i]? = some field) :
    field.Holds schema (m.slot i) := by
  cases fits with
  | slots h => exact holds_getElem? h declared

theorem lt_length_of_fits (fits : m.Fits schema table) (declared : table.slots[i]? = some field) :
    i < m.slots.length := by
  cases fits with
  | slots hss =>
    rw [← hss.length_eq]
    exact (List.getElem?_eq_some_iff.1 declared).1

/-- Storing what is there changes nothing. -/
theorem put_slot (fits : m.Fits schema table) (declared : table.slots[i]? = some field) :
    m.put i (m.slot i) = m := by
  have inside := lt_length_of_fits fits declared
  rw [put, if_pos inside, slot, List.getElem?_eq_getElem inside, Option.getD_some,
    List.set_getElem_self]
  cases m
  rfl

theorem put_elements (fits : m.Fits schema table) (declared : table.slots[i]? = some field)
    (cardinality : field.cardinality = .repeated) :
    m.put i (.repeated (m.slot i).elements) = m := by
  rw [repeated_elements_of_holds (holds_slot fits declared) cardinality, put_slot fits declared]

theorem put_entries (fits : m.Fits schema table) (declared : table.slots[i]? = some field)
    {keyKind : Kind} (cardinality : field.cardinality = .map keyKind) :
    m.put i (.map (m.slot i).entries) = m := by
  rw [map_entries_of_holds (holds_slot fits declared) cardinality, put_slot fits declared]

theorem fits_put {s : Slot} (fits : m.Fits schema table) (declared : table.slots[i]? = some field)
    (h : field.Holds schema s) : (m.put i s).Fits schema table := by
  have inside := lt_length_of_fits fits declared
  cases fits with
  | slots hss =>
    rw [put, if_pos inside]
    exact .slots (holds_set hss declared h)

theorem fits_push {v : Value} (fits : m.Fits schema table)
    (declared : table.slots[i]? = some field) (cardinality : field.cardinality = .repeated)
    (value : field.kind.Holds schema v) : (m.push i v).Fits schema table := by
  refine fits_put fits declared (.repeated cardinality ?_)
  intro w hw
  rcases List.mem_append.1 hw with old | new
  · exact elements_of_holds (holds_slot fits declared) w old
  · obtain rfl := List.mem_singleton.1 new
    exact value

/-- An update that suits the type leaves a message that fits it. -/
theorem fits_apply {u : Update} (fits : m.Fits schema (schema.table m.type))
    (h : u.Suits schema m.type) : (m.apply (some u)).Fits schema (schema.table m.type) := by
  cases u with
  | set i v =>
    obtain ⟨field, declared, cardinality, value⟩ := h
    exact fits_put fits declared (.single cardinality value)
  | append i vs =>
    obtain ⟨field, declared, cardinality, values⟩ := h
    generalize schema.table m.type = table at fits declared ⊢
    change (vs.foldl (fun m v => m.push i v) m).Fits schema table
    induction vs generalizing m with
    | nil => exact fits
    | cons v vs ih =>
      have pushed := fits_push fits declared cardinality (values v List.mem_cons_self)
      exact ih (fun w hw => values w (List.mem_cons_of_mem v hw)) pushed
  | insert i key value =>
    obtain ⟨field, keyKind, declared, cardinality, hk, hv⟩ := h
    exact fits_put fits declared (holds_insert (holds_slot fits declared) cardinality hk hv)

theorem fits_foldl_apply {os : List (Option Update)}
    (fits : m.Fits schema (schema.table m.type))
    (h : ∀ o ∈ os, ∀ u, o = some u → u.Suits schema m.type) :
    (os.foldl apply m).Fits schema (schema.table m.type) := by
  induction os generalizing m with
  | nil => exact fits
  | cons o os ih =>
    have first : (m.apply o).Fits schema (schema.table (m.apply o).type) := by
      rw [type_apply]
      cases o with
      | none => exact fits
      | some u => exact fits_apply fits (h (some u) List.mem_cons_self u rfl)
    have others := ih first fun o' ho u hu => by
      rw [type_apply]
      exact h o' (List.mem_cons_of_mem o ho) u hu
    rwa [type_apply] at others

end Message

end Protowire
